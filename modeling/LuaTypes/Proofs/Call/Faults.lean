import LuaTypes.Call
import LuaTypes.Proofs.TypeExpr.Faults
import LuaTypes.Proofs.TypeExpr.Lexemes

/-!
What the reading of calls can fail at: as for types, only a numeral without a value is beyond tokens and
grammar.
-/

namespace LuaTypes.Call

namespace Parser

open Reader

variable {text : List Char}

theorem faults_advance : Faults true text advance :=
  Faults.advance frame

theorem faults_expect (symbol : Symbol) : Faults true text (expect symbol) :=
  Faults.take frame _ _

theorem faults_name : Faults true text name := by
  unfold name
  apply Faults.bind .peek
  intro found
  split
  · exact .bind faults_advance fun _ => .pure _
  · exact .fail _ _

theorem faults_finish : Faults true text finish := by
  unfold finish
  apply Faults.bind .peek
  intro found
  split
  · exact .pure _
  · exact .fail _ _

theorem faults_skipBracket (opening closing : Symbol) (fuel depth : Nat)
    : Faults true text (skipBracket opening closing fuel depth) := by
  induction fuel generalizing depth with
  | zero => exact .fail _ _
  | succ fuel ih =>
    unfold skipBracket
    apply Faults.bind .peek
    intro next
    dsimp only
    split
    · exact Faults.fail frame (Problem.unterminated opening)
    · apply Faults.bind faults_advance
      intro _
      split
      · exact ih _
      · split
        · split
          · exact .pure _
          · exact ih _
        · exact ih _

theorem faults_skipBalanced (opening closing : Symbol) : Faults true text (skipBalanced opening closing) := by
  unfold skipBalanced
  apply Faults.bind faults_advance
  intro _
  exact .bind .get fun _ => faults_skipBracket opening closing _ 0

theorem faults_word (name : String) : Faults true text (word name) := by
  unfold word
  apply Faults.bind faults_advance
  intro _
  split
  · exact .pure _
  · split
    · exact .pure _
    · split
      · exact .pure _
      · apply Faults.bind .peek
        intro next
        dsimp only
        split
        · exact .bind (faults_skipBalanced _ _) fun _ => .pure _
        · exact .pure _

theorem faults_argument : Faults true text argument := by
  unfold argument
  apply Faults.peek_bind
  intro found hfound
  split
  next => exact .bind faults_advance fun _ => .pure _
  next s =>
    apply Faults.bind faults_advance
    intro _
    exact .bind (.ofNumber (hfound s rfl)) fun _ => .pure _
  next => exact .bind (faults_skipBalanced _ _) fun _ => .pure _
  next => exact faults_word _
  next => exact faults_word _
  next => exact .fail _ _

theorem faults_arguments (fuel : Nat) : Faults true text (arguments fuel) := by
  induction fuel with
  | zero => exact .bind .peek fun _ => .fail _ _
  | succ fuel ih =>
    unfold arguments
    apply Faults.bind faults_argument
    intro t
    apply Faults.bind .peek
    intro next
    split
    · apply Faults.bind faults_advance
      intro _
      exact .bind ih fun _ => .pure _
    · exact .pure _

theorem faults_argumentList (callee : String) : Faults true text (do
    expect .openParen
    let args ←
      if (← Reader.peek) = .symbol .closeParen then pure []
      else arguments ((← get).length + 1)
    expect .closeParen
    finish
    return { callee, args } : ParseM Call) := by
  have hclose : ∀ args, Faults true text (do
      expect .closeParen
      finish
      return { callee, args } : ParseM Call) := by
    intro args
    exact .bind (faults_expect _) fun _ => .bind faults_finish fun _ => .pure _
  apply Faults.bind (faults_expect _)
  intro _
  apply Faults.bind .peek
  intro next
  dsimp only
  split
  · exact .bind (.pure _) hclose
  · apply Faults.bind .get
    intro tokens
    exact .bind (faults_arguments _) hclose

theorem faults_call : Faults true text call := by
  unfold call
  apply Faults.bind faults_name
  intro first
  apply Faults.bind .peek
  intro next
  dsimp only
  split
  · apply Faults.bind faults_advance
    intro _
    apply Faults.bind faults_name
    intro method
    exact .bind (.pure _) faults_argumentList
  · exact .bind (.pure _) faults_argumentList

end Parser

theorem blames_of_parse {text : String} {e : ReadError Problem} (h : parse text = .error e)
    : Reader.Blames true text.toList e := by
  unfold parse at h
  dsimp only [bind, Except.bind] at h
  split at h
  next hrun =>
    cases h
    exact (Parser.faults_call).run hrun
  next => cases h

/-! ### Single numerals -/

open Reader

theorem Parser.call_number {s : String} (o₁ o₂ o₃ o₄ o₅ : Nat)
    : call [⟨.name "f", o₁⟩, ⟨.symbol .openParen, o₂⟩, ⟨.number s, o₃⟩, ⟨.symbol .closeParen, o₄⟩, ⟨.endOfText, o₅⟩]
        = ((fun l => ⟨"f", [.literal l]⟩) <$> ofNumber (TypeExpr.Parser.numberLiteral s)) [⟨.endOfText, o₅⟩] := by
  have hname : name [⟨.name "f", o₁⟩, ⟨.symbol .openParen, o₂⟩, ⟨.number s, o₃⟩, ⟨.symbol .closeParen, o₄⟩,
      ⟨.endOfText, o₅⟩] = .ok ("f", [⟨.symbol .openParen, o₂⟩, ⟨.number s, o₃⟩, ⟨.symbol .closeParen, o₄⟩,
      ⟨.endOfText, o₅⟩]) := rfl
  have hopen : expect .openParen [⟨.symbol .openParen, o₂⟩, ⟨.number s, o₃⟩, ⟨.symbol .closeParen, o₄⟩,
      ⟨.endOfText, o₅⟩] = .ok ((), [⟨.number s, o₃⟩, ⟨.symbol .closeParen, o₄⟩, ⟨.endOfText, o₅⟩]) := rfl
  have hargument : argument [⟨.number s, o₃⟩, ⟨.symbol .closeParen, o₄⟩, ⟨.endOfText, o₅⟩]
      = (TypeExpr.literal <$> ofNumber (TypeExpr.Parser.numberLiteral s))
          [⟨.symbol .closeParen, o₄⟩, ⟨.endOfText, o₅⟩] := by
    have hadvance : advance [⟨.number s, o₃⟩, ⟨.symbol .closeParen, o₄⟩, ⟨.endOfText, o₅⟩]
        = .ok (.number s, [⟨.symbol .closeParen, o₄⟩, ⟨.endOfText, o₅⟩]) := rfl
    unfold argument
    rw [bind_of_ok (x := .number s) rfl]
    dsimp only
    rw [bind_of_ok hadvance]
    rfl
  unfold call
  rw [bind_of_ok hname, bind_of_ok (x := .symbol .openParen) rfl]
  dsimp only
  rw [if_neg (by decide), bind_of_ok (x := "f") rfl, bind_of_ok hopen, bind_of_ok (x := .number s) rfl,
    if_neg (by simp), bind_of_ok (r := get) rfl]
  unfold arguments
  cases hvalue : TypeExpr.Parser.numberLiteral s with
  | error fault =>
    rw [hvalue] at hargument
    exact bind_of_error (bind_of_error hargument)
  | ok l =>
    rw [hvalue] at hargument
    rw [bind_apply, bind_of_ok hargument]
    rfl

theorem scans_numeral (n : Lexeme.Numeral)
    : TypeExpr.ScansAs ("f(" ++ String.ofList n.text ++ ")")
        [.name "f", .symbol .openParen, .number (String.ofList n.text), .symbol .closeParen] := by
  have hnumber : TypeExpr.ScansAs (String.ofList n.text) [.number (String.ofList n.text)] := by
    intro tail htail
    rw [String.toList_ofList]
    exact Token.scans_number n htail
  have hargument := hnumber.append (.closing (s := .closeParen) (by decide))
    (TypeExpr.parts_symbol (s := .closeParen) (by decide) "")
  have hname : Lexeme.IsName "f" := ⟨⟨'f', [], rfl, by decide, by decide, rfl⟩, by decide⟩
  have hcall := (TypeExpr.scansAs_name hname).append (hargument.symbol (s := .openParen) (by decide))
    (TypeExpr.parts_symbol (s := .openParen) (by decide) _)
  rw [← String.append_assoc] at hcall
  exact hcall

theorem parse_numeral (n : Lexeme.Numeral)
    : parse ("f(" ++ String.ofList n.text ++ ")")
        = ((TypeExpr.Parser.numberLiteral (String.ofList n.text)).map fun l => ⟨"f", [.literal l]⟩).mapError
            .number := by
  obtain ⟨tokens, hlexemes, hscan⟩ := (scans_numeral n [] Token.breaks_nil).exists_tokens
  obtain ⟨⟨_, o₁⟩, _, rfl, rfl, htail₁⟩ := List.map_eq_cons_iff.1 hlexemes
  obtain ⟨⟨_, o₂⟩, _, rfl, rfl, htail₂⟩ := List.map_eq_cons_iff.1 htail₁
  obtain ⟨⟨_, o₃⟩, _, rfl, rfl, htail₃⟩ := List.map_eq_cons_iff.1 htail₂
  obtain ⟨⟨_, o₄⟩, rfl, rfl⟩ := List.map_eq_singleton_iff.1 htail₃
  generalize ("f(" ++ String.ofList n.text ++ ")").toList.length = o₅ at hscan
  have hrun : Reader.run Parser.frame ("f(" ++ String.ofList n.text ++ ")").toList Parser.call
      = ((fun l => ⟨"f", [.literal l]⟩) <$> ofNumber (TypeExpr.Parser.numberLiteral (String.ofList n.text)))
          [⟨.endOfText, o₅⟩] := by
    unfold Reader.run
    rw [hscan]
    exact Parser.call_number o₁ o₂ o₃ o₄ o₅
  unfold parse
  rw [hrun]
  cases TypeExpr.Parser.numberLiteral (String.ofList n.text) <;> rfl

end LuaTypes.Call
