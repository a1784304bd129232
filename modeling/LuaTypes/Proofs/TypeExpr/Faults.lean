import LuaTypes.Proofs.TypeExpr.Numeral

/-!
What the reading of types can fail at: a token that cannot be read if the reader is strict, the grammar,
and a numeral of the text that has no value. Such a numeral alone is enough for it.
-/

namespace LuaTypes

/-! ### Numerals of a text -/

namespace Lexeme

theorem numberRest_eq (cs : List Char)
    : ∃ places, (∀ c ∈ places, Text.isDigit c = true) ∧
        numberRest cs = cs.takeWhile Text.isDigit ++ Decimal.pointed places ∧ numberRest cs <+: cs := by
  have hsplit := List.takeWhile_append_dropWhile (p := Text.isDigit) (l := cs)
  have hnone : cs.takeWhile Text.isDigit ++ [] <+: cs := by
    rw [List.append_nil]
    exact List.takeWhile_prefix _
  unfold numberRest
  split
  next d ds hdrop =>
    split
    next hd =>
      refine ⟨d :: ds.takeWhile Text.isDigit, ?_, rfl, ds.dropWhile Text.isDigit, ?_⟩
      · rw [List.forall_mem_cons]
        exact ⟨hd, fun c hc => List.mem_takeWhile_imp hc⟩
      · rw [List.append_assoc, List.cons_append, List.cons_append, List.takeWhile_append_dropWhile, ← hdrop]
        exact hsplit
    next => exact ⟨[], by simp, rfl, hnone⟩
  next => exact ⟨[], by simp, rfl, hnone⟩

theorem exists_numeral {c : Char} {cs : List Char}
    (h : (Text.isDigit c || (c == '-' && cs.head?.any Text.isDigit)) = true)
    : ∃ n : Numeral, n.text = c :: numberRest cs ∧ n.text <+: c :: cs := by
  obtain ⟨places, hplaces, hrest, hstart⟩ := numberRest_eq cs
  suffices ∃ n : Numeral, n.text = c :: numberRest cs by
    obtain ⟨n, hn⟩ := this
    exact ⟨n, hn, hn ▸ (List.prefix_cons_inj c).2 hstart⟩
  have hdigits : ∀ d ∈ cs.takeWhile Text.isDigit, Text.isDigit d = true :=
    fun d hd => List.mem_takeWhile_imp hd
  rw [Bool.or_eq_true] at h
  cases h with
  | inl hc =>
    refine ⟨⟨false, c :: cs.takeWhile Text.isDigit, places, by simp, ?_, hplaces⟩, ?_⟩
    · rw [List.forall_mem_cons]
      exact ⟨hc, hdigits⟩
    · rw [hrest]
      rfl
  | inr hminus =>
    rw [Bool.and_eq_true, beq_iff_eq] at hminus
    obtain ⟨rfl, hhead⟩ := hminus
    have hne : cs.takeWhile Text.isDigit ≠ [] := by
      cases cs with
      | nil => cases hhead
      | cons d ds =>
        rw [List.takeWhile_cons, if_pos (show Text.isDigit d = true from hhead)]
        simp
    exact ⟨⟨true, cs.takeWhile Text.isDigit, places, hne, hdigits, hplaces⟩, by rw [hrest]; rfl⟩

theorem exists_numeral_of_read {c : Char} {cs : List Char} {s : String}
    (h : (read c cs).1 = .number s)
    : ∃ n : Numeral, String.ofList n.text = s ∧ n.text <+: c :: cs := by
  unfold read at h
  split at h
  · cases h
  · cases h
  · split at h
    · cases h
    · split at h
      · unfold ofString at h
        split at h <;> cases h
      · split at h
        next hnumber =>
          obtain ⟨n, hn, hstart⟩ := exists_numeral hnumber
          cases h
          exact ⟨n, by rw [hn], hstart⟩
        next =>
          split at h
          · dsimp only [ofWord] at h
            split at h <;> cases h
          · cases h

end Lexeme

theorem Token.exists_numeral_of_mem_scanFrom {skip offset : Nat} {cs : List Char} {t : Token} {s : String}
    (ht : t ∈ scanFrom skip offset cs) (hs : t.lexeme = .number s)
    : ∃ n : Lexeme.Numeral, String.ofList n.text = s ∧ n.text <:+: cs := by
  induction cs generalizing skip offset with
  | nil =>
    rw [scanFrom, List.mem_singleton] at ht
    rw [ht] at hs
    cases hs
  | cons c cs ih =>
    have hrest : ∀ {skip offset}, t ∈ scanFrom skip offset cs →
        ∃ n : Lexeme.Numeral, String.ofList n.text = s ∧ n.text <:+: c :: cs := by
      intro skip offset ht
      obtain ⟨n, hn, hinside⟩ := ih ht
      exact ⟨n, hn, hinside.trans (List.suffix_cons c cs).isInfix⟩
    cases skip with
    | succ skip => exact hrest ht
    | zero =>
      rw [scanFrom] at ht
      split at ht
      · exact hrest ht
      · rw [List.mem_cons] at ht
        cases ht with
        | inl ht =>
          rw [ht] at hs
          obtain ⟨n, hn, hstart⟩ := Lexeme.exists_numeral_of_read hs
          exact ⟨n, hn, hstart.isInfix⟩
        | inr ht => exact hrest ht

theorem Token.exists_numeral_of_mem_scan {text : List Char} {t : Token} {s : String} (ht : t ∈ scan text)
    (hs : t.lexeme = .number s)
    : ∃ n : Lexeme.Numeral, String.ofList n.text = s ∧ n.text <:+: text :=
  exists_numeral_of_mem_scanFrom ht hs

/-! ### Readers -/

namespace Reader

variable {π α β : Type} {strict : Bool} {text : List Char}

/--
An error that tells of an unknown token only if the reader is `strict`, and of a number without a value
only if such a numeral stands in the text.
-/
def Blames (strict : Bool) (text : List Char) : ReadError π → Prop
  | .token .. => strict = true
  | .number _ => HasValueless text
  | .grammar .. => True

def Faults (strict : Bool) (text : List Char) (r : Reader π α) : Prop :=
  ∀ tokens, tokens ⊆ Token.scan text →
    match r tokens with
    | .ok (_, rest) => rest ⊆ Token.scan text
    | .error e => Blames strict text e

theorem Blames.grammar {problem : π} {position : Position}
    : Blames strict text (.grammar problem position) :=
  trivial

theorem blames_guardKnown {frame : Frame} {tokens : List Token} {e : ReadError π}
    (h : guardKnown frame tokens = .error e)
    : Blames frame.strict text e := by
  unfold guardKnown at h
  split at h
  · split at h
    next hstrict =>
      cases h
      exact hstrict
    next => cases h
  · cases h

namespace Faults

theorem pure (x : α) : Faults strict text (Pure.pure x : Reader π α) := by
  intro tokens htokens
  exact htokens

theorem bind {r : Reader π α} {f : α → Reader π β} (hr : Faults strict text r)
    (hf : ∀ x, Faults strict text (f x))
    : Faults strict text (r >>= f) := by
  intro tokens htokens
  have h := hr tokens htokens
  rw [bind_apply]
  cases hrun : r tokens with
  | ok result =>
    rw [hrun] at h
    exact hf result.1 result.2 h
  | error e => rwa [hrun] at h

theorem fail (frame : Frame) (problem : π) : Faults strict text (Reader.fail frame problem : Reader π α) := by
  intro tokens _
  exact Blames.grammar

theorem get : Faults strict text (MonadState.get : Reader π (List Token)) := by
  intro tokens htokens
  exact htokens

theorem peek_bind {f : Lexeme → Reader π α}
    (hf : ∀ found, (∀ s, found = .number s → ∃ n : Lexeme.Numeral, String.ofList n.text = s ∧ n.text <:+: text) →
      Faults strict text (f found))
    : Faults strict text (peek >>= f) := by
  intro tokens htokens
  apply hf (first tokens).lexeme _ tokens htokens
  intro s hs
  cases tokens with
  | nil => cases hs
  | cons t ts => exact Token.exists_numeral_of_mem_scan (htokens List.mem_cons_self) hs

theorem peek : Faults strict text (Reader.peek : Reader π Lexeme) := by
  intro tokens htokens
  exact htokens

theorem advance (frame : Frame) : Faults frame.strict text (Reader.advance frame : Reader π Lexeme) := by
  intro tokens htokens
  match tokens with
  | [] => exact htokens
  | [t] => exact htokens
  | t :: u :: rest =>
    have hrest : u :: rest ⊆ Token.scan text := fun t ht => htokens (List.mem_cons_of_mem _ ht)
    unfold Reader.advance
    dsimp only [Bind.bind, Except.bind]
    cases hguard : guardKnown (π := π) frame (u :: rest) with
    | ok => exact hrest
    | error e => exact blames_guardKnown hguard

theorem nextIs (lexeme : Lexeme) : Faults strict text (Reader.nextIs lexeme : Reader π Bool) :=
  bind peek fun _ => pure _

theorem accept (frame : Frame) (lexeme : Lexeme)
    : Faults frame.strict text (Reader.accept frame lexeme : Reader π Bool) := by
  unfold Reader.accept
  apply bind (nextIs lexeme)
  intro found
  split
  · exact bind (advance frame) fun _ => pure _
  · exact pure _

theorem take (frame : Frame) (lexeme : Lexeme) (problem : Lexeme → π)
    : Faults frame.strict text (do
        let found ← Reader.peek
        if found = lexeme then
          let _ ← Reader.advance frame
        else Reader.fail frame (problem found)) := by
  apply bind peek
  intro found
  split
  · exact bind (advance frame) fun _ => pure _
  · exact fail frame _

theorem ofNumber {s : String} (h : ∃ n : Lexeme.Numeral, String.ofList n.text = s ∧ n.text <:+: text)
    : Faults strict text (Reader.ofNumber (TypeExpr.Parser.numberLiteral s) : Reader π Literal) := by
  obtain ⟨n, rfl, hn⟩ := h
  intro tokens htokens
  cases hvalue : TypeExpr.Parser.numberLiteral (String.ofList n.text) with
  | ok value => exact htokens
  | error fault =>
    refine ⟨n, hn, ?_⟩
    intro h
    obtain ⟨value, hvalue'⟩ := (TypeExpr.Parser.numberLiteral_eq_ok_iff n).2 h
    rw [hvalue] at hvalue'
    cases hvalue'

end Faults

theorem Faults.run {frame : Frame} {r : Reader π α} (h : Faults frame.strict text r) {e : ReadError π}
    (hrun : Reader.run frame text r = .error e)
    : Blames frame.strict text e := by
  unfold Reader.run at hrun
  dsimp only [Bind.bind, Except.bind] at hrun
  split at hrun
  next hguard =>
    cases hrun
    exact blames_guardKnown hguard
  next =>
    have herror := h (Token.scan text) (List.Subset.refl _)
    change r (Token.scan text) = .error e at hrun
    rwa [hrun] at herror

end Reader

/-! ### Types -/

namespace TypeExpr

namespace Parser

open Reader

variable {α : Type} {text : List Char} (ctx : Context)

theorem faults_fail_peek {problem : Lexeme → Problem}
    : Faults ctx.strict text (do Reader.fail ctx.toFrame (problem (← peek)) : ParseM α) :=
  .bind .peek fun _ => .fail _ _

theorem faults_expect (symbol : Symbol) : Faults ctx.strict text (expect ctx symbol) :=
  .take _ _ _

theorem faults_expectKeyword (keyword : Keyword) : Faults ctx.strict text (expectKeyword ctx keyword) :=
  .take _ _ _

theorem faults_behind {symbol : Symbol} {otherwise : α} {read : ParseM α}
    (h : Faults ctx.strict text read)
    : Faults ctx.strict text (behind ctx symbol otherwise read) := by
  unfold behind
  apply Faults.bind (.accept _ _)
  intro found
  split
  · exact h
  · exact .pure _

theorem faults_continued {separator : Symbol} {item : α} {more : ParseM (List α)}
    (h : Faults ctx.strict text more)
    : Faults ctx.strict text (continued ctx separator item more) := by
  unfold continued
  apply Faults.bind (.accept _ _)
  intro found
  split
  · exact .bind h fun _ => .pure _
  · exact .pure _

theorem faults_marks (fuel : Nat) (t : TypeExpr) : Faults ctx.strict text (marks ctx fuel t) := by
  induction fuel generalizing t with
  | zero => exact .pure t
  | succ fuel ih =>
    unfold marks
    apply Faults.bind (.accept _ _)
    intro isArray
    split
    · exact ih _
    · apply Faults.bind (.accept _ _)
      intro isOptional
      split
      · exact ih _
      · exact .pure _

theorem faults_paramName : Faults ctx.strict text (paramName ctx) := by
  unfold paramName
  apply Faults.bind .peek
  intro found
  split
  · exact .bind (.advance _) fun _ => .pure _
  · exact .bind (.advance _) fun _ => .pure _
  · exact .fail _ _

theorem faults_orVararg {read : ParseM TypeExpr} (h : Faults ctx.strict text read)
    : Faults ctx.strict text (orVararg ctx read) := by
  unfold orVararg
  apply Faults.bind (.accept _ _)
  intro found
  split
  · exact .pure _
  · exact h

theorem faults_paramList {strict : Bool} {read : ParseM (List (Param TypeExpr))}
    (h : Faults strict text read)
    : Faults strict text (paramList read) := by
  unfold paramList
  apply Faults.bind (.nextIs _)
  intro found
  split
  · exact .pure _
  · exact h

structure Blameless (text : List Char) (fuel : Nat) : Prop where
  union : ∀ ctx, Faults ctx.strict text (union ctx fuel)
  members : ∀ ctx, Faults ctx.strict text (members ctx fuel)
  primary : ∀ ctx, Faults ctx.strict text (primary ctx fuel)
  arguments : ∀ ctx, Faults ctx.strict text (arguments ctx fuel)
  function : ∀ ctx isAsync, Faults ctx.strict text (function ctx isAsync fuel)
  params : ∀ ctx, Faults ctx.strict text (params ctx fuel)
  returns : ∀ ctx, Faults ctx.strict text (returns ctx fuel)
  fields : ∀ ctx, Faults ctx.strict text (fields ctx fuel)
  field : ∀ ctx, Faults ctx.strict text (field ctx fuel)

theorem blameless_zero : Blameless text 0 where
  union ctx := faults_fail_peek ctx
  members ctx := faults_fail_peek ctx
  primary ctx := faults_fail_peek ctx
  arguments ctx := faults_fail_peek ctx
  function ctx _ := faults_fail_peek ctx
  params ctx := faults_fail_peek ctx
  returns ctx := faults_fail_peek ctx
  fields ctx := faults_fail_peek ctx
  field ctx := faults_fail_peek ctx

namespace Blameless

variable {ctx} {fuel : Nat} (h : Blameless text fuel)

include h

theorem primary_succ : Faults ctx.strict text (Parser.primary ctx (fuel + 1)) := by
  unfold Parser.primary
  apply Faults.peek_bind
  intro found hfound
  split
  next name =>
    apply Faults.bind (.advance _)
    intro _
    split
    · exact .pure _
    · apply Faults.bind (.accept _ _)
      intro isGeneric
      split
      · apply Faults.bind (h.arguments ctx.inside)
        intro args
        exact .bind (faults_expect ctx _) fun _ => .pure _
      · exact .pure _
  next content => exact .bind (.advance _) fun _ => .pure _
  next s =>
    apply Faults.bind (.advance _)
    intro _
    exact .bind (.ofNumber (hfound s rfl)) fun _ => .pure _
  next => exact h.function ctx false
  next => exact .bind (.advance _) fun _ => h.function ctx true
  next =>
    apply Faults.bind (.advance _)
    intro _
    apply Faults.bind (h.fields ctx.inside)
    intro fields
    exact .bind (faults_expect ctx _) fun _ => .pure _
  next =>
    apply Faults.bind (.advance _)
    intro _
    apply Faults.bind (h.union ctx.inside)
    intro t
    exact .bind (faults_expect ctx _) fun _ => .pure _
  next => exact .fail _ _

theorem function_succ (isAsync : Bool)
    : Faults ctx.strict text (Parser.function ctx isAsync (fuel + 1)) := by
  unfold Parser.function
  apply Faults.bind (faults_expectKeyword ctx _)
  intro _
  apply Faults.bind (faults_expect ctx _)
  intro _
  apply Faults.bind (faults_paramList (h.params ctx.inside))
  intro params
  apply Faults.bind (faults_expect ctx _)
  intro _
  exact .bind (faults_behind ctx (h.returns ctx)) fun _ => .pure _

theorem params_succ : Faults ctx.strict text (Parser.params ctx (fuel + 1)) := by
  unfold Parser.params
  apply Faults.bind (faults_paramName ctx)
  intro name
  apply Faults.bind (.accept _ _)
  intro isOptional
  apply Faults.bind
  · apply faults_behind
    rw [map_eq_pure_bind]
    exact .bind (h.union ctx) fun _ => .pure _
  · exact fun _ => faults_continued ctx (h.params ctx)

theorem returns_succ : Faults ctx.strict text (Parser.returns ctx (fuel + 1)) := by
  unfold Parser.returns
  apply Faults.bind (faults_orVararg ctx (h.union ctx))
  intro t
  split
  · exact .pure _
  · exact faults_continued ctx (h.returns ctx)

theorem fields_succ : Faults ctx.strict text (Parser.fields ctx (fuel + 1)) := by
  unfold Parser.fields
  apply Faults.bind .peek
  intro next
  split
  · exact .pure _
  · exact .bind (h.field ctx) fun _ => faults_continued ctx (h.fields ctx)

theorem field_succ : Faults ctx.strict text (Parser.field ctx (fuel + 1)) := by
  unfold Parser.field
  apply Faults.bind (.accept _ _)
  intro isKeyed
  split
  · apply Faults.bind (h.union ctx)
    intro key
    apply Faults.bind (faults_expect ctx _)
    intro _
    apply Faults.bind (faults_expect ctx _)
    intro _
    exact .bind (h.union ctx) fun _ => .pure _
  · apply Faults.bind .peek
    intro found
    split
    next name =>
      apply Faults.bind (.advance _)
      intro _
      apply Faults.bind (.accept _ _)
      intro isOptional
      apply Faults.bind (faults_expect ctx _)
      intro _
      exact .bind (h.union ctx) fun _ => .pure _
    next => exact .fail _ _

end Blameless

omit ctx in
theorem blameless (text : List Char) (fuel : Nat) : Blameless text fuel := by
  induction fuel with
  | zero => exact blameless_zero
  | succ fuel h =>
    constructor
    · exact fun ctx => .bind (h.members ctx) fun _ => .pure _
    · exact fun ctx => .bind (h.primary ctx) fun _ => .bind (faults_marks ctx fuel _) fun _ =>
        faults_continued ctx (h.members ctx)
    · exact fun ctx => h.primary_succ
    · exact fun ctx => .bind (h.union ctx) fun _ => faults_continued ctx (h.arguments ctx)
    · exact fun ctx isAsync => h.function_succ isAsync
    · exact fun ctx => h.params_succ
    · exact fun ctx => h.returns_succ
    · exact fun ctx => h.fields_succ
    · exact fun ctx => h.field_succ

theorem faults_type : Faults ctx.strict text (type ctx) :=
  fun tokens => (blameless text (8 * (tokens.length + 1))).union ctx tokens

end Parser

theorem blames_of_parse {text : String} {line : Int} {e : ReadError Problem}
    (h : parse text line = .error e)
    : Reader.Blames true text.toList e := by
  unfold parse at h
  dsimp only [bind, Except.bind] at h
  split at h
  next hrun =>
    cases h
    exact (Parser.faults_type { origin := { line } }).run hrun
  next =>
    split at h
    · cases h
    · cases h
      exact .grammar

theorem blames_of_parsePrefix {text : List Char} {origin : Position} {e : ReadError Problem}
    (h : parsePrefix text origin = .error e)
    : Reader.Blames false text e := by
  unfold parsePrefix at h
  dsimp only [bind, Except.bind] at h
  split at h
  next hrun =>
    cases h
    exact (Parser.faults_type { origin, strict := false }).run hrun
  next => cases h

/-! ### Single numerals -/

open Reader

theorem Parser.primary_number {s : String} {offset offset' : Nat} (ctx : Context) (fuel : Nat)
    : primary ctx (fuel + 1) [⟨.number s, offset⟩, ⟨.endOfText, offset'⟩]
        = (literal <$> ofNumber (numberLiteral s)) [⟨.endOfText, offset'⟩] := by
  have hadvance : advance ctx.toFrame [⟨.number s, offset⟩, ⟨.endOfText, offset'⟩]
      = (.ok (.number s, [⟨.endOfText, offset'⟩]) : Except (ReadError Problem) _) := rfl
  unfold primary
  rw [bind_of_ok (x := .number s) rfl]
  dsimp only
  rw [bind_of_ok hadvance]
  rfl

theorem Parser.type_number {s : String} {offset offset' : Nat} (ctx : Context)
    : type ctx [⟨.number s, offset⟩, ⟨.endOfText, offset'⟩]
        = (literal <$> ofNumber (numberLiteral s)) [⟨.endOfText, offset'⟩] := by
  change union ctx (21 + 3) _ = _
  have hprimary := @primary_number s offset offset' ctx 21
  unfold union members
  cases hvalue : numberLiteral s with
  | error fault =>
    rw [hvalue] at hprimary
    exact bind_of_error (bind_of_error hprimary)
  | ok l =>
    rw [hvalue] at hprimary
    rw [bind_apply, bind_of_ok hprimary]
    rfl

variable (n : Lexeme.Numeral)

theorem run_numeral (ctx : Parser.Context)
    : Reader.run ctx.toFrame n.text (Parser.type ctx)
        = (literal <$> ofNumber (Parser.numberLiteral (String.ofList n.text))) [⟨.endOfText, n.text.length⟩] := by
  obtain ⟨tokens, hlexemes, hscan⟩ := (Token.scans_number n Token.breaks_nil).exists_tokens
  obtain ⟨⟨lexeme, offset⟩, rfl, hlexeme⟩ := List.map_eq_singleton_iff.1 hlexemes
  change lexeme = _ at hlexeme
  subst hlexeme
  unfold Reader.run
  rw [hscan]
  exact Parser.type_number ctx

theorem parse_numeral (line : Int)
    : parse (String.ofList n.text) line
        = ((Parser.numberLiteral (String.ofList n.text)).map literal).mapError .number := by
  have hrun := run_numeral n { origin := { line } }
  unfold parse
  dsimp only at hrun ⊢
  rw [String.toList_ofList, hrun]
  cases Parser.numberLiteral (String.ofList n.text) <;> rfl

theorem parsePrefix_numeral (origin : Position)
    : parsePrefix n.text origin
        = ((Parser.numberLiteral (String.ofList n.text)).map fun l => (literal l, [])).mapError .number := by
  have hrun := run_numeral n { origin, strict := false }
  have hrest : n.text.drop n.text.length = [] := List.drop_length
  unfold parsePrefix
  dsimp only at hrun ⊢
  rw [hrun]
  cases Parser.numberLiteral (String.ofList n.text) with
  | error fault => rfl
  | ok l =>
    change Except.ok (literal l, Text.strip (n.text.drop n.text.length)) = _
    rw [hrest]
    rfl

end TypeExpr

end LuaTypes
