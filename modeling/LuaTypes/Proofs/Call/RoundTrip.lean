import LuaTypes.Call
import LuaTypes.Proofs.TypeExpr.Reading

/-!
Calls are read back from their texts, if their arguments are `nil` and literals that can be read.
-/

namespace LuaTypes

theorem Lexeme.isName_of_scan {name : String} {tokens : List Token}
    (h : Token.scan name.toList = ⟨.name name, 0⟩ :: tokens)
    : IsName name := by
  have hknown : ∀ t ∈ Token.scan name.toList, t.Known fun _ => True :=
    Token.known_scan (fun _ _ _ => trivial) fun _ _ => trivial
  exact hknown ⟨.name name, 0⟩ (by simp [h])

namespace Call

open Reader TypeExpr

def render (c : Call) : String :=
  c.callee ++ "(" ++ Text.join ", " (c.args.map TypeExpr.render) ++ ")"

def IsNameToken (text : String) : Prop :=
  Token.scan text.toList = [⟨.name text, 0⟩, ⟨.endOfText, text.toList.length⟩]

inductive IsCallee : String → Prop where
  | function {name} : IsNameToken name → IsCallee name
  | method {owner name} : IsNameToken owner → IsNameToken name → IsCallee (owner ++ ":" ++ name)

/--
The arguments of which a call tells the value.
-/
inductive IsConstant : TypeExpr → Prop where
  | nil : IsConstant TypeExpr.nil
  | literal {value} : value.Canonical → IsConstant (.literal value)

theorem IsConstant.canonical {t : TypeExpr} (h : IsConstant t) : t.Canonical false := by
  cases h with
  | nil => exact .named ⟨@Lexeme.isName_of_scan "nil" [⟨.endOfText, 3⟩] (by rfl), by decide, by decide⟩
  | literal h => exact .literal h

namespace Parser

variable {args : List TypeExpr} {fits : Lexeme → Prop}

theorem reads_expect (s : Symbol) : Reads (expect s) [.symbol s] () (Passes frame) :=
  reads_take _ _ _

theorem reads_name (text : String) : Reads name [.name text] text (Passes frame) := by
  unfold name
  apply Reads.peek
  exact (reads_advance frame (.name text)).bind_pure fun _ => text

theorem reads_finish : Reads finish [] () (· = .endOfText) := by
  unfold finish
  apply Reads.peek_nil
  rintro _ rfl
  exact .pure ()

theorem reads_number {text : String} {value : Literal} (h : TypeExpr.Parser.numberLiteral text = .ok value)
    : Reads argument [.number text] (.literal value) (Passes frame) := by
  unfold argument
  apply Reads.peek
  dsimp only
  rw [h]
  exact (reads_advance frame (.number text)).bind_pure fun _ => TypeExpr.literal value

theorem reads_argument {t : TypeExpr} (h : IsConstant t) : Reads argument t.lexemes t (Passes frame) := by
  have hword : ∀ text t, word text = (advance >>= fun _ => pure t) →
      Reads argument [.name text] t (Passes frame) := by
    intro text t hword
    unfold argument
    apply Reads.peek
    dsimp only
    rw [hword]
    exact (reads_advance frame (.name text)).bind_pure fun _ => t
  cases h with
  | nil => exact hword "nil" TypeExpr.nil rfl
  | literal h =>
    cases h with
    | @string content =>
      unfold argument
      apply Reads.peek
      exact (reads_advance frame (.string content)).bind_pure fun _ => TypeExpr.literal (.string content)
    | integer h => exact reads_number (Literal.numberLiteral_integer h)
    | float h => exact reads_number (Literal.numberLiteral_float h)
    | boolean value =>
      cases value with
      | false => exact hword "false" (.literal (.boolean false)) rfl
      | true => exact hword "true" (.literal (.boolean true)) rfl

theorem reads_arguments {fuel : Nat} (hfuel : (separated .comma (args.map lexemes)).length ≤ fuel) (hne : args ≠ [])
    (h : ∀ t ∈ args, IsConstant t)
    : Reads (arguments fuel) (separated .comma (args.map lexemes)) args
        fun l => Passes frame l ∧ l ≠ .symbol .comma := by
  induction args generalizing fuel with
  | nil => exact absurd rfl hne
  | cons t ts ih =>
    have ht := reads_argument (h t (by simp))
    cases ts with
    | nil =>
      rw [List.map_singleton, Parser.separated_singleton] at hfuel ⊢
      have hpos := List.length_pos_iff.2 (Parser.leading_lexemes (h t (by simp)).canonical).ne_nil
      obtain ⟨fuel, rfl⟩ : ∃ n, fuel = n + 1 := ⟨fuel - 1, by omega⟩
      rw [arguments, ← List.append_nil t.lexemes]
      apply ht.bind _ fun _ hl => hl.1
      apply Reads.peek_nil
      intro l hl
      rw [if_neg hl.2]
      exact .pure [t]
    | cons u us =>
      rw [List.map_cons, List.map_cons, separated_cons_cons] at hfuel ⊢
      rw [List.length_append, List.length_cons] at hfuel
      obtain ⟨fuel, rfl⟩ : ∃ n, fuel = n + 1 := ⟨fuel - 1, by omega⟩
      have hmore := @ih fuel (by rw [List.map_cons]; omega) (by simp) fun v hv => h v (by simp [hv])
      have hleading := (Parser.leading_lexemes (h u (by simp)).canonical).separated .comma (us.map lexemes)
      rw [arguments]
      apply ht.bind
      · apply Reads.peek
        rw [if_pos rfl]
        exact Reads.advance (hmore.bind_pure (t :: ·)) fun next _ => hleading.passes frame next
      · exact fun _ _ => Parser.passes_symbol frame .comma

theorem reads_argumentList (callee : String) (h : ∀ t ∈ args, IsConstant t)
    : Reads (do
        expect .openParen
        let args ←
          if (← Reader.peek) = .symbol .closeParen then pure []
          else arguments ((← get).length + 1)
        expect .closeParen
        finish
        return { callee, args } : ParseM Call)
      (.symbol .openParen :: (separated .comma (args.map lexemes) ++ [.symbol .closeParen])) ⟨callee, args⟩
      (· = .endOfText) := by
  have hclose : Reads (do
      expect .closeParen
      finish
      return { callee, args } : ParseM Call) [.symbol .closeParen] ⟨callee, args⟩ (· = .endOfText) := by
    apply (reads_expect .closeParen).bind_cons (reads_finish.bind_pure fun _ => Call.mk callee args)
    rintro _ rfl _ _ ⟨⟩
  cases args with
  | nil =>
    apply (reads_expect .openParen).bind_cons
    · apply Reads.peek
      rw [if_pos rfl]
      exact (Reads.pure []).bind hclose fun _ _ => Parser.passes_symbol frame .closeParen
    · exact fun _ _ => Parser.passes_symbol frame .closeParen
  | cons t ts =>
    obtain ⟨l, ls, hlexemes, hl⟩ :=
      (Parser.leading_lexemes (h t (by simp)).canonical).separated .comma (ts.map lexemes)
    have hargs : ∀ fuel, (l :: ls).length ≤ fuel → Reads (arguments fuel) (l :: ls) (t :: ts)
        fun l => Passes frame l ∧ l ≠ .symbol .comma := by
      intro fuel hfuel
      rw [← hlexemes] at hfuel ⊢
      exact reads_arguments hfuel (by simp) h
    rw [List.map_cons, hlexemes]
    apply (reads_expect .openParen).bind_cons
    · apply Reads.peek
      rw [if_neg (by rintro rfl; cases hl)]
      apply Reads.get_bind
      intro tokens htokens
      have hfuel : (l :: ls).length ≤ tokens.length + 1 := by
        simp only [List.length_cons, List.append_eq, List.length_append] at htokens ⊢
        omega
      exact (hargs _ hfuel).bind hclose fun _ _ => ⟨Parser.passes_symbol frame .closeParen, by simp⟩
    · exact fun _ _ => Parser.passes_of_leads frame hl

theorem reads_call_function (name : String) (h : ∀ t ∈ args, IsConstant t)
    : Reads call ([.name name] ++ .symbol .openParen :: (separated .comma (args.map lexemes) ++ [.symbol .closeParen]))
        ⟨name, args⟩ (· = .endOfText) := by
  unfold call
  apply (reads_name name).bind
  · apply Reads.peek
    rw [if_neg (by simp)]
    exact (Reads.pure name).bind (reads_argumentList name h) fun _ _ => Parser.passes_symbol frame .openParen
  · exact fun _ _ => Parser.passes_symbol frame .openParen

theorem reads_call_method (owner name : String) (h : ∀ t ∈ args, IsConstant t)
    : Reads call ([.name owner, .symbol .colon, .name name] ++ .symbol .openParen ::
          (separated .comma (args.map lexemes) ++ [.symbol .closeParen]))
        ⟨owner ++ ":" ++ name, args⟩ (· = .endOfText) := by
  unfold call
  apply (reads_name owner).bind_cons
  · apply Reads.peek
    rw [if_pos rfl]
    apply Reads.advance
    · apply (reads_name name).bind_cons
      · exact (Reads.pure _).bind (reads_argumentList _ h) fun _ _ => Parser.passes_symbol frame .openParen
      · exact fun _ _ => Parser.passes_symbol frame .openParen
    · rintro _ _ _ _ ⟨⟩
  · exact fun _ _ => Parser.passes_symbol frame .colon

end Parser

theorem IsCallee.exists_lexemes {callee : String} (h : IsCallee callee) {args : List TypeExpr}
    (hargs : ∀ t ∈ args, IsConstant t)
    : ∃ lexemes, ScansAs callee lexemes ∧ Parser.Leading lexemes ∧
        Reads Call.Parser.call (lexemes ++
          .symbol .openParen :: (separated .comma (args.map TypeExpr.lexemes) ++ [.symbol .closeParen]))
          ⟨callee, args⟩ (· = .endOfText) := by
  cases h with
  | function h =>
    exact ⟨_, scansAs_name (Lexeme.isName_of_scan h), ⟨_, _, rfl, rfl⟩, Parser.reads_call_function _ hargs⟩
  | @method owner name howner hname =>
    have hmethod := (scansAs_name (Lexeme.isName_of_scan hname)).symbol (s := .colon) (by decide)
    have hscan := (scansAs_name (Lexeme.isName_of_scan howner)).append hmethod (parts_symbol (by decide) name)
    rw [← String.append_assoc] at hscan
    exact ⟨_, hscan, ⟨_, _, rfl, rfl⟩, Parser.reads_call_method owner name hargs⟩

/--
A call whose arguments are constants is what its text is read as.
-/
theorem parse_render_constants {c : Call} (hcallee : IsCallee c.callee) (hargs : ∀ t ∈ c.args, IsConstant t)
    : parse c.render = .ok c := by
  obtain ⟨lexemes, hscan, hleading, hread⟩ := hcallee.exists_lexemes hargs
  have hlist := scansAs_commas fun t ht => (hargs t ht).canonical.scansAs_render
  have hclosed := hlist.append (ScansAs.closing (s := .closeParen) (by decide))
    (parts_symbol (s := .closeParen) (by decide) "")
  have hcall := hscan.append (hclosed.symbol (s := .openParen) (by decide)) (parts_symbol (by decide) _)
  have htext : c.render = c.callee ++ (Symbol.openParen.text ++
      (Text.join ", " (c.args.map TypeExpr.render) ++ Symbol.closeParen.text)) := by
    rw [render, String.append_assoc, String.append_assoc]
    rfl
  rw [← htext] at hcall
  obtain ⟨tokens, hlexemes, htokens⟩ := (hcall [] Token.breaks_nil).exists_tokens
  have hguard : guardKnown (π := Problem) Parser.frame (tokens ++ [⟨.endOfText, c.render.toList.length⟩]) = .ok () := by
    apply guardKnown_of_passes
    rw [lexeme_first_append hlexemes]
    exact (hleading.append _).passes _ _
  have hrun := hread tokens [⟨.endOfText, c.render.toList.length⟩] hlexemes (by simp) rfl
  unfold parse Reader.run StateT.run
  rw [htokens]
  dsimp only
  rw [hguard]
  dsimp only [bind, Except.bind]
  rw [hrun]
  rfl

def dropCall : Call where
  callee := "turtle:drop"
  args := [.literal (.string "\"\n\\"), .literal (.integer (-12)), .literal (.float 0.5), .literal (.boolean true),
    TypeExpr.nil]

theorem parse_render_constants_drop
    : IsCallee dropCall.callee ∧ (∀ t ∈ dropCall.args, IsConstant t) ∧ parse dropCall.render = .ok dropCall := by
  have hcallee : IsCallee dropCall.callee := @IsCallee.method "turtle" "drop" (by rfl) (by rfl)
  have hargs : ∀ t ∈ dropCall.args, IsConstant t := by
    simp only [dropCall, List.forall_mem_cons, List.not_mem_nil, false_implies, implies_true, and_true]
    refine ⟨.literal (.string ?_), .literal (.integer ?_), .literal (.float ⟨?_, ?_⟩), .literal (.boolean true), .nil⟩
    · simp [Literal.IsReadable]
    · decide
    · decide +kernel
    · decide +kernel
  exact ⟨hcallee, hargs, parse_render_constants hcallee hargs⟩

end Call

end LuaTypes
