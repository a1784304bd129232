import LuaTypes.Proofs.TypeExpr.Reading

/-!
Round trip of types: a canonical type is what is read from its text, whatever stands behind it that cannot
go on with it.
-/

namespace LuaTypes.TypeExpr

open Reader

namespace Parser

variable {ctx : Context} {fuel : Nat} {t : TypeExpr} {lexemes : List Lexeme}

def Follows (ctx : Context) (l : Lexeme) : Prop :=
  Passes ctx.toFrame l ∧ l ≠ .symbol .openAngle

/-! ### Types without marks -/

theorem reads_expect_pure {α : Type} (ctx : Context) (s : Symbol) (x : α)
    : Reads (do expect ctx s; return x) [.symbol s] x (Passes ctx.toFrame) :=
  (reads_expect ctx s).bind (.pure x) fun _ hl => hl

theorem reads_name (name : String)
    : Reads (primary ctx (fuel + 1)) [.name name] (ofName name) (Follows ctx) := by
  unfold primary
  apply Reads.peek
  apply Reads.advance _ fun _ hl => hl.1
  split
  next => exact .pure _
  next =>
    apply Reads.accept_of_ne _ fun _ hl => hl.2
    rw [if_neg (by simp)]
    exact .pure _

theorem reads_named {name : String} (h : IsTypeName name)
    : Reads (primary ctx (fuel + 1)) [.name name] (.named name) (Follows ctx) := by
  have hname : ofName name = .named name := by rw [ofName, if_neg h.ne_true, if_neg h.ne_false]
  rw [← hname]
  exact reads_name name

theorem reads_string (content : String)
    : Reads (primary ctx (fuel + 1)) [.string content] (.literal (.string content)) (Follows ctx) := by
  unfold primary
  apply Reads.peek
  exact .advance (.pure _) fun _ hl => hl.1

theorem reads_number {text : String} {value : Literal} (h : numberLiteral text = .ok value)
    : Reads (primary ctx (fuel + 1)) [.number text] (.literal value) (Follows ctx) := by
  unfold primary
  apply Reads.peek
  apply Reads.advance _ fun _ hl => hl.1
  rw [h]
  exact .pure _

theorem reads_literal {value : Literal} (h : value.Canonical)
    : Reads (primary ctx (fuel + 1)) [value.lexeme] (.literal value) (Follows ctx) := by
  cases h with
  | string => exact reads_string _
  | integer h => exact reads_number (Literal.numberLiteral_integer h)
  | float h => exact reads_number (Literal.numberLiteral_float h)
  | boolean value => cases value <;> exact reads_name _

theorem reads_closed {α : Type} (ctx : Context) {read : ParseM α} {x : α} {fits : Lexeme → Prop} {s : Symbol}
    {f : α → TypeExpr}
    (h : Reads read lexemes x fits) (hs : fits (.symbol s))
    : Reads (do let x ← read; expect ctx s; return f x) (lexemes ++ [.symbol s]) (f x) (Passes ctx.toFrame) :=
  h.bind (reads_expect_pure ctx s (f x)) fun _ _ => hs

theorem reads_generic {name : String} {args : List TypeExpr} {fits : Lexeme → Prop} (htrue : name ≠ "true")
    (hfalse : name ≠ "false") (hargs : Reads (arguments ctx.inside fuel) lexemes args fits)
    (hfits : fits (.symbol .closeAngle)) (hlead : Leading lexemes)
    : Reads (primary ctx (fuel + 1)) (.name name :: .symbol .openAngle :: (lexemes ++ [.symbol .closeAngle]))
        (.generic name args) (Follows ctx) := by
  have hclosed := reads_closed ctx (s := .closeAngle) (f := .generic name) hargs hfits
  unfold primary
  apply Reads.peek
  apply Reads.advance _ fun _ _ => passes_symbol _ _
  rw [if_neg (by simp [htrue, hfalse])]
  apply Reads.accept _ fun _ _ => (hlead.append _).passes _ _
  exact hclosed.mono fun _ hl => hl.1

theorem reads_parens {fits : Lexeme → Prop} (h : Reads (union ctx.inside fuel) lexemes t fits)
    (hfits : fits (.symbol .closeParen)) (hlead : Leading lexemes)
    : Reads (primary ctx (fuel + 1)) (grouped true lexemes) t (Follows ctx) := by
  have hclosed := reads_closed ctx (s := .closeParen) (f := id) h hfits
  unfold primary
  apply Reads.peek
  apply Reads.advance _ fun _ _ => (hlead.append _).passes _ _
  exact hclosed.mono fun _ hl => hl.1

theorem reads_table {fs : List (Field TypeExpr)}
    (h : Reads (fields ctx.inside fuel) lexemes fs (· = .symbol .closeBrace))
    (hlead : ∀ l, Passes ctx.toFrame ((lexemes ++ [Lexeme.symbol .closeBrace]).headD l))
    : Reads (primary ctx (fuel + 1)) (.symbol .openBrace :: (lexemes ++ [.symbol .closeBrace]))
        (.table fs) (Follows ctx) := by
  have hclosed := reads_closed ctx (s := .closeBrace) (f := .table) h rfl
  unfold primary
  apply Reads.peek
  apply Reads.advance _ fun _ _ => hlead _
  exact hclosed.mono fun _ hl => hl.1

/-! ### Lists of types -/

def ReadsAsType (t : TypeExpr) : Prop :=
  ∀ (ctx : Context) (fuel : Nat), t.Canonical (! ctx.nested) → 8 * t.lexemes.length ≤ fuel →
    Reads (union ctx fuel) t.lexemes t (Ends ctx t)

def ReadsAsMarked (t : TypeExpr) : Prop :=
  ∀ (ctx : Context) (fuel : Nat), t.Canonical false → t.needsParens = false → 8 * t.lexemes.length ≤ fuel + 2 →
    ReadsMarked ctx fuel t.lexemes t

theorem length_lexemes_pos {root : Bool} (hcanonical : t.Canonical root) : 0 < t.lexemes.length := by
  obtain ⟨l, ls, heq, -⟩ := leading_lexemes hcanonical
  rw [heq, List.length_cons]
  omega

theorem ReadsAsType.inside (h : ReadsAsType t) (hcanonical : t.Canonical false) (ctx : Context)
    (hfuel : 8 * t.lexemes.length ≤ fuel)
    : Reads (union ctx.inside fuel) t.lexemes t (Closes ctx.inside) :=
  (h ctx.inside fuel hcanonical hfuel).mono fun _ hl => hl.ends_inside t

theorem Leading.exists_item (hlead : Leading lexemes) : ∃ l ls, lexemes = l :: ls ∧ leadsItem l = true := by
  obtain ⟨l, ls, rfl, hl⟩ := hlead
  refine ⟨l, ls, rfl, ?_⟩
  unfold leadsItem
  split <;> first | rfl | exact hl

theorem reads_arguments {args : List TypeExpr} (hne : args ≠ []) (hcanonical : ∀ t ∈ args, t.Canonical false)
    (h : ∀ t ∈ args, ReadsAsType t)
    (hfuel : 8 * (separated .comma (args.map TypeExpr.lexemes)).length + 1 ≤ fuel)
    : Reads (arguments ctx.inside fuel) (separated .comma (args.map TypeExpr.lexemes)) args
        fun l => Closes ctx.inside l ∧ l ≠ .symbol .comma := by
  apply reads_separated ctx.inside 0 (arguments ctx.inside) (union ctx.inside) (by omega) _
    (closes_symbol _ (by decide)) hne _ hfuel
  · intro fuel tokens _
    rw [arguments]
  · intro t ht
    exact ⟨(leading_lexemes (hcanonical t ht)).exists_item,
      fun fuel hfuel => (h t ht).inside (hcanonical t ht) ctx hfuel⟩

/-! ### Parameters -/

theorem reads_paramName_name (name : String)
    : Reads (Parser.paramName ctx) [.name name] name (Passes ctx.toFrame) := by
  unfold Parser.paramName
  apply Reads.peek
  exact .advance (.pure _) fun _ hl => hl

theorem reads_paramName_ellipsis
    : Reads (Parser.paramName ctx) [.symbol .ellipsis] Symbol.ellipsis.text (Passes ctx.toFrame) := by
  unfold Parser.paramName
  apply Reads.peek
  exact .advance (.pure _) fun _ hl => hl

theorem reads_paramName (name : String)
    : Reads (Parser.paramName ctx) [TypeExpr.paramName name] name (Passes ctx.toFrame) := by
  unfold TypeExpr.paramName
  split
  next hname =>
    rw [hname]
    exact reads_paramName_ellipsis
  next => exact reads_paramName_name name

theorem reads_optional (isOptional : Bool)
    : Reads (accept ctx .question) (optionalLexemes isOptional) isOptional
        fun l => Passes ctx.toFrame l ∧ l ≠ .symbol .question := by
  cases isOptional with
  | false => exact (reads_accept_of_ne ctx.toFrame _).mono fun _ hl => hl.2
  | true => exact (reads_accept ctx.toFrame _).mono fun _ hl => hl.1

theorem reads_typing (ctx : Context) {type : Option TypeExpr} (hcanonical : ∀ t, type = some t → t.Canonical false)
    (h : ∀ t, type = some t → ReadsAsType t) (hfuel : 8 * (typingLexemes type).length ≤ fuel)
    : Reads (behind ctx.inside .colon none (some <$> union ctx.inside fuel)) (typingLexemes type) type
        (Closes ctx.inside) := by
  cases type with
  | none => exact reads_behind_of_ne.mono fun _ hl => hl.ne_colon
  | some t =>
    rw [typingLexemes, List.length_cons] at hfuel
    apply reads_behind ((h t rfl).inside (hcanonical t rfl) ctx (by omega)).map
    exact fun l _ => (leading_lexemes (hcanonical t rfl)).passes _ l

theorem passes_headD_typing (type : Option TypeExpr) {l : Lexeme} (hl : Closes ctx l)
    : Passes ctx.toFrame ((typingLexemes type).headD l) ∧ (typingLexemes type).headD l ≠ .symbol .question := by
  cases type with
  | none => exact ⟨hl.passes, hl.ne_question⟩
  | some t => exact ⟨passes_symbol _ _, by simp [typingLexemes]⟩

theorem passes_headD_optional (isOptional : Bool) {l : Lexeme} (hl : Passes ctx.toFrame l)
    : Passes ctx.toFrame ((optionalLexemes isOptional).headD l) := by
  cases isOptional with
  | false => exact hl
  | true => exact passes_symbol _ _

theorem headD_append (lexemes lexemes' : List Lexeme) (l : Lexeme)
    : (lexemes ++ lexemes').headD l = lexemes.headD (lexemes'.headD l) := by
  cases lexemes <;> rfl

def param (ctx : Context) (fuel : Nat) : ParseM (Param TypeExpr) := do
  let name ← Parser.paramName ctx
  let optional ← accept ctx .question
  let type ← behind ctx .colon none (some <$> union ctx fuel)
  return { name, type, optional }

theorem reads_param {p : Param TypeExpr}
    (hcanonical : ∀ t, p.type = some t → t.Canonical false) (h : ∀ t, p.type = some t → ReadsAsType t)
    (hfuel : 8 * p.lexemes.length ≤ fuel)
    : Reads (param ctx.inside fuel) p.lexemes p (Closes ctx.inside) := by
  rw [Param.lexemes, List.length_cons, List.length_append] at hfuel
  apply (reads_paramName p.name).bind_cons
  · apply (reads_optional p.optional).bind
    · exact (reads_typing ctx hcanonical h (by omega)).bind_pure _
    · exact fun l hl => passes_headD_typing p.type hl
  · intro l hl
    rw [headD_append]
    exact passes_headD_optional p.optional (passes_headD_typing p.type hl).1

theorem reads_params (ctx : Context) {ps : List (Param TypeExpr)} (hne : ps ≠ [])
    (hcanonical : ∀ p ∈ ps, ∀ t, p.type = some t → t.Canonical false)
    (h : ∀ p ∈ ps, ∀ t, p.type = some t → ReadsAsType t)
    (hfuel : 8 * (separated .comma (ps.map Param.lexemes)).length + 1 ≤ fuel)
    : Reads (params ctx.inside fuel) (separated .comma (ps.map Param.lexemes)) ps
        fun l => Closes ctx.inside l ∧ l ≠ .symbol .comma := by
  apply reads_separated ctx.inside 0 (params ctx.inside) (param ctx.inside) (by omega) _
    (closes_symbol _ (by decide)) hne _ hfuel
  · intro fuel tokens _
    simp only [params, param, bind_assoc, pure_bind]
  · intro p hp
    refine ⟨⟨_, _, rfl, ?_⟩, fun fuel hfuel => reads_param (hcanonical p hp) (h p hp) hfuel⟩
    unfold TypeExpr.paramName
    split <;> rfl

/-! ### Fields -/

theorem reads_typed {α : Type} (f : TypeExpr → α) {fits : Lexeme → Prop}
    (h : Reads (union ctx fuel) lexemes t fits) (hlead : Leading lexemes)
    : Reads (do expect ctx .colon; let t ← union ctx fuel; return f t) (.symbol .colon :: lexemes) (f t) fits :=
  (reads_expect ctx .colon).bind (h.bind_pure f) fun l _ => hlead.passes _ l

theorem reads_field_keyed {key : TypeExpr} {keyLexemes : List Lexeme} {fits fits' : Lexeme → Prop}
    (hkey : Reads (union ctx fuel) keyLexemes key fits) (hbracket : fits (.symbol .closeBracket))
    (h : Reads (union ctx fuel) lexemes t fits') (hkeyLead : Leading keyLexemes) (hlead : Leading lexemes)
    : Reads (field ctx (fuel + 1))
        (.symbol .openBracket :: (keyLexemes ++ (.symbol .closeBracket :: .symbol .colon :: lexemes)))
        { key := some key, type := t } fits' := by
  unfold field
  apply Reads.accept _ fun l _ => (hkeyLead.append _).passes _ _
  rw [if_pos rfl]
  apply hkey.bind
  · apply (reads_expect ctx .closeBracket).bind_cons _ fun _ _ => passes_symbol _ _
    exact reads_typed _ h hlead
  · exact fun _ _ => hbracket

theorem reads_field_named (name : String) (isOptional : Bool) {fits : Lexeme → Prop}
    (h : Reads (union ctx fuel) lexemes t fits) (hlead : Leading lexemes)
    : Reads (field ctx (fuel + 1)) (.name name :: (optionalLexemes isOptional ++ .symbol .colon :: lexemes))
        { name := some name, type := t, optional := isOptional } fits := by
  unfold field
  apply Reads.accept_of_ne _ (by simp)
  rw [if_neg (by simp)]
  apply Reads.peek
  apply Reads.advance
  · apply (reads_optional isOptional).bind
    · exact reads_typed _ h hlead
    · exact fun _ _ => ⟨passes_symbol _ _, by simp⟩
  · intro l _
    rw [headD_append]
    exact passes_headD_optional isOptional (passes_symbol _ _)

theorem reads_field {f : Field TypeExpr} (hkeyed : f.IsKeyed)
    (hkey : ∀ t, f.key = some t → t.Canonical false ∧ ReadsAsType t) (hcanonical : f.type.Canonical false)
    (h : ReadsAsType f.type) (hfuel : 8 * f.lexemes.length ≤ fuel)
    : Reads (field ctx.inside fuel) f.lexemes f (Closes ctx.inside) := by
  rw [Field.lexemes, List.length_append, List.length_cons] at hfuel
  obtain ⟨fuel, rfl⟩ : ∃ n, fuel = n + 1 := ⟨fuel - 1, by omega⟩
  have htype := h.inside hcanonical ctx (by omega : _ ≤ fuel)
  cases hkeyed with
  | key key type =>
    obtain ⟨hkeyCanonical, hkey⟩ := hkey key rfl
    simp only [keyLexemes, List.length_cons, List.length_append] at hfuel
    rw [Field.lexemes, keyLexemes, List.cons_append, List.append_assoc]
    exact reads_field_keyed (hkey.inside hkeyCanonical ctx (by omega)) (closes_symbol _ (by decide)) htype
      (leading_lexemes hkeyCanonical) (leading_lexemes hcanonical)
  | name type isOptional hname =>
    rw [Field.lexemes, keyLexemes, Option.getD_some, List.cons_append]
    exact reads_field_named _ isOptional htype (leading_lexemes hcanonical)

theorem exists_item_field {f : Field TypeExpr} (hkeyed : f.IsKeyed)
    : ∃ l ls, f.lexemes = l :: ls ∧ leadsItem l = true := by
  cases hkeyed with
  | key => exact ⟨_, _, rfl, rfl⟩
  | name => exact ⟨_, _, rfl, rfl⟩

theorem fields_succ {tokens : List Token} (h : leadsItem (first tokens).lexeme = true)
    : fields ctx (fuel + 1) tokens
        = (field ctx fuel >>= fun f => continued ctx .comma f (fields ctx fuel)) tokens := by
  have hne : ¬ ((first tokens).lexeme = .symbol .closeBrace ∨ (first tokens).lexeme = .endOfText) := by
    rintro (heq | heq)
    all_goals
      rw [heq] at h
      cases h
  rw [fields]
  change (if (first tokens).lexeme = .symbol .closeBrace ∨ (first tokens).lexeme = .endOfText then _ else _
    : ParseM _) tokens = _
  rw [if_neg hne]

theorem reads_fields_nil : Reads (fields ctx (fuel + 1)) [] [] (· = .symbol .closeBrace) := by
  intro tokens rest htokens _ hnext
  rw [List.map_eq_nil_iff] at htokens
  rw [htokens, List.nil_append, fields]
  change (if (first rest).lexeme = .symbol .closeBrace ∨ (first rest).lexeme = .endOfText then _ else _
    : ParseM _) rest = _
  rw [if_pos (.inl hnext)]
  rfl

theorem reads_fields {fs : List (Field TypeExpr)} (hkeyed : ∀ f ∈ fs, f.IsKeyed)
    (hkeys : ∀ f ∈ fs, ∀ t, f.key = some t → t.Canonical false ∧ ReadsAsType t)
    (hcanonical : ∀ f ∈ fs, f.type.Canonical false) (h : ∀ f ∈ fs, ReadsAsType f.type)
    (hfuel : 8 * (separated .comma (fs.map Field.lexemes)).length + 1 ≤ fuel)
    : Reads (fields ctx.inside fuel) (separated .comma (fs.map Field.lexemes)) fs (· = .symbol .closeBrace) := by
  by_cases hne : fs = []
  · obtain ⟨fuel, rfl⟩ : ∃ n, fuel = n + 1 := ⟨fuel - 1, by omega⟩
    rw [hne, List.map_nil, separated, List.intercalate_nil]
    exact reads_fields_nil
  apply (reads_separated ctx.inside 0 (fields ctx.inside) (field ctx.inside) (by omega) (fun _ _ => fields_succ)
    (closes_symbol ctx.inside (by decide)) hne _ hfuel).mono
  · rintro _ rfl
    exact ⟨closes_symbol _ (by decide), by simp⟩
  · intro f hf
    exact ⟨exists_item_field (hkeyed f hf),
      fun fuel hfuel => reads_field (hkeyed f hf) (hkeys f hf) (hcanonical f hf) (h f hf) hfuel⟩

/-! ### Operands -/

theorem reads_grouped {wrap : Bool} (hcanonical : t.Canonical false) (h : ReadsAsType t) (hmarked : ReadsAsMarked t)
    (hwrap : wrap = false → t.needsParens = false) (ctx : Context)
    (hfuel : 8 * (grouped wrap t.lexemes).length ≤ fuel + 2)
    : ReadsMarked ctx fuel (grouped wrap t.lexemes) t := by
  cases wrap with
  | false => exact hmarked ctx fuel hcanonical (hwrap rfl) hfuel
  | true =>
    simp only [grouped, if_true, List.length_cons, List.length_append] at hfuel
    obtain ⟨fuel, rfl⟩ : ∃ n, fuel = n + 1 := ⟨fuel - 1, by omega⟩
    exact .of_reads (reads_parens (h.inside hcanonical ctx (by omega)) (closes_symbol _ (by decide))
      (leading_lexemes hcanonical))

theorem needsParens_eq (t : TypeExpr) : t.needsParens = (t.isFunction || t.isUnion) := by
  cases t <;> rfl

theorem length_lexemes_le_grouped (wrap : Bool) (t : TypeExpr)
    : t.lexemes.length ≤ (grouped wrap t.lexemes).length := by
  unfold grouped
  split
  · simp only [List.length_cons, List.length_append]
    omega
  · exact Nat.le_refl _

theorem reads_operand (hcanonical : t.Canonical false) (h : ReadsAsType t) (ctx : Context)
    (hfuel : 8 * (operand t).length ≤ fuel)
    : Reads (union ctx fuel) (operand t) t (Closes ctx) := by
  unfold operand at hfuel ⊢
  cases hfunction : t.isFunction with
  | false =>
    rw [hfunction] at hfuel
    apply (h ctx fuel hcanonical.root hfuel).mono
    exact fun l hl => ⟨hl, by simp [hfunction]⟩
  | true =>
    simp only [hfunction, grouped, if_true, List.length_cons, List.length_append] at hfuel
    obtain ⟨fuel, rfl⟩ : ∃ n, fuel = n + 3 := ⟨fuel - 3, by omega⟩
    have hparens := reads_parens (h.inside hcanonical ctx (by omega : _ ≤ fuel)) (closes_symbol _ (by decide))
      (leading_lexemes hcanonical)
    apply (ReadsMarked.of_reads hparens).reads_union
    simp only [grouped, if_true, List.length_cons, List.length_append]
    omega

theorem reads_members (ctx : Context) {ts : List TypeExpr} (hne : ts ≠ []) (hcanonical : ∀ t ∈ ts, t.Canonical false)
    (hunion : ∀ t ∈ ts, t.isUnion = false) (h : ∀ t ∈ ts, ReadsAsType t ∧ ReadsAsMarked t)
    (hfuel : 8 * (separated .pipe (ts.map operand)).length ≤ fuel + 1)
    : Reads (members ctx fuel) (separated .pipe (ts.map operand)) ts
        fun l => Marked ctx l ∧ l ≠ .symbol .pipe := by
  apply reads_separated ctx 2 (members ctx) (fun fuel => primary ctx fuel >>= marks ctx fuel) (by omega) _
    ⟨passes_symbol _ _, by simp, by simp, by simp⟩ hne _ (by omega)
  · intro fuel tokens _
    rw [members_succ]
  · intro t ht
    refine ⟨((leading_lexemes (hcanonical t ht)).grouped _).exists_item, ?_⟩
    intro fuel hfuel
    have hparens : t.isFunction = false → t.needsParens = false := by
      intro hfunction
      rw [needsParens_eq, hfunction, hunion t ht, Bool.or_self]
    have hpos := length_lexemes_pos (hcanonical t ht)
    have hle := length_lexemes_le_grouped t.isFunction t
    apply (reads_grouped (hcanonical t ht) (h t ht).1 (h t ht).2 hparens ctx hfuel).reads
    change 8 * (grouped t.isFunction t.lexemes).length ≤ _ at hfuel
    omega

/-! ### Returned types -/

theorem reads_orVararg (hcanonical : t ≠ .vararg → t.Canonical false) (h : t ≠ .vararg → ReadsAsType t)
    (ctx : Context) (hfuel : 8 * (operand t).length ≤ fuel)
    : Reads (orVararg ctx (union ctx fuel)) (operand t) t (Closes ctx) := by
  unfold orVararg
  by_cases hvararg : t = .vararg
  · rw [hvararg]
    apply Reads.accept _ fun _ hl => hl.passes
    rw [if_pos rfl]
    exact .pure _
  · obtain ⟨l, ls, heq, hl⟩ := (leading_lexemes (hcanonical hvararg)).grouped t.isFunction
    apply Reads.accept_of_ne
    · rw [if_neg (by simp)]
      exact reads_operand (hcanonical hvararg) (h hvararg) ctx hfuel
    · intro next _
      rw [operand, heq, List.headD_cons]
      rintro rfl
      cases hl

theorem exists_item_operand (hcanonical : t ≠ .vararg → t.Canonical false)
    : ∃ l ls, operand t = l :: ls ∧ leadsItem l = true := by
  by_cases hvararg : t = .vararg
  · rw [hvararg]
    exact ⟨_, _, rfl, rfl⟩
  · exact ((leading_lexemes (hcanonical hvararg)).grouped _).exists_item

theorem reads_returns {ts : List TypeExpr} (hne : ts ≠ []) (hcanonical : ∀ t ∈ ts, t ≠ .vararg → t.Canonical false)
    (h : ∀ t ∈ ts, t ≠ .vararg → ReadsAsType t) (hlength : ctx.nested = true → ts.length ≤ 1)
    (hfuel : 8 * (separated .comma (ts.map operand)).length + 1 ≤ fuel)
    : Reads (returns ctx fuel) (separated .comma (ts.map operand)) ts
        fun l => Closes ctx l ∧ (ctx.nested = false → l ≠ .symbol .comma) := by
  cases hnested : ctx.nested with
  | false =>
    refine (reads_separated ctx 0 (returns ctx) (fun fuel => orVararg ctx (union ctx fuel)) (by omega) ?_
      (closes_symbol ctx (by decide)) hne ?_ hfuel).mono fun l hl => ⟨hl.1, hl.2 rfl⟩
    · intro fuel tokens _
      rw [returns]
      simp only [hnested, Bool.false_eq_true, if_false]
    · exact fun t ht => ⟨exists_item_operand (hcanonical t ht),
        fun fuel hfuel => reads_orVararg (hcanonical t ht) (h t ht) ctx hfuel⟩
  | true =>
    obtain ⟨t, rfl⟩ : ∃ t, ts = [t] := by
      have := hlength hnested
      have := List.length_pos_iff.2 hne
      exact List.length_eq_one_iff.1 (by omega)
    rw [List.map_singleton, separated_singleton] at hfuel ⊢
    obtain ⟨fuel, rfl⟩ : ∃ n, fuel = n + 1 := ⟨fuel - 1, by omega⟩
    rw [returns]
    simp only [hnested, if_true]
    apply Reads.mono _ fun l (hl : Closes ctx l ∧ _) => hl.1
    exact (reads_orVararg (hcanonical t (by simp)) (h t (by simp)) ctx (by omega)).bind_pure _

/-! ### Functions -/

theorem exists_separated_eq_cons {item : List Lexeme} {l : Lexeme} (h : item = l :: lexemes) (separator : Symbol)
    (items : List (List Lexeme))
    : ∃ ls, separated separator (item :: items) = l :: ls := by
  rw [h]
  cases items with
  | nil => exact ⟨lexemes, separated_singleton _ _⟩
  | cons item' items => exact ⟨_, separated_cons_cons _ _ _ _⟩

theorem paramList_apply (read : ParseM (List (Param TypeExpr))) (tokens : List Token)
    : paramList read tokens
        = if (first tokens).lexeme = .symbol .closeParen then .ok ([], tokens) else read tokens := by
  change (if decide ((first tokens).lexeme = .symbol .closeParen) = true then _ else _ : ParseM _) tokens = _
  by_cases hclose : (first tokens).lexeme = .symbol .closeParen
  · rw [if_pos (by simpa using hclose), if_pos hclose]
    rfl
  · rw [if_neg (by simpa using hclose), if_neg hclose]

theorem reads_paramList_nil (read : ParseM (List (Param TypeExpr)))
    : Reads (paramList read) [] [] (· = .symbol .closeParen) := by
  intro tokens rest htokens _ hclose
  rw [List.map_eq_nil_iff] at htokens
  rw [htokens, List.nil_append, paramList_apply, if_pos hclose]

theorem reads_paramList_cons {read : ParseM (List (Param TypeExpr))} {ps : List (Param TypeExpr)} {l : Lexeme}
    {fits : Lexeme → Prop} (h : Reads read (l :: lexemes) ps fits) (hl : l ≠ .symbol .closeParen)
    : Reads (paramList read) (l :: lexemes) ps fits := by
  apply h.congr_of_first
  intro tokens hfirst
  rw [paramList_apply, if_neg (by rwa [hfirst])]

theorem reads_paramList (ctx : Context) {ps : List (Param TypeExpr)}
    (hcanonical : ∀ p ∈ ps, ∀ t, p.type = some t → t.Canonical false)
    (h : ∀ p ∈ ps, ∀ t, p.type = some t → ReadsAsType t)
    (hfuel : 8 * (separated .comma (ps.map Param.lexemes)).length + 1 ≤ fuel)
    : Reads (paramList (params ctx.inside fuel)) (separated .comma (ps.map Param.lexemes)) ps
        (· = .symbol .closeParen) := by
  cases ps with
  | nil =>
    rw [List.map_nil, separated, List.intercalate_nil]
    exact reads_paramList_nil _
  | cons p ps =>
    have hread := reads_params ctx (by simp) hcanonical h hfuel
    obtain ⟨ls, hls⟩ := exists_separated_eq_cons (rfl : p.lexemes = _) .comma (ps.map Param.lexemes)
    rw [List.map_cons, hls] at hread ⊢
    apply (reads_paramList_cons hread (by rw [TypeExpr.paramName]; split <;> simp)).mono
    rintro _ rfl
    exact ⟨closes_symbol _ (by decide), by simp⟩

theorem passes_headD_separated (frame : Frame) {items : List (List Lexeme)} (hne : items ≠ [])
    (h : ∀ item ∈ items, ∃ l ls, item = l :: ls ∧ leadsItem l = true) (separator : Symbol) (next : Lexeme)
    : Passes frame ((separated separator items).headD next) := by
  obtain ⟨item, items, rfl⟩ := List.exists_cons_of_ne_nil hne
  obtain ⟨l, ls, hitem, hl⟩ := h item (by simp)
  exact passes_separated hitem hl frame separator items next

def resultLexemes (ts : List TypeExpr) : List Lexeme :=
  if ts.isEmpty then [] else .symbol .colon :: separated .comma (ts.map operand)

theorem reads_results {ts : List TypeExpr} (h : ∀ t ∈ ts, t ≠ .vararg → t.Canonical false ∧ ReadsAsType t)
    (hlength : ctx.nested = true → ts.length ≤ 1) (hfuel : 8 * (resultLexemes ts).length ≤ fuel + 4)
    : Reads (behind ctx .colon [] (returns ctx fuel)) (resultLexemes ts) ts
        fun l => Closes ctx l ∧ (ctx.nested = false → l ≠ .symbol .comma) := by
  cases ts with
  | nil => exact reads_behind_of_ne.mono fun _ hl => hl.1.ne_colon
  | cons t ts =>
    have hitems : ∀ item ∈ (t :: ts).map operand, ∃ l ls, item = l :: ls ∧ leadsItem l = true := by
      intro item hitem
      obtain ⟨u, hu, rfl⟩ := List.mem_map.1 hitem
      exact exists_item_operand fun hne => (h u hu hne).1
    change 8 * (separated .comma ((t :: ts).map operand)).length + 8 ≤ _ at hfuel
    apply reads_behind
    · exact reads_returns (by simp) (fun u hu hne => (h u hu hne).1) (fun u hu hne => (h u hu hne).2) hlength
        (by omega)
    · exact fun l _ => passes_headD_separated _ (by simp) hitems _ l

theorem lexemes_function (ps : List (Param TypeExpr)) (ts : List TypeExpr) (isAsync : Bool)
    : (TypeExpr.function ps ts isAsync).lexemes
        = (if isAsync then [Lexeme.keyword .async] else []) ++ (.keyword .function :: .symbol .openParen ::
          (separated .comma (ps.map Param.lexemes) ++ (.symbol .closeParen :: resultLexemes ts))) := by
  rw [TypeExpr.lexemes, paramLexemes_eq, operandLexemes_eq]
  rfl

theorem reads_function_of_parts {ps : List (Param TypeExpr)} {ts : List TypeExpr} {between results : List Lexeme}
    {fits : Lexeme → Prop} (isAsync : Bool)
    (hparams : Reads (paramList (params ctx.inside fuel)) between ps (· = .symbol .closeParen))
    (hresults : Reads (behind ctx .colon [] (returns ctx fuel)) results ts fits)
    (hpasses : Passes ctx.toFrame (between.headD (.symbol .closeParen)))
    (hfits : ∀ l, fits l → Passes ctx.toFrame (results.headD l))
    : Reads (function ctx isAsync (fuel + 1))
        (.keyword .function :: .symbol .openParen :: (between ++ (.symbol .closeParen :: results)))
        (.function ps ts isAsync) fits := by
  unfold function
  apply (reads_expectKeyword ctx .function).bind_cons _ fun _ _ => passes_symbol _ _
  apply (reads_expect ctx .openParen).bind_cons
  · apply hparams.bind _ fun _ _ => rfl
    exact (reads_expect ctx .closeParen).bind_cons (hresults.bind_pure _) hfits
  · intro l _
    rw [headD_append]
    exact hpasses

theorem reads_function {ps : List (Param TypeExpr)} {ts : List TypeExpr} (isAsync : Bool)
    (hparams : ∀ p ∈ ps, ∀ t, p.type = some t → t.Canonical false ∧ ReadsAsType t)
    (hreturns : ∀ t ∈ ts, t ≠ .vararg → t.Canonical false ∧ ReadsAsType t)
    (hlength : ctx.nested = true → ts.length ≤ 1)
    (hfuel : 8 * (TypeExpr.function ps ts false).lexemes.length ≤ fuel + 4)
    : Reads (function ctx isAsync fuel) (TypeExpr.function ps ts false).lexemes (.function ps ts isAsync)
        fun l => Closes ctx l ∧ (ctx.nested = false → l ≠ .symbol .comma) := by
  rw [lexemes_function, if_neg (by simp), List.nil_append] at hfuel ⊢
  simp only [List.length_cons, List.length_append] at hfuel
  obtain ⟨fuel, rfl⟩ : ∃ n, fuel = n + 1 := ⟨fuel - 1, by omega⟩
  have hlist := reads_paramList ctx (fun p hp t ht => (hparams p hp t ht).1) (fun p hp t ht => (hparams p hp t ht).2)
    (by omega : _ ≤ fuel)
  apply reads_function_of_parts isAsync hlist (reads_results hreturns hlength (by omega))
  · cases ps with
    | nil => exact passes_symbol _ _
    | cons p ps =>
      apply passes_headD_separated _ (by simp)
      intro item hitem
      obtain ⟨p, -, rfl⟩ := List.mem_map.1 hitem
      refine ⟨_, _, rfl, ?_⟩
      unfold TypeExpr.paramName
      split <;> rfl
  · intro l hl
    unfold resultLexemes
    split
    · exact hl.1.passes
    · exact passes_symbol _ _

/-! ### All types -/

theorem ReadsAsMarked.readsAsType (h : ReadsAsMarked t) (hparens : t.needsParens = false) : ReadsAsType t := by
  intro ctx fuel hcanonical hfuel
  rw [needsParens_eq, Bool.or_eq_false_iff] at hparens
  have hcanonical := hcanonical.of_not_function hparens.1
  have hpos := length_lexemes_pos hcanonical
  obtain ⟨fuel, rfl⟩ : ∃ n, fuel = n + 2 := ⟨fuel - 2, by omega⟩
  apply ((h ctx fuel hcanonical (by simp [needsParens_eq, hparens]) hfuel).reads_union (by omega)).mono
  exact fun _ hl => hl.toCloses

theorem ReadsAsMarked.both (h : ReadsAsMarked t) (hparens : t.needsParens = false)
    : ReadsAsType t ∧ ReadsAsMarked t :=
  ⟨h.readsAsType hparens, h⟩

theorem readsAsMarked_of_primary (h : ∀ ctx fuel, t.Canonical false → 8 * t.lexemes.length ≤ fuel + 3 →
      Reads (primary ctx (fuel + 1)) t.lexemes t (Follows ctx))
    : ReadsAsMarked t := by
  intro ctx fuel hcanonical _ hfuel
  have hpos := length_lexemes_pos hcanonical
  obtain ⟨fuel, rfl⟩ : ∃ n, fuel = n + 1 := ⟨fuel - 1, by omega⟩
  exact .of_reads (h ctx fuel hcanonical (by omega))

theorem primary_function {results : List Lexeme} (isAsync : Bool) {fits : Lexeme → Prop}
    (h : Reads (function ctx isAsync fuel) (.keyword .function :: results) t fits)
    : Reads (primary ctx (fuel + 1))
        ((if isAsync then [.keyword .async] else []) ++ .keyword .function :: results) t fits := by
  unfold primary
  cases isAsync with
  | false => exact Reads.peek h
  | true =>
    apply Reads.peek
    apply Reads.advance h
    rintro _ _ c failed ⟨⟩

theorem readsAsType_function {ps : List (Param TypeExpr)} {ts : List TypeExpr} (isAsync : Bool)
    (hparams : ∀ p ∈ ps, ∀ t, p.type = some t → ReadsAsType t) (hreturns : ∀ t ∈ ts, ReadsAsType t)
    : ReadsAsType (.function ps ts isAsync) := by
  intro ctx fuel hcanonical hfuel
  have hpos := length_lexemes_pos hcanonical
  have hle : (TypeExpr.function ps ts false).lexemes.length ≤ (TypeExpr.function ps ts isAsync).lexemes.length := by
    rw [lexemes_function, lexemes_function]
    simp
  obtain ⟨fuel, rfl⟩ : ∃ n, fuel = n + 3 := ⟨fuel - 3, by omega⟩
  cases hcanonical with
  | function _ _ hps hts hlength =>
    have hfunction := reads_function isAsync (fun p hp t ht => ⟨hps p hp t ht, hparams p hp t ht⟩)
      (fun t ht hne => ⟨hts t ht hne, hreturns t ht⟩) (fun hnested => hlength (by rw [hnested]; rfl))
      (by omega : _ ≤ fuel + 4)
    rw [lexemes_function] at hfunction
    have hprimary := primary_function isAsync hfunction
    rw [← lexemes_function] at hprimary
    have hmarks := hprimary.bind (f := marks ctx (fuel + 1))
      ((marks_of_ne _ _).mono fun l (hl : Ends ctx (.function ps ts isAsync) l) => ⟨hl.ne_brackets, hl.ne_question⟩)
      fun l hl => ⟨hl.toCloses, hl.ne_comma rfl⟩
    rw [List.append_nil] at hmarks
    exact reads_union_of_one hmarks fun l hl => hl.ne_pipe

theorem reads_lexemes (t : TypeExpr) : ReadsAsType t ∧ ReadsAsMarked t := by
  induction t with
  | named name =>
    apply ReadsAsMarked.both _ rfl
    apply readsAsMarked_of_primary
    intro ctx fuel hcanonical _
    cases hcanonical with
    | named h => exact reads_named h
  | literal value =>
    apply ReadsAsMarked.both _ rfl
    apply readsAsMarked_of_primary
    intro ctx fuel hcanonical _
    cases hcanonical with
    | literal h => exact reads_literal h
  | union members ih =>
    refine ⟨?_, fun _ _ _ hparens => by cases hparens⟩
    intro ctx fuel hcanonical hfuel
    cases hcanonical with
    | union hlength hunion hcanonical =>
      obtain ⟨t, u, ts, rfl⟩ : ∃ t u ts, members = t :: u :: ts := by
        match members, hlength with
        | t :: u :: ts, _ => exact ⟨t, u, ts, rfl⟩
      have hpos := length_lexemes_pos (.union hlength hunion hcanonical : Canonical false _)
      obtain ⟨fuel, rfl⟩ : ∃ n, fuel = n + 1 := ⟨fuel - 1, by omega⟩
      rw [TypeExpr.lexemes, operandLexemes_eq] at hfuel ⊢
      have hread := (reads_members ctx (by simp) hcanonical hunion ih (by omega : _ ≤ fuel + 1)).bind_pure ofMembers
      exact hread.mono fun l hl => ⟨hl.toMarked, hl.ne_pipe⟩
  | optional inner ih =>
    apply ReadsAsMarked.both _ rfl
    intro ctx fuel hcanonical _ hfuel
    cases hcanonical with
    | optional hcanonical =>
      rw [TypeExpr.lexemes, List.length_append, List.length_singleton] at hfuel
      exact (reads_grouped hcanonical ih.1 ih.2 id ctx (by omega)).mark (by simp) (isMark_question ctx inner)
  | array element ih =>
    apply ReadsAsMarked.both _ rfl
    intro ctx fuel hcanonical _ hfuel
    cases hcanonical with
    | array hcanonical =>
      rw [TypeExpr.lexemes, List.length_append, List.length_singleton] at hfuel
      exact (reads_grouped hcanonical ih.1 ih.2 id ctx (by omega)).mark (by simp) (isMark_brackets ctx element)
  | generic name args ih =>
    apply ReadsAsMarked.both _ rfl
    apply readsAsMarked_of_primary
    intro ctx fuel hcanonical hfuel
    cases hcanonical with
    | generic hname hne hcanonical =>
      rw [TypeExpr.lexemes, eachLexemes_eq] at hfuel ⊢
      simp only [List.length_cons, List.length_append] at hfuel
      apply reads_generic hname.ne_true hname.ne_false
      · exact reads_arguments hne hcanonical (fun t ht => (ih t ht).1) (by omega)
      · exact ⟨closes_symbol _ (by decide), by simp⟩
      · obtain ⟨t, ts, rfl⟩ := List.exists_cons_of_ne_nil hne
        exact (leading_lexemes (hcanonical t (by simp))).separated _ _
  | function params returns isAsync ihParams ihReturns =>
    refine ⟨?_, fun _ _ _ hparens => by cases hparens⟩
    exact readsAsType_function isAsync (fun p hp t ht => (ihParams p hp t ht).1) fun t ht => (ihReturns t ht).1
  | table fields ih =>
    apply ReadsAsMarked.both _ rfl
    apply readsAsMarked_of_primary
    intro ctx fuel hcanonical hfuel
    cases hcanonical with
    | table hkeyed hkeys hcanonical =>
      rw [TypeExpr.lexemes, fieldLexemes_eq] at hfuel ⊢
      simp only [List.length_cons, List.length_append] at hfuel
      apply reads_table
      · exact reads_fields hkeyed (fun f hf t ht => ⟨hkeys f hf t ht, ((ih f hf).1 t ht).1⟩) hcanonical
          (fun f hf => (ih f hf).2.1) (by omega)
      · intro l
        rw [headD_append]
        cases fields with
        | nil => exact passes_symbol _ _
        | cons f fs =>
          apply passes_headD_separated _ (by simp)
          intro item hitem
          obtain ⟨f, hf, rfl⟩ := List.mem_map.1 hitem
          exact exists_item_field (hkeyed f hf)
  | vararg =>
    constructor
    · intro _ _ hcanonical
      cases hcanonical
    · intro _ _ hcanonical
      cases hcanonical

end Parser

/-! ### Texts -/

open Token

def nextLexeme (text : List Char) : Lexeme :=
  match text.dropWhile isSpace with
  | [] => .endOfText
  | c :: cs => (Lexeme.read c cs).1

theorem first_scanFrom (offset : Nat) (text : List Char)
    : (first (scanFrom 0 offset text)).lexeme = nextLexeme text ∧
        (first (scanFrom 0 offset text)).offset = offset + (text.takeWhile isSpace).length := by
  induction text generalizing offset with
  | nil => exact ⟨rfl, rfl⟩
  | cons c cs ih =>
    rw [scanFrom]
    cases hspace : isSpace c with
    | true =>
      rw [if_pos rfl]
      obtain ⟨hlexeme, hoffset⟩ := ih (offset + 1)
      rw [hlexeme, hoffset]
      simp only [nextLexeme, List.dropWhile_cons, List.takeWhile_cons, hspace, if_true, List.length_cons, true_and]
      omega
    | false => simp [nextLexeme, first, hspace]

theorem scanFrom_ne_nil (skip offset : Nat) (text : List Char) : scanFrom skip offset text ≠ [] := by
  induction text generalizing skip offset with
  | nil => simp [scanFrom]
  | cons c cs ih =>
    cases skip with
    | succ skip => exact ih skip (offset + 1)
    | zero =>
      rw [scanFrom]
      split
      · exact ih 0 (offset + 1)
      · simp

theorem isBlank_of_isSpace {c : Char} (h : isSpace c = true) : Text.isBlank c = true := by
  simp only [isSpace, Bool.or_eq_true, beq_iff_eq] at h
  obtain ((rfl | rfl) | rfl) | rfl := h <;> rfl

theorem strip_dropWhile_isSpace (text : List Char) : Text.strip (text.dropWhile isSpace) = Text.strip text := by
  induction text with
  | nil => rfl
  | cons c cs ih =>
    rw [List.dropWhile_cons]
    split
    next h =>
      rw [ih, Text.strip, Text.strip, Text.stripLeft, Text.stripLeft, List.dropWhile_cons,
        if_pos (isBlank_of_isSpace h)]
    next => rfl

structure Stops (text : List Char) : Prop where
  breaks : Breaks text
  notMem : nextLexeme text ∉
    [Symbol.openAngle, .brackets, .question, .pipe, .colon, .comma].map Lexeme.symbol

theorem stops_nil : Stops [] where
  breaks := breaks_nil
  notMem := by decide

theorem stops_closeBracket (text : List Char) : Stops (']' :: text) where
  breaks := breaks_cons.2 (by decide)
  notMem := by
    change Lexeme.symbol .closeBracket ∉ _
    decide

theorem stops_space {c : Char} (hspace : isSpace c = false) (hbracket : c ≠ '[') (hsymbol : Symbol.ofChar? c = none)
    (text : List Char)
    : Stops (' ' :: c :: text) where
  breaks := breaks_cons.2 (by decide)
  notMem := by
    have hnext : nextLexeme (' ' :: c :: text) = (Lexeme.read c text).1 := by
      have hblank : isSpace ' ' = true := rfl
      simp [nextLexeme, hblank, hspace]
    rw [hnext]
    unfold Lexeme.read
    split
    · decide
    · exact absurd rfl hbracket
    next =>
      rw [hsymbol]
      dsimp only
      split
      · unfold Lexeme.ofString
        split <;> simp
      · split
        · simp
        · split
          · unfold Lexeme.ofWord
            split <;> simp
          · simp

theorem run_render {t : TypeExpr} (h : t.Canonical true) (ctx : Parser.Context) (hctx : ctx.nested = false)
    {tail : List Char} (htail : Stops tail) (hnext : Passes ctx.toFrame (nextLexeme tail))
    : Reader.run ctx.toFrame (t.render.toList ++ tail) (Parser.type ctx)
        = .ok (t, scanFrom 0 t.render.toList.length tail) := by
  have hends : Parser.Ends ctx t (nextLexeme tail) := by
    have hnotMem := htail.notMem
    simp only [List.map_cons, List.map_nil, List.mem_cons, List.not_mem_nil, or_false, not_or] at hnotMem
    obtain ⟨hangle, hbrackets, hquestion, hpipe, hcolon, hcomma⟩ := hnotMem
    exact ⟨⟨⟨hnext, hangle, hbrackets, hquestion⟩, hpipe, hcolon⟩, fun _ _ => hcomma⟩
  obtain ⟨tokens, hlexemes, hscan⟩ := h.scansAs_render tail htail.breaks 0
  rw [Nat.zero_add] at hscan
  have hfirst := (first_scanFrom t.render.toList.length tail).1
  have hguard : guardKnown (π := Problem) ctx.toFrame (tokens ++ scanFrom 0 t.render.toList.length tail)
      = .ok () := by
    apply guardKnown_of_passes
    rw [lexeme_first_append hlexemes]
    exact (Parser.leading_lexemes h).passes _ _
  have hfuel : 8 * t.lexemes.length
      ≤ 8 * ((tokens ++ scanFrom 0 t.render.toList.length tail).length + 1) := by
    rw [← hlexemes, List.length_map, List.length_append]
    omega
  unfold Reader.run
  rw [scan, hscan]
  dsimp only
  rw [hguard]
  exact (Parser.reads_lexemes t).1 ctx _ (by rw [hctx]; exact h) hfuel tokens _ hlexemes
    (scanFrom_ne_nil _ _ _) (by rwa [hfirst])

theorem parsePrefix_render {t : TypeExpr} (h : t.Canonical true) {tail : List Char} (htail : Stops tail)
    (origin : Position)
    : parsePrefix (t.render.toList ++ tail) origin = .ok (t, Text.strip tail) := by
  have hrun := run_render h { origin, strict := false } rfl htail fun _ _ _ => rfl
  have hoffset := (first_scanFrom t.render.toList.length tail).2
  have hdrop : tail.drop (tail.takeWhile isSpace).length = tail.dropWhile isSpace := by
    have := @List.drop_left _ (tail.takeWhile isSpace) (tail.dropWhile isSpace)
    rwa [List.takeWhile_append_dropWhile] at this
  unfold parsePrefix
  dsimp only at hrun ⊢
  rw [hrun]
  change Except.ok (t, Text.strip _) = _
  rw [hoffset, List.drop_length_add_append, hdrop, strip_dropWhile_isSpace]

/--
A canonical type is what its text is read as.
-/
theorem parse_render_canonical {t : TypeExpr} (h : t.Canonical true) (line : Int)
    : parse t.render line = .ok t := by
  have hrun := run_render h { origin := { line } } rfl stops_nil (by rintro _ _ ⟨⟩)
  unfold parse
  dsimp only at hrun ⊢
  rw [List.append_nil] at hrun
  rw [hrun]
  rfl

def callback : TypeExpr :=
  .function
    [{ name := "on", type := some (.union [.literal (.string "\"\n"), .optional (.generic "list" [.named "a.b"])]),
       optional := true },
      { name := "..." }]
    [.array (.function [] [.vararg] false),
      .table [{ key := some (.named "string"), type := .literal (.integer (-1)) },
        { name := some "x", type := .literal (.boolean true), optional := true }]]
    true

theorem canonical_callback : callback.Canonical true := by
  have hname : ∀ name ∈ ["on", "list", "a.b", "string", "x"], Lexeme.IsName name := by
    simp only [List.forall_mem_cons, List.not_mem_nil, false_imp_iff, implies_true, and_true]
    refine ⟨?_, ?_, ?_, ?_, ?_⟩
    all_goals exact Lexeme.isName_iff.2 ⟨⟨_, _, rfl, rfl, rfl⟩, rfl⟩
  have htype : ∀ name ∈ ["list", "a.b", "string"], IsTypeName name := by
    simp only [List.forall_mem_cons, List.not_mem_nil, false_imp_iff, implies_true, and_true]
    exact ⟨⟨hname _ (by simp), by decide, by decide⟩, ⟨hname _ (by simp), by decide, by decide⟩,
      ⟨hname _ (by simp), by decide, by decide⟩⟩
  have hliteral : (TypeExpr.literal (.string "\"\n")).Canonical false :=
    .literal (.string (by simp [Literal.IsReadable]))
  have hlist : (TypeExpr.optional (.generic "list" [.named "a.b"])).Canonical false :=
    .optional (.generic (htype _ (by simp)) (by simp) (by simpa using .named (htype _ (by simp))))
  have hunion : (TypeExpr.union [.literal (.string "\"\n"), .optional (.generic "list" [.named "a.b"])]).Canonical false :=
    .union (by simp) (by simp [isUnion]) (by simpa using ⟨hliteral, hlist⟩)
  have harray : (TypeExpr.array (.function [] [.vararg] false)).Canonical false :=
    .array (.function false (by simp) (by simp) (by simp) (by simp))
  have htable : (TypeExpr.table [{ key := some (.named "string"), type := .literal (.integer (-1)) },
      { name := some "x", type := .literal (.boolean true), optional := true }]).Canonical false := by
    refine .table ?_ ?_ ?_
    · simpa using ⟨.key _ _, .name _ true (hname "x" (by simp))⟩
    · simpa using .named (htype _ (by simp))
    · simpa using ⟨.literal (.integer (by decide)), .literal (.boolean true)⟩
  refine .function true ?_ ?_ ?_ (by simp)
  · simpa [Param.IsNamed, Symbol.text] using hname "on" (by simp)
  · simpa using hunion
  · simpa using ⟨harray, htable⟩

theorem parse_render_canonical_callback : callback.Canonical true ∧ parse callback.render 1 = .ok callback :=
  ⟨canonical_callback, parse_render_canonical canonical_callback 1⟩

end LuaTypes.TypeExpr
