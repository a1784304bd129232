import LuaTypes.Proofs.Text.Phrase
import LuaTypes.Proofs.TypeExpr.Lexemes

/-!
The texts of types are phrases: they stand on one line, without blanks around them.
-/

namespace LuaTypes

open Text

theorem isWordChar_of_mem_namePart {cs : List Char}
    : ∀ c ∈ Lexeme.namePart cs, isWordChar c = true ∨ c = '.' := by
  induction cs with
  | nil => simp [Lexeme.namePart]
  | cons d cs ih =>
    rw [Lexeme.namePart]
    split
    next h =>
      intro c hc
      rw [List.mem_cons] at hc
      cases hc with
      | inr hc => exact ih c hc
      | inl hc =>
        rw [Bool.or_eq_true, Bool.and_eq_true, beq_iff_eq] at h
        rw [hc]
        exact h.imp_right And.left
    next => simp

theorem isPhrase_name {name : String} (h : Lexeme.IsName name) : IsPhrase name.toList := by
  obtain ⟨c, cs, hname, hstart, -, hpart⟩ := h.start
  apply IsWord.isPhrase
  constructor
  · simp [hname]
  · intro d hd
    rw [hname, List.mem_cons] at hd
    cases hd with
    | inl hd =>
      rw [hd]
      exact not_isBlank_of_isWordChar (Lexeme.isWordChar_of_isNameStart hstart)
    | inr hd =>
      rw [← hpart] at hd
      cases isWordChar_of_mem_namePart d hd with
      | inl hword => exact not_isBlank_of_isWordChar hword
      | inr hpoint => rw [hpoint]; rfl

namespace Literal

open Decimal

theorem oneLine_escapeChar {c : Char} (h : IsReadable c) (hline : isLineBreak c = true → c = '\n')
    : OneLine (escapeChar c) := by
  have hcontrol : c.toNat < 0x20 → c = '\n' ∨ c = '\t' := by
    intro hlt
    obtain hc | hc | hc := h
    · exact .inl hc
    · exact .inr hc
    · omega
  unfold escapeChar
  split
  · decide
  · split
    · decide
    · split
      · decide
      · split
        · decide
        · split
          · decide
          next hfeed _ htab =>
            have hprintable : ¬ c.toNat < 0x20 := fun hlt => (hcontrol hlt).elim hfeed htab
            rw [if_neg (by omega), if_neg (by omega), if_neg hprintable, oneLine_cons]
            refine ⟨?_, oneLine_nil⟩
            rw [← Bool.not_eq_true]
            exact fun hbreak => hfeed (hline hbreak)

theorem isPhrase_number {text : String} {negative : Bool} {whole places : List Char} (hne : whole ≠ [])
    (hwhole : ∀ c ∈ whole, c.isDigit) (hplaces : ∀ c ∈ places, c.isDigit)
    (htext : text.toList = minus negative ++ (whole ++ pointed places))
    : IsPhrase text.toList := by
  apply IsWord.isPhrase
  rw [htext]
  constructor
  · simp [hne]
  · intro c hc
    rw [← Bool.not_eq_true]
    apply not_isBlank_of_isNumeralChar
    rw [List.mem_append, List.mem_append] at hc
    obtain hc | hc | hc := hc
    · exact isNumeralChar_of_mem_minus c hc
    · exact isNumeralChar_of_isDigit (hwhole c hc)
    · exact isNumeralChar_of_mem_pointed hplaces c hc

theorem Canonical.isPhrase_render {value : Literal} (h : value.Canonical)
    (hline : ∀ content, value = .string content → ∀ c ∈ content.toList, isLineBreak c = true → c = '\n')
    : IsPhrase value.render.toList := by
  cases h with
  | @string content h =>
    rw [render, renderString, String.toList_ofList]
    apply IsPhrase.of_ends rfl rfl (d := '"')
    · rw [List.getLast?_cons, List.getLast?_append]
      rfl
    · rfl
    · rw [oneLine_cons, oneLine_append]
      refine ⟨rfl, ?_, by decide⟩
      intro d hd
      obtain ⟨c, hc, hd⟩ := List.mem_flatMap.1 hd
      exact oneLine_escapeChar (h c hc) (hline content rfl c hc) d hd
  | integer h =>
    exact isPhrase_number Nat.toDigits_ne_nil isDigit_toDigits (by simp) (toList_integerText_eq _)
  | float h =>
    obtain ⟨negative, whole, places, hne, -, hwhole, hplaces, htext⟩ := h.exists_places
    exact isPhrase_number hne hwhole hplaces htext
  | boolean value => exact isPhrase_name (isName_render_boolean value)

end Literal

namespace TypeExpr

theorem isPhrase_parenthesize {text : String} (wrap : Bool) (h : IsPhrase text.toList)
    : IsPhrase (parenthesize wrap text).toList := by
  cases wrap with
  | false => exact h
  | true => exact isPhrase_append (isPhrase_append (isPhrase_singleton rfl) h) (isPhrase_singleton rfl)

theorem isPhrase_optional {text : String} (isOptional : Bool) (h : IsPhrase text.toList)
    : IsPhrase (text ++ if isOptional then "?" else "").toList := by
  cases isOptional with
  | false => simpa using h
  | true => exact isPhrase_append h (isPhrase_singleton rfl)

theorem isPhrase_typing {text : String} {type : Option TypeExpr} (h : IsPhrase text.toList)
    (htype : ∀ t, type = some t → IsPhrase t.render.toList)
    : IsPhrase (text ++ renderTyping type).toList := by
  cases type with
  | none => simpa [renderTyping] using h
  | some t =>
    rw [renderTyping, ← String.append_assoc]
    exact isPhrase_around h (by decide) (htype t rfl)

theorem Param.isPhrase_render {p : Param TypeExpr} (hname : p.IsNamed)
    (h : ∀ t, p.type = some t → IsPhrase t.render.toList)
    : IsPhrase p.render.toList := by
  have hname : IsPhrase p.name.toList := by
    obtain hname | hname := hname
    · rw [hname]
      decide
    · exact isPhrase_name hname
  exact isPhrase_typing (isPhrase_optional _ hname) h

theorem isPhrase_key {f : Field TypeExpr} (hkeyed : f.IsKeyed)
    (h : ∀ t, f.key = some t → IsPhrase t.render.toList)
    : IsPhrase (renderKey f.name f.optional f.key).toList := by
  cases hkeyed with
  | key t type => exact isPhrase_append (isPhrase_append (isPhrase_singleton rfl) (h t rfl)) (isPhrase_singleton rfl)
  | name type isOptional hname => exact isPhrase_optional isOptional (isPhrase_name hname)

theorem Field.isPhrase_render {f : Field TypeExpr} (hkeyed : f.IsKeyed)
    (hkey : ∀ t, f.key = some t → IsPhrase t.render.toList) (htype : IsPhrase f.type.render.toList)
    : IsPhrase f.render.toList :=
  isPhrase_around (isPhrase_key hkeyed hkey) (by decide) htype

theorem isPhrase_function (isAsync : Bool) {params : List (Param TypeExpr)} {returns : List TypeExpr}
    (hparams : ∀ p ∈ params, IsPhrase p.render.toList)
    (hreturns : ∀ t ∈ returns, IsPhrase (operandText t).toList)
    : IsPhrase (TypeExpr.function params returns isAsync).render.toList := by
  have hopening : IsPhrase ((if isAsync then "async " else "") ++ "fun(").toList := by
    have hfunction : IsPhrase "fun(".toList := by decide
    cases isAsync with
    | false => exact hfunction
    | true => exact @isPhrase_around "async" "fun(" " " (by decide) (by decide) hfunction
  have hlist : OneLine (join ", " (params.map Param.render)).toList := by
    apply oneLine_join (by decide)
    intro text htext
    obtain ⟨p, hp, rfl⟩ := List.mem_map.1 htext
    exact hparams p hp
  have hclosed : IsPhrase ((if isAsync then "async " else "") ++ "fun(" ++ join ", " (params.map Param.render)
      ++ ")").toList :=
    isPhrase_around hopening hlist (isPhrase_singleton rfl)
  rw [render, renderParams_eq, renderOperands_eq]
  cases returns with
  | nil => simpa using hclosed
  | cons t ts =>
    rw [List.isEmpty_cons, if_neg Bool.false_ne_true, ← String.append_assoc]
    apply isPhrase_around hclosed (by decide)
    apply isPhrase_join (by decide) (by simp)
    intro text htext
    obtain ⟨t, ht, rfl⟩ := List.mem_map.1 htext
    exact hreturns t ht

theorem isPhrase_table {fields : List (Field TypeExpr)} (h : ∀ f ∈ fields, IsPhrase f.render.toList)
    : IsPhrase (TypeExpr.table fields).render.toList := by
  cases fields with
  | nil => exact by decide
  | cons f fs =>
    have hlist : IsPhrase (join ", " ((f :: fs).map Field.render)).toList := by
      apply isPhrase_join (by decide) (by simp)
      intro text htext
      obtain ⟨g, hg, rfl⟩ := List.mem_map.1 htext
      exact h g hg
    have hopened := @isPhrase_around "\x7b" _ " " (isPhrase_singleton rfl) (by decide) hlist
    have := @isPhrase_around _ "\x7d" " " hopened (by decide) (isPhrase_singleton rfl)
    rw [render, renderFields_eq]
    simpa [← String.append_assoc] using this

theorem Canonical.isPhrase_render {P : Char → Prop} (hP : ∀ c, P c → isLineBreak c = true → c = '\n')
    {t : TypeExpr} {root : Bool} (hcanonical : t.Canonical root) (hgrammatical : t.Grammatical P)
    : IsPhrase t.render.toList := by
  induction t generalizing root with
  | named name =>
    cases hcanonical with
    | named h => exact isPhrase_name h.isName
  | literal value =>
    cases hcanonical with
    | literal h =>
      apply h.isPhrase_render
      rintro content rfl c hc
      cases hgrammatical with
      | string hcontent => exact hP c (hcontent c hc)
  | union members ih =>
    cases hcanonical with
    | union hlength _ hcanonical =>
      cases hgrammatical with
      | union _ hgrammatical =>
        rw [render, renderOperands_eq]
        apply isPhrase_join (by decide)
        · rintro hnil
          rw [List.map_eq_nil_iff.1 hnil] at hlength
          simp at hlength
        · intro text htext
          obtain ⟨t, ht, rfl⟩ := List.mem_map.1 htext
          exact isPhrase_parenthesize _ (ih t ht (hcanonical t ht) (hgrammatical t ht))
  | optional inner ih =>
    cases hcanonical with
    | optional hcanonical =>
      cases hgrammatical with
      | optional hgrammatical =>
        exact isPhrase_append (isPhrase_parenthesize _ (ih hcanonical hgrammatical)) (isPhrase_singleton rfl)
  | array element ih =>
    cases hcanonical with
    | array hcanonical =>
      cases hgrammatical with
      | array hgrammatical =>
        exact isPhrase_append (isPhrase_parenthesize _ (ih hcanonical hgrammatical))
          (by decide)
  | generic name args ih =>
    cases hcanonical with
    | generic hname hne hcanonical =>
      cases hgrammatical with
      | generic _ _ hgrammatical =>
        rw [render, renderEach_eq]
        have hargs : IsPhrase (join ", " (args.map render)).toList := by
          apply isPhrase_join (by decide) (by simpa using hne)
          intro text htext
          obtain ⟨t, ht, rfl⟩ := List.mem_map.1 htext
          exact ih t ht (hcanonical t ht) (hgrammatical t ht)
        exact isPhrase_append (isPhrase_append (isPhrase_append (isPhrase_name hname.isName)
          (isPhrase_singleton rfl)) hargs) (isPhrase_singleton rfl)
  | function params returns isAsync ihParams ihReturns =>
    cases hcanonical with
    | function _ hnames hparams hreturns =>
      cases hgrammatical with
      | function _ _ hparams' hreturns' =>
        apply isPhrase_function
        · exact fun p hp => Param.isPhrase_render (hnames p hp)
            fun t ht => ihParams p hp t ht (hparams p hp t ht) (hparams' p hp t ht)
        · intro t ht
          by_cases hvararg : t = .vararg
          · rw [hvararg]
            decide
          · exact isPhrase_parenthesize _ (ihReturns t ht (hreturns t ht hvararg) (hreturns' t ht hvararg))
  | table fields ih =>
    cases hcanonical with
    | table hkeyed hkeys htypes =>
      cases hgrammatical with
      | table _ hkeys' htypes' =>
        apply isPhrase_table
        exact fun f hf => Field.isPhrase_render (hkeyed f hf)
          (fun t ht => (ih f hf).1 t ht (hkeys f hf t ht) (hkeys' f hf t ht)) ((ih f hf).2 (htypes f hf) (htypes' f hf))
  | vararg => cases hcanonical

end TypeExpr

end LuaTypes
