import LuaTypes.Proofs.Decimal.Float
import LuaTypes.Proofs.Token.Scan
import LuaTypes.TypeExpr.Parser
import LuaTypes.TypeExpr.Render

/-!
Literals are read back from their texts, unless a string holds control characters that no escape stands
for, an integer has too many digits, or a floating-point number needs an exponent or a name.
-/

namespace LuaTypes

open Decimal

def Literal.IsReadable (c : Char) : Prop :=
  c = '\n' ∨ c = '\t' ∨ 0x20 ≤ c.toNat

structure Literal.IsPositional (x : Float) : Prop where
  finite : (Binary.ofFloat x).isFinite
  no_exponent : 'e' ∉ (Literal.float x).render.toList

inductive Literal.Canonical : Literal → Prop where
  | string {value : String} : (∀ c ∈ value.toList, IsReadable c) → Canonical (.string value)
  | integer {value : Int}
      : (Nat.toDigits 10 value.natAbs).length ≤ maxIntegerDigits → Canonical (.integer value)
  | float {value : Float} : IsPositional value → Canonical (.float value)
  | boolean (value : Bool) : Canonical (.boolean value)

theorem Decimal.Power.eq_nil {power : List Char} {exponent : Int} (h : Power power exponent)
    (he : 'e' ∉ power)
    : power = [] := by
  cases h with
  | none => rfl
  | some negative digits => exact absurd List.mem_cons_self he

namespace Literal

def lexeme : Literal → Lexeme
  | .string value => .string value
  | .boolean value => .name (Literal.boolean value).render
  | value => .number value.render

open Token

variable {tail : List Char}

/-! ### Strings -/

theorem stringBody_escapeChar {c : Char} (h : IsReadable c) (cs : List Char)
    : Lexeme.stringBody '"' (escapeChar c ++ cs)
        =
      match Lexeme.stringBody '"' cs with
      | .ok (content, length) => .ok (c :: content, length + (escapeChar c).length)
      | .error (fault, length) => .error (fault, length + (escapeChar c).length) := by
  unfold escapeChar
  split
  next hc => rw [hc]; rfl
  next hquote =>
    split
    next hc => rw [hc]; rfl
    next hslash =>
      split
      next hc => rw [hc]; rfl
      next hfeed =>
        split
        next hc => exact absurd h (by rw [hc]; simp [IsReadable])
        next =>
          split
          next hc => rw [hc]; rfl
          next htab =>
            have hprintable : 0x20 ≤ c.toNat := by simpa [IsReadable, hfeed, htab] using h
            rw [if_neg (by omega), if_neg (by omega), if_neg (by omega)]
            rw [List.singleton_append, Lexeme.stringBody]
            · rw [if_neg hquote]
              rfl
            · exact fun hc => hslash hc

theorem stringBody_flatMap {content : List Char} (h : ∀ c ∈ content, IsReadable c) (tail : List Char)
    : Lexeme.stringBody '"' (content.flatMap escapeChar ++ '"' :: tail)
        = .ok (content, (content.flatMap escapeChar).length + 1) := by
  induction content with
  | nil => simp [Lexeme.stringBody]
  | cons c cs ih =>
    rw [List.flatMap_cons, List.append_assoc, stringBody_escapeChar (h c (by simp)),
      ih fun d hd => h d (by simp [hd])]
    simp only [List.length_append, Except.ok.injEq, Prod.mk.injEq, true_and]
    omega

theorem scans_renderString {value : String} (h : ∀ c ∈ value.toList, IsReadable c)
    : Scans (renderString value).toList [.string value] tail := by
  have := scans_string (stringBody_flatMap h tail)
  rw [String.ofList_toList] at this
  rwa [renderString, String.toList_ofList]

/-! ### Numbers -/

theorem toList_integerText_eq (n : Int)
    : (integerText n).toList = minus (decide (n < 0)) ++ (Nat.toDigits 10 n.natAbs ++ pointed []) := by
  rw [integerText, String.toList_ofList]
  by_cases h : n < 0 <;> simp [minus, pointed, h]

theorem IsPositional.exists_places {x : Float} (h : IsPositional x)
    : ∃ negative whole places, whole ≠ [] ∧ places ≠ [] ∧ (∀ c ∈ whole, c.isDigit) ∧
        (∀ c ∈ places, c.isDigit) ∧
        (Literal.float x).render.toList = minus negative ++ (whole ++ pointed places) := by
  by_cases hzero : (Binary.ofFloat x).significand = 0
  · refine ⟨(Binary.ofFloat x).negative, ['0'], ['0'], by simp, by simp, by simp, by simp, ?_⟩
    simp only [render, floatText, h.finite, hzero, Bool.not_true, Bool.false_eq_true, ↓reduceIte]
    cases (Binary.ofFloat x).negative <;> rfl
  · obtain ⟨n, htext, hfloat, -⟩ := exists_numeral_floatText floatNames h.finite hzero
    have hpower : n.power = [] := by
      have he := h.no_exponent
      change 'e' ∉ (floatText floatNames x).toList at he
      rw [htext, Numeral.text] at he
      exact n.power_exponent.eq_nil fun hmem => he (by simp [hmem])
    refine ⟨(Binary.ofFloat x).negative, n.whole, n.places, n.whole_ne_nil, ?_, n.whole_digits,
      n.places_digits, ?_⟩
    · simpa [hpower] using hfloat
    · change (floatText floatNames x).toList = _
      rw [htext, Numeral.text, hpower, List.append_nil]

theorem scans_integer (value : Int) (htail : Breaks tail)
    : Scans (Literal.integer value).render.toList [(Literal.integer value).lexeme] tail := by
  let n : Lexeme.Numeral :=
    { negative := decide (value < 0)
      whole := Nat.toDigits 10 value.natAbs
      places := []
      whole_ne_nil := Nat.toDigits_ne_nil
      whole_digits := fun c hc => isDigit_of_ascii (isDigit_toDigits c hc)
      places_digits := by simp }
  have h := scans_number n htail
  have htext : (integerText value).toList = n.text := toList_integerText_eq value
  rw [← htext, String.ofList_toList] at h
  exact h

theorem scans_float {value : Float} (h : IsPositional value) (htail : Breaks tail)
    : Scans (Literal.float value).render.toList [(Literal.float value).lexeme] tail := by
  obtain ⟨negative, whole, places, hne, -, hwhole, hplaces, htext⟩ := h.exists_places
  have hscan := scans_number ⟨negative, whole, places, hne, fun c hc => isDigit_of_ascii (hwhole c hc),
    fun c hc => isDigit_of_ascii (hplaces c hc)⟩ htail
  rw [Lexeme.Numeral.text, ← htext, String.ofList_toList] at hscan
  exact hscan

/-! ### Both -/

theorem isName_render_boolean (value : Bool) : Lexeme.IsName (Literal.boolean value).render := by
  cases value with
  | false => exact ⟨⟨'f', ['a', 'l', 's', 'e'], rfl, rfl, rfl, rfl⟩, rfl⟩
  | true => exact ⟨⟨'t', ['r', 'u', 'e'], rfl, rfl, rfl, rfl⟩, rfl⟩

theorem Canonical.scans_render {value : Literal} (h : value.Canonical) (htail : Breaks tail)
    : Scans value.render.toList [value.lexeme] tail := by
  cases h with
  | string h => exact scans_renderString h
  | integer h => exact scans_integer _ htail
  | float h => exact scans_float h htail
  | boolean value => exact scans_name (isName_render_boolean value) htail

open TypeExpr.Parser

theorem numberLiteral_integer {n : Int} (h : (Nat.toDigits 10 n.natAbs).length ≤ maxIntegerDigits)
    : numberLiteral (Literal.integer n).render = .ok (.integer n) := by
  have hpoint : ¬ (integerText n).toList.contains '.' = true := by
    rw [toList_integerText_eq, List.contains_iff_mem, List.mem_append, pointed, List.append_nil, not_or]
    constructor
    · cases decide (n < 0) <;> simp [minus]
    · intro hmem
      exact absurd (isDigit_toDigits _ hmem) (by decide)
  unfold numberLiteral
  change (if (integerText n).toList.contains '.' then _ else (readInteger (integerText n).toList).map _) = _
  rw [if_neg hpoint, readInteger_integerText h]
  rfl

theorem numberLiteral_float {x : Float} (h : IsPositional x)
    : numberLiteral (Literal.float x).render = .ok (.float x) := by
  obtain ⟨negative, whole, places, -, hplaces, -, -, htext⟩ := h.exists_places
  have hpoint : (Literal.float x).render.toList.contains '.' = true := by
    rw [htext, pointed_of_ne_nil hplaces]
    simp
  unfold numberLiteral
  rw [if_pos hpoint]
  change (readFloat (floatText ⟨"inf", "nan"⟩ x).toList).map _ = _
  rw [readFloat_floatText]
  rfl

end Literal

end LuaTypes
