import LuaTypes.Proofs.Json.RoundTrip
import LuaTypes.Proofs.Text.Ascii

/-!
On one line a value is written in printable ASCII characters only.
-/

namespace LuaTypes.Json

open Decimal Text

def IsAscii (s : List Char) : Prop :=
  ∀ c ∈ s, IsPrintableAscii c

theorem all_iff_isAscii {s : List Char} : s.all (decide <| IsPrintableAscii ·) ↔ IsAscii s := by
  simp [IsAscii]

instance : DecidablePred IsAscii := fun _ => decidable_of_iff _ all_iff_isAscii

theorem isAscii_append {s t : List Char} : IsAscii (s ++ t) ↔ IsAscii s ∧ IsAscii t := by
  simp only [IsAscii, List.mem_append]
  grind

theorem isAscii_cons {c : Char} {s : List Char} : IsAscii (c :: s) ↔ IsPrintableAscii c ∧ IsAscii s := by
  simp [IsAscii]

theorem isAscii_nil : IsAscii [] := by
  simp [IsAscii]

theorem isPrintableAscii_digitChar : ∀ n < 16, IsPrintableAscii (Nat.digitChar n) := by
  decide

theorem isAscii_escapeUnit {n : Nat} (h : n < 0x10000) : IsAscii (escapeUnit n) := by
  unfold escapeUnit
  rw [hexDigits_four h]
  simp only [isAscii_cons]
  refine ⟨by decide, by decide, ?_, ?_, ?_, ?_, isAscii_nil⟩
  all_goals
    apply isPrintableAscii_digitChar
    omega

theorem isAscii_escapePair (c : Char) : IsAscii (escapePair c) := by
  have := toNat_lt c
  simp only [escapePair, isAscii_append]
  constructor
  · apply isAscii_escapeUnit
    omega
  · apply isAscii_escapeUnit
    omega

theorem isAscii_escapeChar (c : Char) : IsAscii (escapeChar c) := by
  unfold escapeChar
  iterate 7
    split
    · decide
  split
  next h => simpa [IsAscii, IsPrintableAscii] using h
  next =>
    split
    next h => exact isAscii_escapeUnit h
    next => exact isAscii_escapePair c

theorem isAscii_escape (cs : List Char) : IsAscii (escape cs) := by
  fun_induction escape cs with
  | case1 => exact isAscii_nil
  | case2 c => exact isAscii_escapeChar c
  | case3 c d cs h ih =>
    rw [isAscii_append, isAscii_append]
    exact ⟨⟨isAscii_escapePair c, isAscii_escapePair d⟩, ih⟩
  | case4 c d cs h ih =>
    rw [isAscii_append]
    exact ⟨isAscii_escapeChar c, ih⟩

theorem isAscii_printString (s : String) : IsAscii (printString s).toList := by
  have hmark : IsPrintableAscii '"' := by decide
  simp [printString, isAscii_cons, isAscii_append, hmark, isAscii_escape, isAscii_nil]

theorem isPrintableAscii_of_isNumeralChar {c : Char} (h : isNumeralChar c) : IsPrintableAscii c := by
  simp only [isNumeralChar, Bool.or_eq_true, decide_eq_true_eq] at h
  obtain ((((h | rfl) | rfl) | rfl) | rfl) := h
  · have := toNat_lt_of_isDigit h
    unfold IsPrintableAscii
    omega
  all_goals decide

theorem isAscii_numeral (negative : Bool) (n : Numeral) : IsAscii (minus negative ++ n.text) := by
  intro c hc
  apply isPrintableAscii_of_isNumeralChar
  rw [List.mem_append] at hc
  cases hc with
  | inl hc => exact isNumeralChar_of_mem_minus c hc
  | inr hc => exact n.isNumeralChar_of_mem_text c hc

theorem isAscii_integerText (n : Int) : IsAscii (integerText n).toList := by
  rw [toList_integerText]
  exact isAscii_numeral _ _

theorem isAscii_floatText (x : Float) : IsAscii (floatText floatNames x).toList := by
  by_cases h : (Binary.ofFloat x).isFinite ∧ (Binary.ofFloat x).significand ≠ 0
  · obtain ⟨n, htext, -⟩ := exists_numeral_floatText floatNames h.1 h.2
    rw [htext]
    exact isAscii_numeral _ _
  · obtain rfl | rfl | rfl | rfl | rfl := eq_special h
    all_goals decide

theorem isAscii_printItems {vs : List Json} (h : ∀ v ∈ vs, ∀ depth, IsAscii (v.print .compact depth).toList)
    (depth : Nat)
    : IsAscii (printItems .compact depth vs).toList := by
  have hcomma : IsPrintableAscii ',' := by decide
  induction vs with
  | nil => exact isAscii_nil
  | cons v vs ih =>
    have hv := h v (by simp) depth
    have hvs := ih fun u hu => h u (by simp [hu])
    simp [printItems, Layout.lineStart, isAscii_cons, isAscii_append, hcomma, hv, hvs]

theorem isAscii_printMembers {ms : List (String × Json)}
    (h : ∀ m ∈ ms, ∀ depth, IsAscii (m.2.print .compact depth).toList) (depth : Nat)
    : IsAscii (printMembers .compact depth ms).toList := by
  have hcomma : IsPrintableAscii ',' := by decide
  have hcolon : IsPrintableAscii ':' := by decide
  induction ms with
  | nil => exact isAscii_nil
  | cons m ms ih =>
    obtain ⟨k, v⟩ := m
    have hv := h (k, v) (by simp) depth
    have hms := ih fun u hu => h u (by simp [hu])
    simp [printMembers, Layout.lineStart, Layout.colon, isAscii_cons, isAscii_append, hcomma, hcolon,
      isAscii_printString, hv, hms]

theorem isAscii_print {v : Json} (h : Storable v) (depth : Nat) : IsAscii (v.print .compact depth).toList := by
  induction h generalizing depth with
  | null =>
    rw [print]
    decide
  | boolean b =>
    cases b
    all_goals
      rw [print]
      decide
  | integer => exact isAscii_integerText _
  | float x => exact isAscii_floatText x
  | string s => exact isAscii_printString s
  | array _ ih =>
    rename_i items _
    have hopen : IsPrintableAscii '[' := by decide
    have hclose : IsPrintableAscii ']' := by decide
    cases items with
    | nil =>
      rw [print]
      decide
    | cons v vs =>
      have hv := ih v (by simp) (depth + 1)
      have hvs := isAscii_printItems (fun u hu => ih u (List.mem_cons_of_mem v hu)) (depth + 1)
      simp [print, Layout.lineStart, isAscii_cons, isAscii_append, hopen, hclose, hv, hvs, isAscii_nil]
  | object _ _ ih =>
    rename_i members _ _
    have hopen : IsPrintableAscii '{' := by decide
    have hclose : IsPrintableAscii '}' := by decide
    have hcolon : IsPrintableAscii ':' := by decide
    cases members with
    | nil =>
      rw [print]
      decide
    | cons m ms =>
      obtain ⟨k, v⟩ := m
      have hv := ih (k, v) (by simp) (depth + 1)
      have hms := isAscii_printMembers (fun u hu => ih u (List.mem_cons_of_mem (k, v) hu)) (depth + 1)
      simp [print, Layout.lineStart, Layout.colon, isAscii_cons, isAscii_append, hopen, hclose, hcolon,
        isAscii_printString, hv, hms, isAscii_nil]

end LuaTypes.Json
