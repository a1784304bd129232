import LuaTypes.Proofs.Decimal.Digits

/-!
Letters and digits are apart, so that the first character of a word tells it from a number.
-/

namespace LuaTypes.Text

def disjointRanges (ranges ranges' : List (Nat × Nat)) : Bool :=
  ranges.all fun r => ranges'.all fun r' => r.2.blt r'.1 || r'.2.blt r.1

theorem inRanges_of_disjoint {ranges ranges' : List (Nat × Nat)} (h : disjointRanges ranges ranges' = true) {n : Nat}
    (hn : inRanges ranges n = true)
    : inRanges ranges' n = false := by
  rw [← Bool.not_eq_true]
  intro hn'
  simp only [inRanges, List.any_eq_true, Bool.and_eq_true, decide_eq_true_eq] at hn hn'
  obtain ⟨r, hr, hle⟩ := hn
  obtain ⟨r', hr', hle'⟩ := hn'
  have hapart := List.all_eq_true.1 (List.all_eq_true.1 h r hr) r' hr'
  simp only [Bool.or_eq_true, Nat.blt_eq] at hapart
  omega

theorem decimalValue?_of_letterRanges {c : Char} (hc : 0x80 ≤ c.toNat) (h : inRanges letterRanges c.toNat = true)
    : decimalValue? c = none := by
  have hdisjoint : disjointRanges letterRanges (decimalZeros.map fun z => (z, z + 9)) = true := by decide +kernel
  have hzeros := inRanges_of_disjoint hdisjoint h
  rw [decimalValue?, if_neg (by omega), Option.map_eq_none_iff, List.find?_eq_none]
  intro z hz hvalue
  simp only [inRanges, List.any_map, List.any_eq_false, Function.comp_apply, Bool.and_eq_true, decide_eq_true_eq]
    at hzeros hvalue
  exact hzeros z hz ⟨hvalue.1, by omega⟩

theorem toNat_of_isAlpha {c : Char} (h : c.isAlpha = true)
    : 65 ≤ c.toNat ∧ c.toNat ≤ 90 ∨ 97 ≤ c.toNat ∧ c.toNat ≤ 122 := by
  have hc : (decide (65 ≤ c.val ∧ c.val ≤ 90) || (decide (97 ≤ c.val) && decide (c.val ≤ 122))) = true := h
  simpa [UInt32.le_iff_toNat_le] using hc

theorem isDigit_of_isAlpha {c : Char} (h : c.isAlpha = true) : isDigit c = false := by
  have hletters : disjointRanges [(65, 90), (97, 122)] digitRanges = true := by decide +kernel
  have hc := toNat_of_isAlpha h
  have hdigit : ¬ c.isDigit := by
    intro hdigit
    have := Decimal.toNat_lt_of_isDigit hdigit
    omega
  rw [isDigit, Decimal.decimalValue?_of_not_isDigit hdigit (by omega)]
  exact inRanges_of_disjoint hletters (by simpa [inRanges] using hc)

theorem isDigit_of_isLetter {c : Char} (h : isLetter c = true) : isDigit c = false := by
  have hdisjoint : disjointRanges letterRanges digitRanges = true := by decide +kernel
  simp only [isLetter, Bool.or_eq_true, Bool.and_eq_true, decide_eq_true_eq] at h
  obtain halpha | ⟨hc, hletter⟩ := h
  · exact isDigit_of_isAlpha halpha
  · rw [isDigit, Bool.or_eq_false_iff]
    exact ⟨by rw [decimalValue?_of_letterRanges hc hletter]; rfl, inRanges_of_disjoint hdisjoint hletter⟩

end LuaTypes.Text
