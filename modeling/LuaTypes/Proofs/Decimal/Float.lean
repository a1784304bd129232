import LuaTypes.Proofs.Decimal.Bits
import LuaTypes.Proofs.Decimal.Layout

/-!
Floating-point numbers are read back from their texts.
-/

namespace LuaTypes.Decimal

open Float.Model Float.Model.UnpackedFloat

namespace Rounding

theorem contains_mul_pow {r : Rounding} {c : Nat} {exponent : Int} (zeros : Nat)
    (hden : 0 < r.denominator)
    : r.contains ⟨c * 10 ^ zeros, exponent - zeros⟩ = r.contains ⟨c, exponent⟩ := by
  have hratio : 10 ^ (-exponent).toNat * (10 ^ zeros * (10 ^ (exponent - zeros).toNat * r.denominator))
      = 10 ^ (-(exponent - zeros)).toNat * (10 ^ exponent.toNat * r.denominator) := by
    simp only [← Nat.mul_assoc, ← Nat.pow_add]
    congr 2
    omega
  have hunit : 0 < 10 ^ exponent.toNat * r.denominator := by positivity
  have hunit' : 0 < 10 ^ zeros * (10 ^ (exponent - zeros).toNat * r.denominator) := by positivity
  have hratio' : 10 ^ exponent.toNat * r.denominator * 10 ^ (-(exponent - zeros)).toNat
      = 10 ^ zeros * (10 ^ (exponent - zeros).toNat * r.denominator) * 10 ^ (-exponent).toNat := by
    rw [Nat.mul_comm, ← hratio, Nat.mul_comm]
  have hlower : ∀ a, a * 10 ^ (-(exponent - zeros)).toNat
      ≤ c * (10 ^ zeros * (10 ^ (exponent - zeros).toNat * r.denominator)) ↔
      a * 10 ^ (-exponent).toNat ≤ c * (10 ^ exponent.toNat * r.denominator) := fun a =>
    (mul_le_mul_iff_of_ratio hratio hunit hunit').symm
  have hupper : ∀ a, c * (10 ^ zeros * (10 ^ (exponent - zeros).toNat * r.denominator))
      ≤ a * 10 ^ (-(exponent - zeros)).toNat ↔
      c * (10 ^ exponent.toNat * r.denominator) ≤ a * 10 ^ (-exponent).toNat := fun a =>
    (mul_le_mul_iff_of_ratio hratio' (by positivity) (by positivity)).symm
  unfold contains
  simp only [Nat.pow_eq, Nat.mul_assoc, ← Nat.not_le, hlower, hupper]

end Rounding

theorem dropWhile_reverse_append (digits : List Char)
    : ∃ zeros : Nat, digits =
        (digits.reverse.dropWhile (· = '0')).reverse ++ List.replicate zeros '0' := by
  refine ⟨(digits.reverse.takeWhile (· = '0')).length, ?_⟩
  have hzeros : (digits.reverse.takeWhile (· = '0')).reverse
      = List.replicate (digits.reverse.takeWhile (· = '0')).length '0' := by
    rw [List.reverse_eq_iff, List.reverse_replicate, List.eq_replicate_iff]
    refine ⟨rfl, fun c hc => ?_⟩
    have := List.all_eq_true.mp List.all_takeWhile c hc
    simpa using this
  rw [← hzeros, ← List.reverse_append, List.takeWhile_append_dropWhile, List.reverse_reverse]

theorem significant_digits {s : Scaled} (hs : 0 < s.coefficient)
    : Significant s.digits.1 ∧
        ∃ zeros : Nat, s = ⟨Nat.ofDigitChars 10 s.digits.1 0 * 10 ^ zeros,
          s.digits.2 + 1 - s.digits.1.length - zeros⟩ := by
  obtain ⟨zeros, hdigits⟩ := dropWhile_reverse_append (Nat.toDigits 10 s.coefficient)
  have hdef : s.digits = (((Nat.toDigits 10 s.coefficient).reverse.dropWhile (· = '0')).reverse,
      s.exponent + (Nat.toDigits 10 s.coefficient).length - 1) := rfl
  rw [hdef]
  dsimp only
  generalize ((Nat.toDigits 10 s.coefficient).reverse.dropWhile (· = '0')).reverse = digits at hdigits ⊢
  have hvalue : s.coefficient = 10 ^ zeros * Nat.ofDigitChars 10 digits 0 := by
    have := Nat.ofDigitChars_ten_toDigits (n := s.coefficient)
    rw [hdigits, Nat.ofDigitChars_append, Nat.ofDigitChars_replicate_zero] at this
    exact this.symm
  have hne : digits ≠ [] := by
    rintro rfl
    rw [Nat.ofDigitChars_nil] at hvalue
    omega
  refine ⟨⟨hne, ?_, ?_⟩, zeros, ?_⟩
  · intro c hc
    apply isDigit_toDigits (n := s.coefficient)
    rw [hdigits]
    exact List.mem_append_left _ hc
  · have := head_toDigits_ne_zero (Nat.ne_of_gt hs)
    obtain ⟨d, ds, rfl⟩ := List.exists_cons_of_ne_nil hne
    rw [hdigits] at this
    exact this
  · obtain ⟨coefficient, exponent⟩ := s
    rw [Nat.mul_comm] at hvalue
    simp only [Scaled.mk.injEq]
    refine ⟨hvalue, ?_⟩
    dsimp only at hdigits
    rw [hdigits, List.length_append, List.length_replicate]
    omega

theorem toFloat_eq {x : Float} {s : Scaled} (hfinite : (Binary.ofFloat x).isFinite)
    (hzero : (Binary.ofFloat x).significand ≠ 0)
    (hs : (Rounding.ofBinary (Binary.ofFloat x).significand (Binary.ofFloat x).scale).contains s)
    : toFloat (Binary.ofFloat x).negative s = x := by
  have hcanonical := canonical_ofFloat hfinite hzero
  have hbounds := magnitude_bounds hcanonical hs
  have hpos := Rounding.coefficient_pos hcanonical.pos hs
  have hpacked := ofModel_pack_finite hfinite hzero
  have hread : Float.Model.ofScientific s.coefficient s.exponent
      = .pack (.finite .positive _ _ hcanonical.pos) :=
    congrArg Float.Model.pack (ofScientific_eq_finite hcanonical hs)
  have hlow : ¬ (s.coefficient = 0 ∨ (Nat.toDigits 10 s.coefficient).length + s.exponent < -400) := by omega
  have hhigh : ¬ 400 < (Nat.toDigits 10 s.coefficient).length + s.exponent := by omega
  unfold toFloat
  dsimp only
  rw [if_neg hlow, if_neg hhigh, hread]
  cases hnegative : (Binary.ofFloat x).negative with
  | true =>
    rw [hnegative] at hpacked
    rw [if_pos rfl, neg_ofModel_pack]
    · exact hpacked
    · exact hcanonical
  | false =>
    rw [hnegative] at hpacked
    rw [if_neg Bool.false_ne_true]
    exact hpacked

theorem exists_numeral_floatText {x : Float} (names : FloatNames) (hfinite : (Binary.ofFloat x).isFinite)
    (hzero : (Binary.ofFloat x).significand ≠ 0)
    : ∃ n : Numeral, (floatText names x).toList = minus (Binary.ofFloat x).negative ++ n.text ∧
        (n.places ≠ [] ∨ n.power ≠ []) ∧ toFloat (Binary.ofFloat x).negative n.value = x := by
  have hcanonical := canonical_ofFloat hfinite hzero
  have hcontains := contains_shortest hcanonical.lt hcanonical.least hcanonical.greatest
  obtain ⟨hsignificant, zeros, hs⟩ := significant_digits
    (Rounding.coefficient_pos hcanonical.pos hcontains)
  obtain ⟨n, htext, ⟨hfloat, zeros', hvalue⟩, -⟩ := exists_numeral_floatLayout
    (shortest (Binary.ofFloat x).significand (Binary.ofFloat x).scale).digits.2 hsignificant
  refine ⟨n, ?_, hfloat, ?_⟩
  · rw [htext]
    unfold floatText
    simp only [hfinite, hzero, Bool.not_true, Bool.false_eq_true, ↓reduceIte, String.toList_append,
      String.toList_ofList]
    cases (Binary.ofFloat x).negative <;> rfl
  · apply toFloat_eq hfinite hzero
    have hden : 0 < (Rounding.ofBinary (Binary.ofFloat x).significand
        (Binary.ofFloat x).scale).denominator := by
      simp [Rounding.ofBinary, Nat.one_shiftLeft]
    rw [hvalue, Rounding.contains_mul_pow _ hden, ← Rounding.contains_mul_pow zeros hden, ← hs]
    exact hcontains

theorem eq_notANumber {x : Float} (hexponent : (Binary.ofFloat x).exponent = 0x7FF)
    (hfraction : (Binary.ofFloat x).fraction ≠ 0)
    : x = notANumber := by
  have hvalid := x.toModel.valid.eq_packedNaN
  have hbits : x.toModel.toBits.toBitVec.toNat = x.toBits.toNat := rfl
  have hpacked : x.toModel.toBits.toBitVec = packedNaN Format.binary64 := by
    apply hvalid
    · apply BitVec.eq_of_toNat_eq
      unfold unpackExponent
      rw [BitVec.toNat_cast, BitVec.extractLsb_toNat, hbits, Nat.shiftRight_eq_div_pow]
      exact hexponent
    · intro hzero
      apply hfraction
      have := congrArg BitVec.toNat hzero
      unfold unpackMantissa at this
      rw [BitVec.toNat_cast, BitVec.extractLsb_toNat, hbits, Nat.shiftRight_eq_div_pow] at this
      simp at this
      exact this
  apply eq_of_toBits_eq
  rw [← hbits, hpacked]
  rfl

theorem eq_special {x : Float}
    (h : ¬ ((Binary.ofFloat x).isFinite ∧ (Binary.ofFloat x).significand ≠ 0))
    : x = 0.0 ∨ x = -0.0 ∨ x = infinity ∨ x = -infinity ∨ x = notANumber := by
  have hbits := toNat_toBits x
  have hleading : 0 < Binary.leading := by decide
  have hsign : ∀ {y : Float}, (Binary.ofFloat x).exponent = (Binary.ofFloat y).exponent →
      (Binary.ofFloat x).fraction = (Binary.ofFloat y).fraction →
      (Binary.ofFloat x).negative = (Binary.ofFloat y).negative → x = y := by
    intro y hexponent hfraction hnegative
    apply eq_of_toBits_eq
    rw [hbits, toNat_toBits y, hexponent, hfraction, hnegative]
  by_cases hfinite : (Binary.ofFloat x).isFinite
  · have hzero : (Binary.ofFloat x).exponent = 0 ∧ (Binary.ofFloat x).fraction = 0 := by
      have : (Binary.ofFloat x).significand = 0 := by
        rw [← Decidable.not_not (p := (Binary.ofFloat x).significand = 0)]
        exact fun hne => h ⟨hfinite, hne⟩
      unfold Binary.significand at this
      split at this <;> omega
    cases hnegative : (Binary.ofFloat x).negative with
    | false => exact .inl (hsign hzero.1 hzero.2 hnegative)
    | true => exact .inr (.inl (hsign hzero.1 hzero.2 hnegative))
  · have hexponent : (Binary.ofFloat x).exponent = 0x7FF := by
      simpa [Binary.isFinite] using hfinite
    by_cases hfraction : (Binary.ofFloat x).fraction = 0
    · cases hnegative : (Binary.ofFloat x).negative with
      | false => exact .inr (.inr (.inl (hsign hexponent hfraction hnegative)))
      | true => exact .inr (.inr (.inr (.inl (hsign hexponent hfraction hnegative))))
    · exact .inr (.inr (.inr (.inr (eq_notANumber hexponent hfraction))))

theorem readFloat_floatText (x : Float) : readFloat (floatText ⟨"inf", "nan"⟩ x).toList = .ok x := by
  by_cases h : (Binary.ofFloat x).isFinite ∧ (Binary.ofFloat x).significand ≠ 0
  · obtain ⟨n, htext, -, hvalue⟩ := exists_numeral_floatText ⟨"inf", "nan"⟩ h.1 h.2
    rw [htext, readFloat_text, hvalue]
  · obtain rfl | rfl | rfl | rfl | rfl := eq_special h
    · rfl
    · rfl
    · rfl
    · rfl
    · rfl

end LuaTypes.Decimal
