import LuaTypes.Decimal.Binary
import Mathlib.Tactic.Ring

/-!
Rounding of fractions to binary numbers. A fraction between the neighbours of a number is rounded to that
number if it lies no farther from it than half of the way, where halves go to the even one.
-/

namespace LuaTypes.Decimal

open Float.Model Float.Model.UnpackedFloat

/--
An extended mantissa that is `num / den` without its places, which the residual bits describe.
-/
structure Truncates (em : ExtendedMantissa) (num den : Nat) : Prop where
  le_num : em.mantissa * den ≤ num
  num_lt : num < em.mantissa * den + den
  roundBit_iff : em.roundBit = true ↔ den ≤ 2 * (num - em.mantissa * den)
  stickyBit_iff : em.stickyBit = true ↔
    2 * (num - em.mantissa * den) ≠ if em.roundBit then den else 0

namespace Truncates

theorem ofMantissaAndAccuracy (num : Nat) {den : Nat} (hden : 0 < den)
    : Truncates (.ofMantissaAndAccuracy (num / den) (accuracyOfFraction (num % den) den)) num den := by
  have hdiv := Nat.div_add_mod' num den
  have hmod := Nat.mod_lt num hden
  unfold accuracyOfFraction
  split
  · constructor <;> simp [ExtendedMantissa.ofMantissaAndAccuracy] <;> omega
  · cases hcompare : compare (2 * (num % den)) den with
    | lt =>
      have := Nat.compare_eq_lt.mp hcompare
      constructor <;> simp [ExtendedMantissa.ofMantissaAndAccuracy] <;> omega
    | eq =>
      have := Nat.compare_eq_eq.mp hcompare
      constructor <;> simp [ExtendedMantissa.ofMantissaAndAccuracy] <;> omega
    | gt =>
      have := Nat.compare_eq_gt.mp hcompare
      constructor <;> simp [ExtendedMantissa.ofMantissaAndAccuracy] <;> omega

theorem exact (num : Nat) : Truncates (.ofMantissaAndAccuracy num .exact) num 1 := by
  have := ofMantissaAndAccuracy num Nat.one_pos
  simpa [accuracyOfFraction, Nat.mod_one] using this

theorem shiftRightOne {em : ExtendedMantissa} {num den : Nat} (h : Truncates em num den)
    : Truncates em.shiftRightOne num (2 * den) := by
  obtain ⟨mantissa, roundBit, stickyBit⟩ := em
  obtain ⟨hle, hlt, hround, hsticky⟩ := h
  dsimp only at hle hlt hround hsticky
  have hhalf : mantissa * den = mantissa / 2 * (2 * den) + mantissa % 2 * den := by
    rw [← Nat.mul_assoc, ← Nat.add_mul, Nat.div_add_mod']
  obtain heven | hodd := Nat.mod_two_eq_zero_or_one mantissa
  · rw [heven, Nat.zero_mul, Nat.add_zero] at hhalf
    rw [hhalf] at hle hlt hround hsticky
    cases roundBit <;> cases stickyBit <;> simp at hround hsticky <;> constructor <;>
      simp [ExtendedMantissa.shiftRightOne, heven] <;> omega
  · rw [hodd, Nat.one_mul] at hhalf
    rw [hhalf] at hle hlt hround hsticky
    cases roundBit <;> cases stickyBit <;> simp at hround hsticky <;> constructor <;>
      simp [ExtendedMantissa.shiftRightOne, hodd] <;> omega

theorem shiftRight {em : ExtendedMantissa} {num den : Nat} (h : Truncates em num den) (k : Nat)
    : Truncates (em >>> k) num (2 ^ k * den) := by
  induction k with
  | zero => simpa [HShiftRight.hShiftRight, Nat.repeat] using h
  | succ k ih =>
    have hstep : em >>> (k + 1) = (em >>> k).shiftRightOne := rfl
    rw [hstep, Nat.pow_succ', Nat.mul_assoc]
    exact ih.shiftRightOne

end Truncates

theorem mantissa_ofMantissaAndAccuracy (mantissa : Nat) (accuracy : Accuracy)
    : (ExtendedMantissa.ofMantissaAndAccuracy mantissa accuracy).mantissa = mantissa := by
  cases accuracy with
  | exact => rfl
  | inexact order => cases order <;> rfl

theorem mantissa_shiftRight (em : ExtendedMantissa) (k : Nat)
    : (em >>> k).mantissa = em.mantissa / 2 ^ k := by
  induction k with
  | zero => simp [HShiftRight.hShiftRight, Nat.repeat]
  | succ k ih =>
    have hstep : em >>> (k + 1) = (em >>> k).shiftRightOne := rfl
    rw [hstep, Nat.pow_succ, ← Nat.div_div_eq_div_mul, ← ih]
    rfl

/--
Is `num / den` between the halves of the ways from `m` to its neighbours? The halves themselves count if `m`
is even.
-/
structure Nearest (m num den : Nat) : Prop where
  le : (2 * m) * den ≤ 2 * num + den
  ge : 2 * num ≤ (2 * m) * den + den
  even : m % 2 = 1 → (2 * m) * den < 2 * num + den ∧ 2 * num < (2 * m) * den + den

theorem Nearest.eq_or_eq {m n num den : Nat} (h : Nearest m num den) (hle : n * den ≤ num)
    (hlt : num < n * den + den)
    : m = n ∨ m = n + 1 := by
  have hle := h.le
  have hge := h.ge
  rw [Nat.mul_assoc] at hle hge
  have hupper : m * den < (n + 2) * den := by
    rw [Nat.add_mul]
    omega
  have hlower : n * den < (m + 1) * den := by
    rw [Nat.add_mul]
    omega
  have := Nat.lt_of_mul_lt_mul_right hupper
  have := Nat.lt_of_mul_lt_mul_right hlower
  omega

theorem roundedMantissa_eq {em : ExtendedMantissa} {m num den : Nat} (h : Truncates em num den)
    (hnear : Nearest m num den)
    : em.roundedMantissa = m := by
  obtain ⟨mantissa, roundBit, stickyBit⟩ := em
  obtain ⟨hle, hlt, hround, hsticky⟩ := h
  dsimp only at hle hlt hround hsticky
  obtain hm | hm := hnear.eq_or_eq hle hlt
  · obtain ⟨hnear₁, hnear₂, heven⟩ := hnear
    subst hm
    rw [Nat.mul_assoc] at hnear₁ hnear₂ heven
    cases roundBit <;> cases stickyBit <;> simp at hround hsticky <;>
      simp [ExtendedMantissa.roundedMantissa, ExtendedMantissa.accuracy, Accuracy.roundToNearestEven] <;>
      omega
  · obtain ⟨hnear₁, hnear₂, heven⟩ := hnear
    subst hm
    rw [Nat.mul_assoc, Nat.add_mul] at hnear₁ hnear₂ heven
    cases roundBit <;> cases stickyBit <;> simp at hround hsticky <;>
      simp [ExtendedMantissa.roundedMantissa, ExtendedMantissa.accuracy, Accuracy.roundToNearestEven] <;>
      omega

structure Canonical (m : Nat) (q : Int) : Prop where
  pos : 0 < m
  lt : m < 2 * Binary.leading
  least : -1074 ≤ q
  greatest : q ≤ 971
  normal : -1074 < q → Binary.leading ≤ m

/--
Is `num / den` in the interval of the reals that round to `m * 2 ^ q`, in units of `2 ^ q`?
-/
structure Within (m : Nat) (q : Int) (num den : Nat) : Prop where
  le : 4 * (m * den) ≤ 4 * num + (if m = Binary.leading ∧ -1074 < q then 1 else 2) * den
  ge : 4 * num ≤ 4 * (m * den) + 2 * den
  odd : m % 2 = 1 → 4 * (m * den) < 4 * num + 2 * den ∧ 4 * num < 4 * (m * den) + 2 * den

theorem Within.nearest {m : Nat} {q : Int} {num den : Nat} (h : Within m q num den)
    : Nearest m num den := by
  obtain ⟨hle, hge, hodd⟩ := h
  have hbelow : (if m = Binary.leading ∧ -1074 < q then 1 else 2) * den ≤ 2 * den := by
    apply Nat.mul_le_mul_right
    split <;> omega
  constructor
  · rw [Nat.mul_assoc]
    omega
  · rw [Nat.mul_assoc]
    omega
  · rw [Nat.mul_assoc]
    omega

theorem Within.nearest_below {m : Nat} {q : Int} {num den : Nat} (h : Within m q num (2 * den))
    (hm : m = Binary.leading) (hq : -1074 < q) (hlt : num < m * (2 * den))
    : Nearest (2 * m) num den := by
  obtain ⟨hle, hge, hodd⟩ := h
  have htwice : m * (2 * den) = 2 * (m * den) := Nat.mul_left_comm _ _ _
  rw [if_pos ⟨hm, hq⟩, htwice] at hle
  rw [htwice] at hlt
  constructor
  · simp only [Nat.mul_assoc]
    omega
  · simp only [Nat.mul_assoc]
    omega
  · omega

theorem targetExponent_eq (m : Nat) (e : Int)
    : Format.binary64.targetExponent (totalExponent m e) = max (m.log2 + e - 52) (-1074) := by
  have hbits : Format.binary64.mantissaBits = 53 := rfl
  have hleast : Format.binary64.minExponent = -1074 := rfl
  rw [Format.targetExponent, totalExponent, hbits, hleast]
  omega

theorem shiftToTargetExponent_eq {m : Nat} {e q : Int} {accuracy : Accuracy}
    (hq : max (m.log2 + e - 52) (-1074) = q) (he : e ≤ q)
    : shiftToTargetExponent Format.binary64 m e accuracy
        =
      (ExtendedMantissa.ofMantissaAndAccuracy m accuracy >>> (q - e).toNat, q) := by
  unfold shiftToTargetExponent
  rw [targetExponent_eq, hq]
  unfold shiftToExponent
  dsimp only
  have : e + ((q - e).toNat : Int) = q := by omega
  rw [this]

theorem log2_eq {m k : Nat} (h : Binary.leading ≤ m / 2 ^ k) (h' : m / 2 ^ k < 2 * Binary.leading)
    : m.log2 = 52 + k := by
  have hpos : 0 < 2 ^ k := Nat.pow_pos (by omega)
  have hm : m ≠ 0 := by
    intro hm
    simp [hm, Binary.leading] at h
  rw [Nat.le_div_iff_mul_le hpos] at h
  rw [Nat.div_lt_iff_lt_mul hpos] at h'
  rw [Nat.log2_eq_iff hm, Nat.pow_add, Nat.pow_add, Nat.pow_add]
  unfold Binary.leading at h h'
  omega

theorem Canonical.shiftToTargetExponent_eq {m : Nat} {q : Int} (h : Canonical m q)
    : shiftToTargetExponent Format.binary64 m q .exact = (⟨m, false, false⟩, q) := by
  have hlog : max (m.log2 + q - 52) (-1074) = q := by
    by_cases hq : -1074 < q
    · have := log2_eq (m := m) (k := 0) (by simpa using h.normal hq) (by simpa using h.lt)
      omega
    · have := (Nat.log2_lt (k := 53) (Nat.ne_of_gt h.pos)).mpr h.lt
      have := h.least
      omega
  rw [Decimal.shiftToTargetExponent_eq hlog (Int.le_refl q), Int.sub_self]
  rfl

theorem shift_target_eq {mantissa m n : Nat} {e q : Int} (hm : Canonical m q) (he : e ≤ q)
    (hn : mantissa / 2 ^ (q - e).toNat = n) (heq : m = n ∨ m = n + 1)
    (hbelow : m = n + 1 → -1074 < q → m ≠ Binary.leading)
    : max (mantissa.log2 + e - 52) (-1074) = q := by
  have hpos : 0 < 2 ^ (q - e).toNat := Nat.pow_pos (by omega)
  have hlt := hm.lt
  by_cases hq : -1074 < q
  · have hnormal := hm.normal hq
    have hlog : mantissa.log2 = 52 + (q - e).toNat := log2_eq (by omega) (by omega)
    omega
  · have hleast := hm.least
    by_cases hzero : mantissa = 0
    · rw [hzero, Nat.log2_zero]
      omega
    · have hmantissa : mantissa / 2 ^ (q - e).toNat < 2 * Binary.leading := by omega
      rw [Nat.div_lt_iff_lt_mul hpos] at hmantissa
      have hlog : mantissa.log2 < 53 + (q - e).toNat := by
        rw [Nat.log2_lt hzero, Nat.pow_add]
        exact hmantissa
      omega

theorem roundWithAccuracy_eq {sign : Sign} {mantissa : Nat} {e q : Int} {accuracy : Accuracy}
    {m num den : Nat} (hem : Truncates (.ofMantissaAndAccuracy mantissa accuracy) num den)
    (hm : Canonical m q) (hwithin : Within m q num (2 ^ (q - e).toNat * den)) (he : e ≤ q)
    (hlt : m = Binary.leading → -1074 < q → num < m * (2 ^ (q - e).toNat * den) → e < q)
    : roundWithAccuracy Format.binary64 sign mantissa e accuracy = .finite sign m q hm.pos := by
  have htruncates := hem.shiftRight (q - e).toNat
  have hshifted : (ExtendedMantissa.ofMantissaAndAccuracy mantissa accuracy >>> (q - e).toNat).mantissa
      = mantissa / 2 ^ (q - e).toNat := by
    rw [mantissa_shiftRight, mantissa_ofMantissaAndAccuracy]
  have heq := hwithin.nearest.eq_or_eq htruncates.le_num htruncates.num_lt
  -- Just below a power of two the quotient has one bit less than `m`: it is rounded twice, the second
  -- time exactly.
  by_cases hbelow : m = mantissa / 2 ^ (q - e).toNat + 1 ∧ m = Binary.leading ∧ -1074 < q
  · obtain ⟨hnext, hleading, hq⟩ := hbelow
    have hlt' : num < m * (2 ^ (q - e).toNat * den) := by
      have := htruncates.num_lt
      rwa [hshifted, ← Nat.succ_mul, Nat.succ_eq_add_one, ← hnext] at this
    have hk : (q - e).toNat = (q - 1 - e).toNat + 1 := by
      have := hlt hleading hq hlt'
      omega
    rw [hk, Nat.pow_succ', Nat.mul_assoc] at hwithin hlt'
    have hnear := hwithin.nearest_below hleading hq hlt'
    have htwice : mantissa / 2 ^ (q - 1 - e).toNat / 2 + 1 = m := by
      rw [Nat.div_div_eq_div_mul, ← Nat.pow_succ, Nat.succ_eq_add_one, ← hk, hnext]
    have hvalue : Binary.leading = 0x10000000000000 := rfl
    have hlog : mantissa.log2 = 52 + (q - 1 - e).toNat := by
      generalize hn : mantissa / 2 ^ (q - 1 - e).toNat = n at htwice
      apply log2_eq <;> rw [hn] <;> omega
    have hlog' : (2 * m).log2 = 52 + 1 := by
      apply log2_eq <;> omega
    have hsecond : (ExtendedMantissa.ofMantissaAndAccuracy (2 * m) .exact >>> (q - (q - 1)).toNat).mantissa
        = m := by
      have : (q - (q - 1)).toNat = 1 := by omega
      rw [mantissa_shiftRight, this, mantissa_ofMantissaAndAccuracy]
      omega
    unfold roundWithAccuracy
    rw [shiftToTargetExponent_eq (q := q - 1) (by omega) (by omega)]
    dsimp only
    rw [roundedMantissa_eq (hem.shiftRight _) hnear, shiftToTargetExponent_eq (q := q) (by omega) (by omega)]
    generalize (ExtendedMantissa.ofMantissaAndAccuracy (2 * m) .exact >>> (q - (q - 1)).toNat).mantissa = n
      at hsecond ⊢
    subst hsecond
    exact dif_neg (Nat.ne_of_gt hm.pos)
  · have hmax : max (mantissa.log2 + e - 52) (-1074) = q :=
      shift_target_eq hm he hshifted.symm heq
        fun hnext hq hleading => hbelow ⟨hshifted ▸ hnext, hleading, hq⟩
    unfold roundWithAccuracy
    rw [shiftToTargetExponent_eq hmax he]
    dsimp only
    rw [roundedMantissa_eq htruncates hwithin.nearest, hm.shiftToTargetExponent_eq]
    exact dif_neg (Nat.ne_of_gt hm.pos)

end LuaTypes.Decimal
