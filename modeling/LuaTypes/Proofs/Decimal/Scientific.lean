import LuaTypes.Proofs.Decimal.Rounding
import LuaTypes.Proofs.Decimal.Shortest
import Mathlib.Tactic.Positivity

/-!
Decimals in the interval of a binary number are read as that number.
-/

namespace LuaTypes.Decimal

open Float.Model Float.Model.UnpackedFloat

theorem mul_le_mul_iff_of_ratio {a b x y x' y' : Nat} (h : x * y' = x' * y) (hy : 0 < y) (hy' : 0 < y')
    : a * x ≤ b * y ↔ a * x' ≤ b * y' := by
  calc a * x ≤ b * y ↔ a * x * y' ≤ b * y * y' := (Nat.mul_le_mul_right_iff hy').symm
    _ ↔ a * x' * y ≤ b * y' * y := by
      rw [Nat.mul_assoc a, h, ← Nat.mul_assoc, Nat.mul_right_comm b]
    _ ↔ a * x' ≤ b * y' := Nat.mul_le_mul_right_iff hy

namespace Rounding

variable {m : Nat} {q : Int} {s : Scaled}

theorem bounds_of_contains {r : Rounding} (h : r.contains s)
    : r.least * 10 ^ (-s.exponent).toNat ≤ s.coefficient * (10 ^ s.exponent.toNat * r.denominator) ∧
      s.coefficient * (10 ^ s.exponent.toNat * r.denominator)
        ≤ r.greatest * 10 ^ (-s.exponent).toNat ∧
      (r.closed = false →
        r.least * 10 ^ (-s.exponent).toNat < s.coefficient * (10 ^ s.exponent.toNat * r.denominator) ∧
        s.coefficient * (10 ^ s.exponent.toNat * r.denominator)
          < r.greatest * 10 ^ (-s.exponent).toNat) := by
  unfold contains at h
  simp only [Nat.pow_eq, Nat.mul_assoc] at h
  split at h
  · rename_i hclosed
    simp only [Bool.and_eq_true, decide_eq_true_eq] at h
    exact ⟨h.1, h.2, fun hopen => by simp [hclosed] at hopen⟩
  · simp only [Bool.and_eq_true, decide_eq_true_eq] at h
    exact ⟨Nat.le_of_lt h.1, Nat.le_of_lt h.2, fun _ => h⟩

theorem within_of_contains {num den y : Nat} (h : (ofBinary m q).contains s)
    (hratio : 2 ^ (q - 2).toNat * 10 ^ (-s.exponent).toNat * y
      = den * (10 ^ s.exponent.toNat * 2 ^ (2 - q).toNat))
    (hy : 0 < y) (hnum : s.coefficient * y = 4 * num)
    : Within m q num den := by
  obtain ⟨hle, hge, hodd⟩ := bounds_of_contains h
  simp only [ofBinary, Nat.one_shiftLeft, Nat.mul_assoc (_ - _), Nat.mul_assoc (_ + _)] at hle hge hodd
  have hunit : 0 < 10 ^ s.exponent.toNat * 2 ^ (2 - q).toNat :=
    Nat.mul_pos (Nat.pow_pos (by omega)) (Nat.pow_pos (by omega))
  have hscale : 0 < 2 ^ (q - 2).toNat * 10 ^ (-s.exponent).toNat :=
    Nat.mul_pos (Nat.pow_pos (by omega)) (Nat.pow_pos (by omega))
  generalize 10 ^ s.exponent.toNat * 2 ^ (2 - q).toNat = unit at hratio hle hge hodd hunit
  generalize 2 ^ (q - 2).toNat * 10 ^ (-s.exponent).toNat = scale at hratio hle hge hodd hscale
  have hden : 0 < den := by
    apply Nat.pos_of_mul_pos_right (b := unit)
    rw [← hratio]
    exact Nat.mul_pos hscale hy
  have hlower : ∀ a, a * scale ≤ s.coefficient * unit ↔ a * den ≤ 4 * num := fun a => by
    rw [mul_le_mul_iff_of_ratio hratio hunit hy, hnum]
  have hratio' : unit * den = y * scale := by
    rw [Nat.mul_comm unit, ← hratio, Nat.mul_comm]
  have hupper : ∀ a, s.coefficient * unit ≤ a * scale ↔ 4 * num ≤ a * den := fun a => by
    rw [mul_le_mul_iff_of_ratio hratio' hscale hden, hnum]
  have hbelow : (if m = Binary.leading ∧ -1074 < q then 1 else 2) ≤ 2 := by split <;> omega
  rw [hlower, Nat.sub_mul, Nat.mul_assoc] at hle
  rw [hupper, Nat.add_mul, Nat.mul_assoc] at hge
  refine ⟨by omega, hge, fun hm => ?_⟩
  obtain ⟨hlt, hgt⟩ := hodd (by simp [hm])
  have hnot : ¬ (m = Binary.leading ∧ -1074 < q) := by
    intro hleading
    rw [hleading.1] at hm
    simp [Binary.leading] at hm
  rw [← Nat.not_le, hupper, if_neg hnot, Nat.sub_mul, Nat.mul_assoc] at hlt
  rw [← Nat.not_le, hlower, Nat.add_mul, Nat.mul_assoc] at hgt
  omega

theorem coefficient_pos (hm : 0 < m) (h : (ofBinary m q).contains s) : 0 < s.coefficient := by
  have hle := (bounds_of_contains h).1
  simp only [ofBinary, Nat.one_shiftLeft] at hle
  apply Nat.pos_of_mul_pos_right
  refine Nat.lt_of_lt_of_le ?_ hle
  have hbelow : (if m = Binary.leading ∧ -1074 < q then 1 else 2) ≤ 2 := by split <;> omega
  refine Nat.mul_pos (Nat.mul_pos ?_ (Nat.pow_pos (by omega))) (Nat.pow_pos (by omega))
  omega

theorem coefficient_mul_lt (hm : Canonical m q) (h : (ofBinary m q).contains s)
    : s.coefficient * (10 ^ s.exponent.toNat * 2 ^ (2 - q).toNat)
        <
      2 ^ 55 * 2 ^ (q - 2).toNat * 10 ^ (-s.exponent).toNat := by
  have hge := (bounds_of_contains h).2.1
  simp only [ofBinary, Nat.one_shiftLeft] at hge
  refine Nat.lt_of_le_of_lt hge ?_
  apply Nat.mul_lt_mul_of_pos_right _ (Nat.pow_pos (by omega))
  apply Nat.mul_lt_mul_of_pos_right _ (Nat.pow_pos (by omega))
  have := hm.lt
  unfold Binary.leading at this
  omega

theorem lt_coefficient_mul (hm : Canonical m q) (h : (ofBinary m q).contains s)
    : 2 ^ (q - 2).toNat * 10 ^ (-s.exponent).toNat
        <
      s.coefficient * (10 ^ s.exponent.toNat * 2 ^ (2 - q).toNat) := by
  have hle := (bounds_of_contains h).1
  simp only [ofBinary, Nat.one_shiftLeft] at hle
  refine Nat.lt_of_lt_of_le ?_ hle
  apply Nat.mul_lt_mul_of_pos_right _ (Nat.pow_pos (by omega))
  have hpow : 0 < 2 ^ (q - 2).toNat := Nat.pow_pos (by omega)
  have hbelow : (if m = Binary.leading ∧ -1074 < q then 1 else 2) ≤ 2 := by split <;> omega
  have := hm.pos
  calc 2 ^ (q - 2).toNat = 1 * 2 ^ (q - 2).toNat := (Nat.one_mul _).symm
    _ < _ := Nat.mul_lt_mul_of_pos_right (by omega) hpow

end Rounding

theorem lt_pow_length_toDigits (c : Nat) : c < 10 ^ (Nat.toDigits 10 c).length :=
  (Nat.length_toDigits_le_iff (by omega) Nat.length_toDigits_pos).mp (Nat.le_refl _)

theorem pow_length_toDigits_le {c : Nat} (hc : 0 < c) : 10 ^ ((Nat.toDigits 10 c).length - 1) ≤ c := by
  by_cases h : (Nat.toDigits 10 c).length - 1 = 0
  · rw [h]
    exact hc
  · rw [← Nat.not_lt, ← Nat.length_toDigits_le_iff (by omega) (by omega)]
    omega

theorem length_toDigits_le_log2 {c : Nat} (hc : 0 < c) : (Nat.toDigits 10 c).length ≤ c.log2 + 1 := by
  have hle : 2 ^ ((Nat.toDigits 10 c).length - 1) ≤ c :=
    Nat.le_trans (Nat.pow_le_pow_left (by omega) _) (pow_length_toDigits_le hc)
  have := (Nat.le_log2 (Nat.ne_of_gt hc)).mpr hle
  omega

theorem magnitude_bounds {m : Nat} {q : Int} {s : Scaled} (hm : Canonical m q)
    (h : (Rounding.ofBinary m q).contains s)
    : -400 ≤ (Nat.toDigits 10 s.coefficient).length + s.exponent ∧
      (Nat.toDigits 10 s.coefficient).length + s.exponent ≤ 400 := by
  have hc := Rounding.coefficient_pos hm.pos h
  have hleast := hm.least
  have hgreatest := hm.greatest
  have hupper := Rounding.coefficient_mul_lt hm h
  have hlower := Rounding.lt_coefficient_mul hm h
  have hlength := Nat.length_toDigits_pos (b := 10) (n := s.coefficient)
  -- All is compared with powers of ten, where the exponents can be read off.
  constructor
  · have hpow : 10 ^ (-s.exponent).toNat
        < 10 ^ ((Nat.toDigits 10 s.coefficient).length + s.exponent.toNat + 359) := by
      calc 10 ^ (-s.exponent).toNat
          ≤ 2 ^ (q - 2).toNat * 10 ^ (-s.exponent).toNat := Nat.le_mul_of_pos_left _ (by positivity)
        _ < s.coefficient * (10 ^ s.exponent.toNat * 2 ^ (2 - q).toNat) := hlower
        _ ≤ 10 ^ (Nat.toDigits 10 s.coefficient).length * (10 ^ s.exponent.toNat * 10 ^ 359) := by
          apply Nat.mul_le_mul (Nat.le_of_lt (lt_pow_length_toDigits _))
          apply Nat.mul_le_mul_left
          exact Nat.le_of_lt (pow_two_lt_pow_ten (by omega))
        _ = _ := by rw [← Nat.mul_assoc, ← Nat.pow_add, ← Nat.pow_add]
    have := (Nat.pow_lt_pow_iff_right (by omega)).mp hpow
    omega
  · have hpow : 10 ^ ((Nat.toDigits 10 s.coefficient).length - 1 + s.exponent.toNat)
        < 10 ^ (342 + (-s.exponent).toNat) := by
      calc 10 ^ ((Nat.toDigits 10 s.coefficient).length - 1 + s.exponent.toNat)
          = 10 ^ ((Nat.toDigits 10 s.coefficient).length - 1) * 10 ^ s.exponent.toNat := Nat.pow_add _ _ _
        _ ≤ s.coefficient * (10 ^ s.exponent.toNat * 2 ^ (2 - q).toNat) :=
          Nat.mul_le_mul (pow_length_toDigits_le hc) (Nat.le_mul_of_pos_right _ (by positivity))
        _ < 2 ^ 55 * 2 ^ (q - 2).toNat * 10 ^ (-s.exponent).toNat := hupper
        _ ≤ 10 ^ 342 * 10 ^ (-s.exponent).toNat := by
          apply Nat.mul_le_mul_right
          rw [← Nat.pow_add]
          exact Nat.le_of_lt (pow_two_lt_pow_ten (by omega))
        _ = 10 ^ (342 + (-s.exponent).toNat) := by rw [Nat.pow_add]
    have := (Nat.pow_lt_pow_iff_right (by omega)).mp hpow
    omega

theorem mul_eq_finite {m c e : Nat} {q : Int} (hm : Canonical m q)
    (h : (Rounding.ofBinary m q).contains ⟨c, e⟩) (hc : 0 < c <<< 53) (he : 0 < 10 ^ e)
    : UnpackedFloat.mul Format.binary64 (.finite .positive (c <<< 53) (-53) hc)
        (.finite .positive (10 ^ e) 0 he)
        =
      .finite .positive m q hm.pos := by
  have hneg : (-(e : Int)).toNat = 0 := by omega
  have hq : -53 < q := by
    have hlt := Rounding.coefficient_mul_lt hm h
    have hpos := Rounding.coefficient_pos hm.pos h
    dsimp only [Int.toNat_natCast] at hlt hpos
    rw [hneg, ← Nat.mul_assoc, Nat.pow_zero, Nat.mul_one, ← Nat.pow_add] at hlt
    have hle : 2 ^ (2 - q).toNat ≤ c * 10 ^ e * 2 ^ (2 - q).toNat :=
      Nat.le_mul_of_pos_left _ (Nat.mul_pos hpos he)
    have := (Nat.pow_lt_pow_iff_right (by omega)).mp (Nat.lt_of_le_of_lt hle hlt)
    omega
  have hwithin : Within m q (c <<< 53 * 10 ^ e) (2 ^ (q - (-53 + 0)).toNat * 1) := by
    apply Rounding.within_of_contains h (y := 4 * 2 ^ 53 * 10 ^ e)
    · dsimp only [Int.toNat_natCast]
      have hpow : 2 ^ (q - 2).toNat * (4 * 2 ^ 53) = 2 ^ (q + 53).toNat * 2 ^ (2 - q).toNat := by
        have hfour : 4 * 2 ^ 53 = 2 ^ 55 := by norm_num
        rw [hfour, ← Nat.pow_add, ← Nat.pow_add]
        congr 1
        omega
      have hsub : q - (-53 + 0) = q + 53 := by omega
      rw [hneg, hsub, Nat.pow_zero, Nat.mul_one, Nat.mul_one, ← Nat.mul_assoc, hpow, Nat.mul_assoc,
        Nat.mul_comm (2 ^ (2 - q).toNat)]
    · positivity
    · rw [Nat.shiftLeft_eq]
      ring
  apply roundWithAccuracy_eq (Truncates.exact _) hm hwithin
  · omega
  · intros
    omega

theorem log2_sub_log2_le {m c e : Nat} {q : Int} (hm : Canonical m q)
    (h : (Rounding.ofBinary m q).contains ⟨c, -e⟩)
    : (c.log2 : Int) - (10 ^ e).log2 ≤ q + 53 := by
  have hlt := Rounding.coefficient_mul_lt hm h
  have hc := Rounding.coefficient_pos hm.pos h
  have hzero : (-(e : Int)).toNat = 0 := by omega
  dsimp only at hlt hc
  rw [hzero, Int.neg_neg, Int.toNat_natCast, Nat.pow_zero, Nat.one_mul] at hlt
  have hlow : 2 ^ (c.log2 + (2 - q).toNat) ≤ c * 2 ^ (2 - q).toNat := by
    rw [Nat.pow_add]
    exact Nat.mul_le_mul_right _ (Nat.log2_self_le (Nat.ne_of_gt hc))
  have hhigh : 2 ^ 55 * 2 ^ (q - 2).toNat * 10 ^ e
      < 2 ^ (55 + (q - 2).toNat + ((10 ^ e).log2 + 1)) := by
    rw [Nat.pow_add 2 (55 + _), Nat.pow_add]
    exact Nat.mul_lt_mul_of_pos_left Nat.lt_log2_self (by positivity)
  have := (Nat.pow_lt_pow_iff_right (by omega)).mp (Nat.lt_trans (Nat.lt_of_le_of_lt hlow hlt) hhigh)
  omega

theorem div_eq_finite {m c e : Nat} {q : Int} (hm : Canonical m q)
    (h : (Rounding.ofBinary m q).contains ⟨c, -e⟩) (hc : 0 < c) (he : 0 < 10 ^ e)
    : UnpackedFloat.div Format.binary64 (.finite .positive c 0 hc) (.finite .positive (10 ^ e) 0 he)
        =
      .finite .positive m q hm.pos := by
  unfold UnpackedFloat.div divCore
  have htarget : min (0 - 0) (Format.binary64.targetExponent (totalExponent c 0 - totalExponent (10 ^ e) 0))
      = min 0 (max ((c.log2 : Int) - (10 ^ e).log2 - 53) (-1074)) := by
    have hbits : Format.binary64.mantissaBits = 53 := rfl
    have hleast : Format.binary64.minExponent = -1074 := rfl
    rw [Format.targetExponent, totalExponent, totalExponent, hbits, hleast]
    omega
  dsimp only
  rw [htarget]
  have hlog := log2_sub_log2_le hm h
  have hleast := hm.least
  generalize hte : min 0 (max ((c.log2 : Int) - (10 ^ e).log2 - 53) (-1074)) = te
  have hle : te ≤ q := by omega
  have hshift : (0 - 0 - te).toNat = (-te).toNat := by omega
  have hwithin : Within m q (c <<< (0 - 0 - te).toNat) (2 ^ (q - te).toNat * 10 ^ e) := by
    apply Rounding.within_of_contains h (y := 4 * 2 ^ (-te).toNat)
    · dsimp only
      have hpow : 2 ^ (q - 2).toNat * (4 * 2 ^ (-te).toNat) = 2 ^ (q - te).toNat * 2 ^ (2 - q).toNat := by
        have hfour : 4 = 2 ^ 2 := by norm_num
        rw [hfour, ← Nat.pow_add, ← Nat.pow_add, ← Nat.pow_add]
        congr 1
        omega
      have hzero : (-(e : Int)).toNat = 0 := by omega
      rw [hzero, Int.neg_neg, Int.toNat_natCast, Nat.pow_zero, Nat.one_mul, Nat.mul_right_comm, hpow,
        Nat.mul_right_comm]
    · positivity
    · rw [hshift, Nat.shiftLeft_eq]
      ring
  apply roundWithAccuracy_eq (Truncates.ofMantissaAndAccuracy _ he) hm hwithin hle
  intro hleading hq hlt
  rw [hshift, Nat.shiftLeft_eq, hleading] at hlt
  have hlow : 2 ^ (c.log2 + (-te).toNat) ≤ c * 2 ^ (-te).toNat := by
    rw [Nat.pow_add]
    exact Nat.mul_le_mul_right _ (Nat.log2_self_le (Nat.ne_of_gt hc))
  have hhigh : Binary.leading * (2 ^ (q - te).toNat * 10 ^ e)
      < 2 ^ (52 + (q - te).toNat + ((10 ^ e).log2 + 1)) := by
    have hleading : Binary.leading = 2 ^ 52 := rfl
    rw [Nat.pow_add 2 (52 + _), Nat.pow_add, hleading, ← Nat.mul_assoc]
    exact Nat.mul_lt_mul_of_pos_left Nat.lt_log2_self (by positivity)
  have := (Nat.pow_lt_pow_iff_right (by omega)).mp (Nat.lt_trans (Nat.lt_of_le_of_lt hlow hlt) hhigh)
  omega

theorem ofScientific_eq_finite {m : Nat} {q : Int} {s : Scaled} (hm : Canonical m q)
    (h : (Rounding.ofBinary m q).contains s)
    : UnpackedFloat.ofScientific Format.binary64 s.coefficient s.exponent
        =
      .finite .positive m q hm.pos := by
  obtain ⟨c, exponent⟩ := s
  have hc : 0 < c := Rounding.coefficient_pos hm.pos h
  have hbounds := magnitude_bounds hm h
  have hlength := length_toDigits_le_log2 hc
  have hbits : (2 : Int) ^ Format.binary64.exponentBits = 2048 := rfl
  dsimp only at hbounds
  unfold UnpackedFloat.ofScientific
  dsimp only
  rw [dif_neg (Nat.ne_of_gt hc), if_neg (by omega), if_neg (by omega)]
  by_cases hsign : 0 ≤ exponent
  · rw [if_pos hsign]
    obtain ⟨e, rfl⟩ := Int.eq_ofNat_of_zero_le hsign
    exact mul_eq_finite hm h _ _
  · rw [if_neg hsign]
    obtain ⟨e, rfl⟩ : ∃ e : Nat, exponent = -e := ⟨exponent.natAbs, by omega⟩
    have he : (- -(e : Int)).toNat = e := by omega
    have hdiv : ∀ (k : Nat) (hk : 0 < 10 ^ k), k = e →
        UnpackedFloat.div Format.binary64 (.finite .positive c 0 hc) (.finite .positive (10 ^ k) 0 hk)
          = .finite .positive m q hm.pos := by
      rintro k hk rfl
      exact div_eq_finite hm h hc hk
    exact hdiv _ _ he

end LuaTypes.Decimal
