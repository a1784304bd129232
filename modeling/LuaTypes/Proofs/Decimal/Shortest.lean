import LuaTypes.Decimal.Shortest
import Mathlib.Tactic.Ring

/-!
The search for the shortest decimal never fails: for every number of 64 bits, it ends on a decimal that
lies in the interval of the reals that round to the number.
-/

namespace LuaTypes.Decimal

namespace Rounding

theorem onGrid?_contains {r : Rounding} {exponent : Int} {s : Scaled}
    (h : r.onGrid? exponent = some s)
    : r.contains s := by
  unfold onGrid? at h
  dsimp only at h
  split at h
  · cases h
  · rename_i hlow _
    cases h
    exact hlow
  · rename_i _ hhigh
    cases h
    exact hhigh
  · rename_i hlow hhigh
    split at h
    · cases h
      exact hlow
    split at h
    · cases h
      exact hhigh
    split at h
    · cases h
      exact hlow
    · cases h
      exact hhigh

theorem search_contains {r : Rounding} {grids k : Nat} {exponent : Int} (hk : k < grids)
    (h : (r.onGrid? (exponent - k)).isSome)
    : r.contains (r.search grids exponent) := by
  induction grids generalizing k exponent with
  | zero => omega
  | succ grids ih =>
    unfold search
    cases hgrid : r.onGrid? exponent with
    | some s => exact onGrid?_contains hgrid
    | none =>
      cases k with
      | zero => simp [hgrid] at h
      | succ k =>
        apply ih (k := k) (by omega)
        have : exponent - 1 - k = exponent - (k + 1 : Nat) := by omega
        rwa [this]

theorem onGrid?_isSome {r : Rounding} {exponent : Int} (hleast : r.least ≤ r.value)
    (hunit : r.value * 10 ^ (-exponent).toNat + 10 ^ exponent.toNat * r.denominator
      < r.greatest * 10 ^ (-exponent).toNat)
    (hpos : 0 < r.denominator)
    : (r.onGrid? exponent).isSome := by
  have hpos : 0 < 10 ^ exponent.toNat * r.denominator :=
    Nat.mul_pos (Nat.pow_pos (by omega)) hpos
  -- The first multiple above the value is at most one unit away, so it is contained.
  have hhigh : r.contains
      ⟨r.value * 10 ^ (-exponent).toNat / (10 ^ exponent.toNat * r.denominator) + 1, exponent⟩ := by
    unfold contains
    dsimp only [Nat.pow_eq]
    rw [Nat.mul_assoc]
    generalize hu : 10 ^ exponent.toNat * r.denominator = unit at hunit hpos ⊢
    generalize hs : 10 ^ (-exponent).toNat = scale at hunit ⊢
    have hlow : r.least * scale ≤ r.value * scale := Nat.mul_le_mul_right _ hleast
    have hlt : r.value * scale < (r.value * scale / unit + 1) * unit := by
      rw [Nat.mul_comm (_ + 1)]
      exact Nat.lt_mul_div_succ _ hpos
    have hle : (r.value * scale / unit + 1) * unit ≤ r.value * scale + unit := by
      rw [Nat.succ_mul]
      have := Nat.div_mul_le_self (r.value * scale) unit
      omega
    split
    · simp only [Bool.and_eq_true, decide_eq_true_eq]
      omega
    · simp only [Bool.and_eq_true, decide_eq_true_eq]
      omega
  unfold onGrid?
  simp only [Nat.pow_eq]
  rw [hhigh]
  split
  · simp_all
  · simp_all
  · simp
  · split
    · simp
    split
    · simp
    split <;> simp

end Rounding

theorem pow_ten_lt_pow_two {a b : Nat} (h : 10 * a < 3 * b) : 10 ^ a < 2 ^ b := by
  have hcube : (10 ^ a) ^ 3 < (2 ^ b) ^ 3 := by
    calc (10 ^ a) ^ 3 = (10 ^ 3) ^ a := by rw [← pow_mul, ← pow_mul, Nat.mul_comm]
      _ ≤ (2 ^ 10) ^ a := Nat.pow_le_pow_left (by omega) _
      _ = 2 ^ (10 * a) := by rw [pow_mul]
      _ < 2 ^ (3 * b) := Nat.pow_lt_pow_right (by omega) h
      _ = (2 ^ b) ^ 3 := by rw [← pow_mul, Nat.mul_comm]
  exact lt_of_pow_lt_pow_left₀ 3 (Nat.zero_le _) hcube

theorem pow_two_lt_pow_ten {a b : Nat} (h : 28 * b < 93 * a) : 2 ^ b < 10 ^ a := by
  have hpow : (2 ^ b) ^ 28 < (10 ^ a) ^ 28 := by
    calc (2 ^ b) ^ 28 = 2 ^ (28 * b) := by rw [← pow_mul, Nat.mul_comm]
      _ < 2 ^ (93 * a) := Nat.pow_lt_pow_right (by omega) h
      _ = (2 ^ 93) ^ a := by rw [pow_mul]
      _ ≤ (10 ^ 28) ^ a := Nat.pow_le_pow_left (by decide) _
      _ = (10 ^ a) ^ 28 := by rw [← pow_mul, ← pow_mul, Nat.mul_comm]
  exact lt_of_pow_lt_pow_left₀ 28 (Nat.zero_le _) hpow

theorem log2_le_of_lt {m : Nat} (hm : m < 2 * Binary.leading) : m.log2 ≤ 52 := by
  by_cases h : m = 0
  · simp [h]
  · have := (Nat.log2_lt h (k := 53)).mpr hm
    omega

theorem finest_unit_lt {m : Nat} {q exponent : Int} (hm : m < 2 * Binary.leading) (hleast : -1074 ≤ q)
    (hgreatest : q ≤ 971) (hexp : exponent = ((m.log2 : Int) + q) * 30103 / 100000 - 21)
    : 10 ^ exponent.toNat * 2 ^ (2 - q).toNat
        <
      2 * 2 ^ (q - 2).toNat * 10 ^ (-exponent).toNat := by
  have hlog := log2_le_of_lt hm
  by_cases hsign : 0 ≤ exponent
  · have hq₀ : (2 - q).toNat = 0 := by omega
    have he₀ : (-exponent).toNat = 0 := by omega
    have hlt : 10 ^ exponent.toNat < 2 ^ ((q - 2).toNat + 1) := pow_ten_lt_pow_two (by omega)
    rw [Nat.pow_succ] at hlt
    rw [hq₀, he₀]
    omega
  · have he₀ : exponent.toNat = 0 := by omega
    have hlt : 2 ^ (1 - q).toNat < 10 ^ (-exponent).toNat := pow_two_lt_pow_ten (by omega)
    rw [he₀]
    by_cases hq₂ : 2 ≤ q
    · have hq₀ : (2 - q).toNat = 0 := by omega
      have hprod : 0 < 2 ^ (q - 2).toNat * 10 ^ (-exponent).toNat :=
        Nat.mul_pos (Nat.pow_pos (by omega)) (Nat.pow_pos (by omega))
      rw [hq₀, Nat.mul_assoc]
      omega
    · have hq₀ : (q - 2).toNat = 0 := by omega
      have hq₁ : (2 - q).toNat = (1 - q).toNat + 1 := by omega
      rw [hq₀, hq₁, Nat.pow_succ]
      omega

theorem contains_shortest {m : Nat} {q : Int} (hm : m < 2 * Binary.leading) (hleast : -1074 ≤ q)
    (hgreatest : q ≤ 971)
    : (Rounding.ofBinary m q).contains (shortest m q) := by
  unfold shortest
  apply Rounding.search_contains (k := 23) (by omega)
  apply Rounding.onGrid?_isSome
  · apply Nat.mul_le_mul_right
    omega
  · have hunit := finest_unit_lt hm hleast hgreatest rfl
    have hexp : (↑m.log2 + q) * 30103 / 100000 + 2 - ((23 : Nat) : Int)
        = (↑m.log2 + q) * 30103 / 100000 - 21 := by
      omega
    rw [hexp]
    simp only [Rounding.ofBinary, Nat.one_shiftLeft, Nat.add_mul]
    omega
  · simp [Rounding.ofBinary, Nat.one_shiftLeft]

end LuaTypes.Decimal
