import LuaTypes.Decimal.Number

/-!
Runs of characters, and of ASCII digits in particular: what is read from them, and that integers are read
back from their texts.
-/

namespace LuaTypes

theorem Text.run_append {p : Char → Bool} {run rest : List Char} (hrun : ∀ c ∈ run, p c = true)
    (hrest : ∀ c ∈ rest.head?, p c = false)
    : (run ++ rest).takeWhile p = run ∧ (run ++ rest).dropWhile p = rest := by
  rw [List.takeWhile_append_of_pos hrun, List.dropWhile_append_of_pos hrun]
  cases rest with
  | nil => simp
  | cons c cs => simp [hrest c rfl]

namespace Decimal

open Text

def EndsDigits (rest : List Char) : Prop :=
  ∀ c ∈ rest.head?, decimalValue? c = none

theorem toNat_lt_of_isDigit {c : Char} (h : c.isDigit) : 48 ≤ c.toNat ∧ c.toNat ≤ 57 := by
  simp only [Char.isDigit, Bool.and_eq_true, decide_eq_true_eq, ge_iff_le, UInt32.le_iff_toNat_le] at h
  exact h

theorem decimalValue?_of_isDigit {c : Char} (h : c.isDigit)
    : decimalValue? c = some (c.toNat - 48) := by
  have hc := toNat_lt_of_isDigit h
  rw [decimalValue?, if_pos (by omega), if_pos h]

theorem decimalValue?_of_not_isDigit {c : Char} (h : ¬ c.isDigit) (hc : c.toNat < 0x80)
    : decimalValue? c = none := by
  rw [decimalValue?, if_pos hc, if_neg h]

theorem digitRun_append {ds rest : List Char} (hds : ∀ c ∈ ds, c.isDigit) (hrest : EndsDigits rest)
    : digitRun (ds ++ rest) = (ds.map (·.toNat - 48), rest) := by
  induction ds with
  | nil =>
    cases rest with
    | nil => rfl
    | cons c cs => simp [digitRun, hrest c rfl]
  | cons d ds ih =>
    have hd := decimalValue?_of_isDigit (hds d (by simp))
    have := ih (fun c hc => hds c (by simp [hc]))
    simp [digitRun, hd, this]

theorem digitRun_of_isDigit {ds : List Char} (hds : ∀ c ∈ ds, c.isDigit)
    : digitRun ds = (ds.map (·.toNat - 48), []) := by
  have hrest : EndsDigits [] := by simp [EndsDigits]
  have := digitRun_append hds hrest
  rwa [List.append_nil] at this

theorem ofDigits_map_toNat (ds : List Char)
    : ofDigits (ds.map (·.toNat - 48)) = Nat.ofDigitChars 10 ds 0 := by
  simp [ofDigits, Nat.ofDigitChars, List.foldl_map]

theorem isDigit_toDigits {n : Nat} : ∀ c ∈ Nat.toDigits 10 n, c.isDigit := by
  intro c hc
  exact Nat.isDigit_of_mem_toDigits (by omega) (by omega) hc

theorem head_toDigits_ne_zero {n : Nat} (hn : n ≠ 0) : (Nat.toDigits 10 n).head? ≠ some '0' := by
  induction n using Nat.strongRecOn with
  | ind n ih =>
    rw [Nat.toDigits_eq_if (by omega)]
    split
    · intro h
      simp only [List.head?_cons, Option.some.injEq] at h
      have := Nat.toNat_digitChar_of_lt_ten (n := n) (by omega)
      rw [h] at this
      simp at this
      omega
    · have := ih (n / 10) (by omega) (by omega)
      cases hds : Nat.toDigits 10 (n / 10) with
      | nil => exact absurd hds Nat.toDigits_ne_nil
      | cons d ds => simpa [hds] using this

theorem splitMinus_of_isDigit {ds : List Char} (hds : ∀ c ∈ ds, c.isDigit)
    : splitMinus ds = (false, ds) := by
  unfold splitMinus
  split
  · have := hds '-' (by simp)
    simp at this
  · rfl

theorem readInteger_integerText {n : Int} (h : (Nat.toDigits 10 n.natAbs).length ≤ maxIntegerDigits)
    : readInteger (integerText n).toList = .ok n := by
  unfold integerText
  generalize hm : n.natAbs = m at h ⊢
  have hds := @isDigit_toDigits m
  have hrun := digitRun_of_isDigit hds
  have hvalue := ofDigits_map_toNat (Nat.toDigits 10 m)
  rw [Nat.ofDigitChars_ten_toDigits] at hvalue
  by_cases hn : n < 0
  · simp [readInteger, hn, splitMinus, hrun, hvalue, Nat.not_lt.mpr h]
    omega
  · simp [readInteger, hn, splitMinus_of_isDigit hds, hrun, hvalue, Nat.not_lt.mpr h]
    omega

end Decimal

end LuaTypes
