import LuaTypes.Proofs.Decimal.Numeral
import LuaTypes.Proofs.Decimal.Scientific

/-!
The texts of floating-point numbers are numerals of the decimals that they are made from.
-/

namespace LuaTypes.Decimal

/--
A numeral that is a floating-point number at sight, and whose value is a decimal with some zeros more.
-/
structure Numeral.Denotes (n : Numeral) (coefficient : Nat) (exponent : Int) : Prop where
  isFloat : n.places ≠ [] ∨ n.power ≠ []
  value_eq : ∃ zeros : Nat, n.value = ⟨coefficient * 10 ^ zeros, exponent - zeros⟩

structure Significant (digits : List Char) : Prop where
  ne_nil : digits ≠ []
  isDigit : ∀ c ∈ digits, c.isDigit
  head_ne_zero : digits.head? ≠ some '0'

variable {digits : List Char}

theorem isDigit_of_mem_replicate {k : Nat} : ∀ c ∈ List.replicate k '0', c.isDigit := by
  intro c hc
  rw [List.eq_of_mem_replicate hc]
  rfl

theorem isDigit_of_mem_zero : ∀ c ∈ ['0'], c.isDigit :=
  List.all_eq_true.1 rfl

def belowOne {places : List Char} (hplaces : ∀ c ∈ places, c.isDigit) : Numeral where
  whole := ['0']
  places := places
  power := []
  exponent := 0
  whole_ne_nil := by simp
  whole_digits := isDigit_of_mem_zero
  head_whole := fun _ => rfl
  places_digits := hplaces
  power_exponent := .none

def fractional (zeros : Nat) (h : Significant digits) : Numeral :=
  @belowOne (List.replicate zeros '0' ++ digits) <| by
    intro c hc
    rw [List.mem_append] at hc
    exact hc.elim (isDigit_of_mem_replicate c) (h.isDigit c)

theorem fractional_denotes (zeros : Nat) (h : Significant digits)
    : (fractional zeros h).Denotes (Nat.ofDigitChars 10 digits 0) (-(zeros + digits.length : Nat)) := by
  constructor
  · simp [fractional, belowOne, h.ne_nil]
  · refine ⟨0, ?_⟩
    simp [fractional, belowOne, Numeral.value, Nat.ofDigitChars_append, Nat.ofDigitChars_cons]

def positional (whole : Nat) (hwhole : 0 < whole) (h : Significant digits) : Numeral where
  whole := digits.take whole ++ List.replicate (whole - digits.length) '0'
  places := if (digits.drop whole).isEmpty then ['0'] else digits.drop whole
  power := []
  exponent := 0
  whole_ne_nil := by
    simp [h.ne_nil]
    omega
  whole_digits := by
    intro c hc
    rw [List.mem_append] at hc
    exact hc.elim (fun hc => h.isDigit c (List.mem_of_mem_take hc)) (isDigit_of_mem_replicate c)
  head_whole := by
    intro hzero
    obtain ⟨d, ds, rfl⟩ := List.exists_cons_of_ne_nil h.ne_nil
    obtain ⟨k, rfl⟩ := Nat.exists_eq_add_one_of_ne_zero (Nat.ne_of_gt hwhole)
    simp only [List.take_succ_cons, List.cons_append, List.head?_cons] at hzero
    exact absurd hzero h.head_ne_zero
  places_digits := by
    intro c hc
    split at hc
    · rw [List.mem_singleton] at hc
      subst hc
      rfl
    · exact h.isDigit c (List.mem_of_mem_drop hc)
  power_exponent := .none

theorem positional_denotes {whole : Nat} (hwhole : 0 < whole) (h : Significant digits)
    : (positional whole hwhole h).Denotes (Nat.ofDigitChars 10 digits 0) (whole - digits.length) := by
  constructor
  · left
    unfold positional
    dsimp only
    split
    · simp
    · rename_i hdrop
      simpa using hdrop
  · unfold positional Numeral.value
    dsimp only
    by_cases hlength : digits.length ≤ whole
    · refine ⟨whole - digits.length + 1, ?_⟩
      rw [List.take_of_length_le hlength, List.drop_of_length_le hlength]
      simp [Nat.ofDigitChars_append, Nat.ofDigitChars_cons, Nat.pow_succ]
      constructor
      · rw [← Nat.mul_assoc, Nat.mul_comm, Nat.mul_comm 10]
      · omega
    · refine ⟨0, ?_⟩
      have hzeros : whole - digits.length = 0 := by omega
      have hdrop : (digits.drop whole).isEmpty = false := by
        simp
        omega
      rw [hzeros, hdrop]
      simp
      omega

def exponential {d : Char} {ds : List Char} (exponent : Int) (h : Significant (d :: ds)) : Numeral where
  whole := [d]
  places := ds
  power := 'e' :: (if exponent < 0 then '-' else '+') ::
    (List.replicate (2 - (Nat.toDigits 10 exponent.natAbs).length) '0' ++ Nat.toDigits 10 exponent.natAbs)
  exponent := exponent
  whole_ne_nil := by simp
  whole_digits := by simpa using h.isDigit d
  head_whole := by simp
  places_digits := fun c hc => h.isDigit c (List.mem_cons_of_mem d hc)
  power_exponent := by
    have hdigits : ∀ c ∈ List.replicate (2 - (Nat.toDigits 10 exponent.natAbs).length) '0' ++
        Nat.toDigits 10 exponent.natAbs, c.isDigit := by
      intro c hc
      rw [List.mem_append] at hc
      exact hc.elim (isDigit_of_mem_replicate c) (isDigit_toDigits c)
    have hpower := Power.some (decide (exponent < 0)) _ (by simp) hdigits
    have hvalue : (if exponent < 0 then -(exponent.natAbs : Int) else exponent.natAbs) = exponent := by
      split <;> omega
    simp only [decide_eq_true_eq, Nat.ofDigitChars_append, Nat.ofDigitChars_replicate_zero, Nat.mul_zero,
      Nat.ofDigitChars_ten_toDigits] at hpower
    rwa [hvalue] at hpower

theorem exponential_denotes {d : Char} {ds : List Char} (exponent : Int) (h : Significant (d :: ds))
    : (exponential exponent h).Denotes (Nat.ofDigitChars 10 (d :: ds) 0) (exponent - ds.length) := by
  constructor
  · simp [exponential]
  · refine ⟨0, ?_⟩
    simp [exponential, Numeral.value]

theorem exists_numeral_floatLayout (exponent : Int) (h : Significant digits)
    : ∃ n : Numeral, n.text = floatLayout digits exponent ∧
        n.Denotes (Nat.ofDigitChars 10 digits 0) (exponent + 1 - digits.length) ∧
        (-4 ≤ exponent ∧ exponent < 16 → n.power = []) := by
  -- Below one, with a point among the digits, and with an exponent.
  unfold floatLayout
  split
  · rename_i hexp
    refine ⟨fractional (-exponent - 1).toNat h, ?_, ?_, fun _ => rfl⟩
    · have hplaces : List.replicate (-exponent - 1).toNat '0' ++ digits ≠ [] := by simp [h.ne_nil]
      simp only [Numeral.text, fractional, belowOne, pointed_of_ne_nil hplaces]
      simp
    · have hvalue : exponent + 1 - digits.length = (-((-exponent - 1).toNat + digits.length : Nat) : Int) := by
        omega
      rw [hvalue]
      exact fractional_denotes _ h
  split
  · rename_i hexp
    refine ⟨positional (exponent.toNat + 1) (by omega) h, ?_, ?_, fun _ => rfl⟩
    · have hplaces : (if (digits.drop (exponent.toNat + 1)).isEmpty then ['0']
          else digits.drop (exponent.toNat + 1)) ≠ [] := by
        have := (positional_denotes (Nat.succ_pos exponent.toNat) h).isFloat
        simpa [positional] using this
      simp only [Numeral.text, positional, pointed_of_ne_nil hplaces]
      simp
    · have hvalue : exponent + 1 - digits.length = ((exponent.toNat + 1 : Nat) : Int) - digits.length := by
        omega
      rw [hvalue]
      exact positional_denotes _ h
  · rename_i hsmall hlarge
    obtain ⟨d, ds, rfl⟩ := List.exists_cons_of_ne_nil h.ne_nil
    refine ⟨exponential exponent h, ?_, ?_, fun hexp => by omega⟩
    · cases ds with
      | nil => rfl
      | cons e ds => rfl
    · have hvalue : exponent + 1 - (d :: ds).length = exponent - ds.length := by
        rw [List.length_cons]
        omega
      rw [hvalue]
      exact exponential_denotes exponent h

end LuaTypes.Decimal
