import LuaTypes.Json.Printer
import LuaTypes.Json.Reader
import LuaTypes.Proofs.Decimal.Float

/-!
Numbers in JSON: integers and floating-point numbers are read back, each as what it was.
-/

namespace LuaTypes.Json

open Decimal

def Delimited (rest : List Char) : Prop :=
  ∀ c ∈ rest.head?, ¬ c.isDigit ∧ c ≠ '.' ∧ c ≠ 'e' ∧ c ≠ 'E'

theorem minusSign_append (negative : Bool) {d : Char} (ds : List Char) (hd : d.isDigit)
    : minusSign (minus negative ++ d :: ds) = (minus negative, d :: ds) := by
  have hminus : d ≠ '-' := by
    rintro rfl
    exact absurd hd (by decide)
  cases negative <;> simp [minus, minusSign, hminus]

theorem wholePart?_append {whole rest : List Char} (hne : whole ≠ []) (hwhole : ∀ c ∈ whole, c.isDigit)
    (hhead : whole.head? = some '0' → whole = ['0']) (hrest : ∀ c ∈ rest.head?, ¬ c.isDigit)
    : wholePart? (whole ++ rest) = some (whole, rest) := by
  obtain ⟨d, ds, rfl⟩ := List.exists_cons_of_ne_nil hne
  by_cases hzero : d = '0'
  · subst hzero
    cases hhead rfl
    rfl
  · have hds := Text.run_append (fun c hc => hwhole c (List.mem_cons_of_mem d hc))
      fun c hc => Bool.eq_false_iff.2 (hrest c hc)
    rw [List.cons_append, wholePart?]
    · rw [if_pos (hwhole d (by simp)), hds.1, hds.2]
    · simpa using hzero

theorem fraction_append {places rest : List Char} (hplaces : ∀ c ∈ places, c.isDigit)
    (hdot : places = [] → rest.head? ≠ some '.') (hrest : ∀ c ∈ rest.head?, ¬ c.isDigit)
    : fraction (pointed places ++ rest) = (pointed places, rest) := by
  cases places with
  | nil =>
    cases rest with
    | nil => rfl
    | cons c cs =>
      have hc : c ≠ '.' := by simpa using hdot rfl
      simp [pointed, fraction, hc]
  | cons d ds =>
    have hds := Text.run_append (fun c hc => hplaces c (List.mem_cons_of_mem d hc))
      fun c hc => Bool.eq_false_iff.2 (hrest c hc)
    simp only [pointed, List.cons_append, fraction]
    rw [if_pos (hplaces d (by simp)), hds.1, hds.2]

theorem exponent_append {power rest : List Char} {e : Int} (hpower : Power power e)
    (hrest : Delimited rest)
    : exponent (power ++ rest) = (power, rest) := by
  cases hpower with
  | none =>
    cases rest with
    | nil => rfl
    | cons c cs =>
      have hc := hrest c rfl
      simp [exponent, hc]
  | some negative digits hne hdigits =>
    have hds := Text.run_append hdigits fun c hc => Bool.eq_false_iff.2 (hrest c hc).1
    have hsign : exponentSign ((if negative then '-' else '+') :: (digits ++ rest))
        = ([if negative then '-' else '+'], digits ++ rest) := by
      cases negative <;> rfl
    have hhead : (digits ++ rest).head?.any Char.isDigit := by
      obtain ⟨d, ds, rfl⟩ := List.exists_cons_of_ne_nil hne
      simp [hdigits d]
    simp only [List.cons_append, exponent, true_or, ↓reduceIte, hsign, hhead, hds, List.nil_append]

theorem not_isDigit_head_power_append {power rest : List Char} {e : Int} (hpower : Power power e)
    (hrest : Delimited rest)
    : ∀ c ∈ (power ++ rest).head?, ¬ c.isDigit := by
  cases hpower with
  | none => exact fun c hc => (hrest c hc).1
  | some => simp

theorem head_power_append_ne_dot {power rest : List Char} {e : Int} (hpower : Power power e)
    (hrest : Delimited rest)
    : (power ++ rest).head? ≠ some '.' := by
  cases hpower with
  | none =>
    intro hdot
    exact (hrest '.' hdot).2.1 rfl
  | some => simp

theorem not_isDigit_head_pointed_append (places : List Char) {rest : List Char}
    (hrest : ∀ c ∈ rest.head?, ¬ c.isDigit)
    : ∀ c ∈ (pointed places ++ rest).head?, ¬ c.isDigit := by
  cases places with
  | nil => exact hrest
  | cons => simp [pointed]

theorem number_text (n : Numeral) (negative : Bool) {rest : List Char} (hrest : Delimited rest)
    : number (minus negative ++ n.text ++ rest)
        =
      if n.places.isEmpty && n.power.isEmpty then
        match readInteger (minus negative ++ n.whole) with
        | .ok i => .ok (.integer i, rest)
        | .error fault => .error (.number fault)
      else
        match readFloat (minus negative ++ n.text) with
        | .ok x => .ok (.float x, rest)
        | .error fault => .error (.number fault) := by
  have hpower := not_isDigit_head_power_append n.power_exponent hrest
  have hplaces := not_isDigit_head_pointed_append n.places hpower
  obtain ⟨d, ds, hcons⟩ := List.exists_cons_of_ne_nil n.whole_ne_nil
  have hd : d.isDigit := n.whole_digits d (by simp [hcons])
  have hsign : minusSign (minus negative ++ n.text ++ rest)
      = (minus negative, n.whole ++ (pointed n.places ++ (n.power ++ rest))) := by
    have := minusSign_append negative (ds ++ (pointed n.places ++ (n.power ++ rest))) hd
    simpa [Numeral.text, hcons] using this
  unfold number
  simp only [hsign]
  rw [wholePart?_append n.whole_ne_nil n.whole_digits n.head_whole hplaces]
  simp only
  rw [fraction_append n.places_digits (fun _ => head_power_append_ne_dot n.power_exponent hrest) hpower]
  simp only
  rw [exponent_append n.power_exponent hrest]
  have hempty : (pointed n.places).isEmpty = n.places.isEmpty := by
    cases n.places <;> rfl
  have htext : minus negative ++ n.text = minus negative ++ n.whole ++ pointed n.places ++ n.power := by
    simp only [Numeral.text, List.append_assoc]
  cases readInteger (minus negative ++ n.whole) <;>
    cases hfloat : readFloat (minus negative ++ n.text) <;>
    simp only [hempty, ← htext, hfloat]

def integerNumeral (n : Nat) : Numeral where
  whole := Nat.toDigits 10 n
  places := []
  power := []
  exponent := 0
  whole_ne_nil := Nat.toDigits_ne_nil
  whole_digits := isDigit_toDigits
  head_whole := by
    intro h
    by_cases hn : n = 0
    · subst hn
      rfl
    · exact absurd h (head_toDigits_ne_zero hn)
  places_digits := by simp
  power_exponent := .none

theorem toList_integerText (n : Int)
    : (integerText n).toList = minus (decide (n < 0)) ++ (integerNumeral n.natAbs).text := by
  by_cases hn : n < 0 <;> simp [integerText, hn, minus, Numeral.text, integerNumeral, pointed]

theorem number_integerText {n : Int} (h : (Nat.toDigits 10 n.natAbs).length ≤ maxIntegerDigits)
    {rest : List Char} (hrest : Delimited rest)
    : number ((integerText n).toList ++ rest) = .ok (.integer n, rest) := by
  have hread := readInteger_integerText h
  rw [toList_integerText] at hread ⊢
  rw [number_text _ _ hrest]
  have hwhole : (integerNumeral n.natAbs).text = (integerNumeral n.natAbs).whole := by
    simp [Numeral.text, integerNumeral, pointed]
  rw [hwhole] at hread
  rw [hread]
  rfl

theorem atom_of_isDigit {d : Char} (hd : d.isDigit) (negative : Bool) (cs : List Char)
    : atom (minus negative ++ d :: cs) = number (minus negative ++ d :: cs) := by
  have hne : ∀ c, ¬ c.isDigit → d ≠ c := by
    rintro c hc rfl
    exact hc hd
  have hn := hne 'n' (by decide)
  have ht := hne 't' (by decide)
  have hf := hne 'f' (by decide)
  have hN := hne 'N' (by decide)
  have hI := hne 'I' (by decide)
  have hminus := hne '-' (by decide)
  cases negative <;> simp [minus, atom, hn, ht, hf, hN, hI, hminus]

theorem exists_text_append (n : Numeral) (rest : List Char)
    : ∃ d ds, d.isDigit ∧ n.text ++ rest = d :: ds := by
  obtain ⟨d, ds, hcons⟩ := List.exists_cons_of_ne_nil n.whole_ne_nil
  refine ⟨d, ds ++ (pointed n.places ++ (n.power ++ rest)), n.whole_digits d (by simp [hcons]), ?_⟩
  simp [Numeral.text, hcons]

theorem atom_text (n : Numeral) (negative : Bool) (rest : List Char)
    : atom (minus negative ++ n.text ++ rest) = number (minus negative ++ n.text ++ rest) := by
  obtain ⟨d, ds, hd, hcons⟩ := exists_text_append n rest
  rw [List.append_assoc, hcons]
  exact atom_of_isDigit hd negative ds

theorem atom_integerText {n : Int} (h : (Nat.toDigits 10 n.natAbs).length ≤ maxIntegerDigits)
    {rest : List Char} (hrest : Delimited rest)
    : atom ((integerText n).toList ++ rest) = .ok (.integer n, rest) := by
  rw [← number_integerText h hrest, toList_integerText]
  exact atom_text _ _ _

def zeroNumeral : Numeral :=
  belowOne isDigit_of_mem_zero

theorem atom_of_readFloat {n : Numeral} (negative : Bool) {x : Float} {rest : List Char}
    (hfloat : n.places ≠ [] ∨ n.power ≠ []) (hread : readFloat (minus negative ++ n.text) = .ok x)
    (hrest : Delimited rest)
    : atom (minus negative ++ n.text ++ rest) = .ok (.float x, rest) := by
  rw [atom_text, number_text n _ hrest, if_neg, hread]
  simp only [Bool.and_eq_true, List.isEmpty_iff, not_and_or]
  exact hfloat

theorem atom_floatText (x : Float) {rest : List Char} (hrest : Delimited rest)
    : atom ((floatText floatNames x).toList ++ rest) = .ok (.float x, rest) := by
  by_cases h : (Binary.ofFloat x).isFinite ∧ (Binary.ofFloat x).significand ≠ 0
  · obtain ⟨n, htext, hfloat, hvalue⟩ := exists_numeral_floatText floatNames h.1 h.2
    rw [htext]
    apply atom_of_readFloat _ hfloat _ hrest
    rw [readFloat_text, hvalue]
  · have hzero : zeroNumeral.places ≠ [] ∨ zeroNumeral.power ≠ [] := .inl (by decide)
    obtain rfl | rfl | rfl | rfl | rfl := eq_special h
    · exact atom_of_readFloat false hzero rfl hrest
    · exact atom_of_readFloat true hzero rfl hrest
    · rfl
    · rfl
    · rfl

end LuaTypes.Json
