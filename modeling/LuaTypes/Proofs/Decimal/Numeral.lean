import LuaTypes.Proofs.Decimal.Digits

/-!
The form of the texts of floating-point numbers: digits, places behind a point, and an exponent, of which
at least one of the last two is there.
-/

namespace LuaTypes.Decimal

open Text

def pointed : List Char → List Char
  | [] => []
  | d :: ds => '.' :: d :: ds

theorem pointed_of_ne_nil {places : List Char} (h : places ≠ []) : pointed places = '.' :: places := by
  cases places with
  | nil => exact absurd rfl h
  | cons => rfl

inductive Power : List Char → Int → Prop where
  | none : Power [] 0
  | some (negative : Bool) (digits : List Char) (hne : digits ≠ [])
      (hdigits : ∀ c ∈ digits, c.isDigit)
    : Power ('e' :: (if negative then '-' else '+') :: digits)
        (if negative then -(Nat.ofDigitChars 10 digits 0 : Int) else Nat.ofDigitChars 10 digits 0)

structure Numeral where
  whole : List Char
  places : List Char
  power : List Char
  exponent : Int
  whole_ne_nil : whole ≠ []
  whole_digits : ∀ c ∈ whole, c.isDigit
  head_whole : whole.head? = some '0' → whole = ['0']
  places_digits : ∀ c ∈ places, c.isDigit
  power_exponent : Power power exponent

namespace Numeral

def text (n : Numeral) : List Char :=
  n.whole ++ (pointed n.places ++ n.power)

def value (n : Numeral) : Scaled :=
  ⟨Nat.ofDigitChars 10 (n.whole ++ n.places) 0, n.exponent - n.places.length⟩

end Numeral

def isNumeralChar (c : Char) : Bool :=
  c.isDigit || c = '.' || c = 'e' || c = '-' || c = '+'

theorem isNumeralChar_of_isDigit {c : Char} (h : c.isDigit) : isNumeralChar c := by
  simp [isNumeralChar, h]

theorem isNumeralChar_of_mem_power {power : List Char} {exponent : Int} (h : Power power exponent)
    : ∀ c ∈ power, isNumeralChar c := by
  intro c hc
  cases h with
  | none => cases hc
  | some negative digits hne hdigits =>
    simp only [List.mem_cons] at hc
    obtain rfl | rfl | hc := hc
    · rfl
    · cases negative <;> rfl
    · exact isNumeralChar_of_isDigit (hdigits c hc)

theorem isNumeralChar_of_mem_pointed {places : List Char} (h : ∀ c ∈ places, c.isDigit)
    : ∀ c ∈ pointed places, isNumeralChar c := by
  intro c hc
  cases places with
  | nil => cases hc
  | cons d ds =>
    rw [pointed, List.mem_cons] at hc
    obtain rfl | hc := hc
    · rfl
    · exact isNumeralChar_of_isDigit (h c hc)

theorem Numeral.isNumeralChar_of_mem_text (n : Numeral) : ∀ c ∈ n.text, isNumeralChar c := by
  intro c hc
  rw [text, List.mem_append, List.mem_append] at hc
  obtain hc | hc | hc := hc
  · exact isNumeralChar_of_isDigit (n.whole_digits c hc)
  · exact isNumeralChar_of_mem_pointed n.places_digits c hc
  · exact isNumeralChar_of_mem_power n.power_exponent c hc

theorem not_isBlank_of_isNumeralChar {c : Char} (h : isNumeralChar c) : ¬ isBlank c := by
  simp only [isNumeralChar, Bool.or_eq_true, decide_eq_true_eq] at h
  obtain ((((h | rfl) | rfl) | rfl) | rfl) := h
  · have := toNat_lt_of_isDigit h
    simp [isBlank]
    omega
  all_goals decide

theorem stripRight_of_not_isBlank {cs : List Char} (h : ∀ c ∈ cs, ¬ isBlank c) : stripRight cs = cs := by
  induction cs with
  | nil => rfl
  | cons c cs ih =>
    have hc := h c (by simp)
    rw [stripRight, ih fun d hd => h d (by simp [hd])]
    cases cs <;> simp [hc]

theorem strip_of_not_isBlank {cs : List Char} (h : ∀ c ∈ cs, ¬ isBlank c) : strip cs = cs := by
  have hleft : stripLeft cs = cs := by
    unfold stripLeft
    cases cs with
    | nil => rfl
    | cons c cs => simp [h c (by simp)]
  rw [strip, hleft, stripRight_of_not_isBlank h]

theorem ungroup?_of_ne {cs : List Char} (h : ∀ c ∈ cs, c ≠ '_') (afterDigit : Bool)
    : ungroup? afterDigit cs = some cs := by
  induction cs generalizing afterDigit with
  | nil => rfl
  | cons c cs ih =>
    rw [ungroup?, ih fun d hd => h d (by simp [hd])]
    · rfl
    · exact h c (by simp)

theorem endsDigits_cons {c : Char} {cs : List Char} (h : ¬ c.isDigit) (hc : c.toNat < 0x80)
    : EndsDigits (c :: cs) := by
  intro d hd
  cases hd
  exact decimalValue?_of_not_isDigit h hc

theorem endsDigits_power {power : List Char} {exponent : Int} (h : Power power exponent)
    : EndsDigits power := by
  cases h with
  | none => simp [EndsDigits]
  | some => exact endsDigits_cons (by decide) (by decide)

theorem exponent?_power {power : List Char} {exponent : Int} (h : Power power exponent)
    : exponent? power = some exponent := by
  cases h with
  | none => rfl
  | some negative digits hne hdigits =>
    have hrun := digitRun_of_isDigit hdigits
    have hvalue := ofDigits_map_toNat digits
    cases negative <;> simp [exponent?, splitSign, splitMinus, hrun, hvalue, hne]

theorem toLower_of_isDigit {c : Char} (h : c.isDigit) : c.toLower = c := by
  have := toNat_lt_of_isDigit h
  unfold Char.toLower
  rw [dif_neg]
  simp [UInt32.le_iff_toNat_le]
  show 65 ≤ c.toNat → _
  omega

theorem endsDigits_pointed_append {places power : List Char} {exponent : Int}
    (h : Power power exponent)
    : EndsDigits (pointed places ++ power) := by
  cases places with
  | nil => exact endsDigits_power h
  | cons d ds => exact endsDigits_cons (by decide) (by decide)

theorem Numeral.map_toLower_ne (n : Numeral) {word : String} (h : word.toList.head?.all (! ·.isDigit))
    : String.ofList (n.text.map Char.toLower) ≠ word := by
  intro heq
  obtain ⟨d, ds, hcons⟩ := List.exists_cons_of_ne_nil n.whole_ne_nil
  have hd : d.isDigit := n.whole_digits d (by simp [hcons])
  subst heq
  simp [text, hcons, toLower_of_isDigit hd, hd] at h

theorem placeRun_pointed_append {places power : List Char} {exponent : Int}
    (hplaces : ∀ c ∈ places, c.isDigit) (h : Power power exponent)
    : placeRun (pointed places ++ power) = (places.map (·.toNat - 48), power) := by
  cases places with
  | nil =>
    cases h with
    | none => rfl
    | some => rfl
  | cons d ds =>
    show digitRun (d :: ds ++ power) = _
    exact digitRun_append hplaces (endsDigits_power h)

theorem magnitude?_text (n : Numeral) : magnitude? n.text = some (.inl n.value) := by
  have hdigits : ofDigits (n.whole.map (·.toNat - 48) ++ n.places.map (·.toNat - 48))
      = Nat.ofDigitChars 10 (n.whole ++ n.places) 0 := by
    rw [← List.map_append, ofDigits_map_toNat]
  unfold magnitude?
  rw [if_neg, if_neg]
  · rw [Numeral.text, digitRun_append n.whole_digits (endsDigits_pointed_append n.power_exponent)]
    dsimp only
    rw [placeRun_pointed_append n.places_digits n.power_exponent]
    dsimp only
    rw [exponent?_power n.power_exponent, hdigits]
    simp [n.whole_ne_nil, Numeral.value]
  · exact n.map_toLower_ne rfl
  · rintro (h | h)
    · exact n.map_toLower_ne rfl h
    · exact n.map_toLower_ne rfl h

def minus (negative : Bool) : List Char :=
  if negative then ['-'] else []

theorem splitSign_text (n : Numeral) (negative : Bool)
    : splitSign (minus negative ++ n.text) = (negative, n.text) := by
  obtain ⟨d, ds, hcons⟩ := List.exists_cons_of_ne_nil n.whole_ne_nil
  have hd : d.isDigit := n.whole_digits d (by simp [hcons])
  have htext : n.text = d :: (ds ++ (pointed n.places ++ n.power)) := by
    rw [Numeral.text, hcons]
    rfl
  have hplus : d ≠ '+' := by
    rintro rfl
    exact absurd hd (by decide)
  have hminus : d ≠ '-' := by
    rintro rfl
    exact absurd hd (by decide)
  rw [htext]
  cases negative <;> simp [minus, splitSign, splitMinus, hplus, hminus]

theorem isNumeralChar_of_mem_minus {negative : Bool} : ∀ c ∈ minus negative, isNumeralChar c := by
  cases negative <;> exact List.all_eq_true.1 rfl

theorem readFloat_text (n : Numeral) (negative : Bool)
    : readFloat (minus negative ++ n.text) = .ok (toFloat negative n.value) := by
  have hchars : ∀ c ∈ minus negative ++ n.text, isNumeralChar c := by
    intro c hc
    rw [List.mem_append] at hc
    obtain hc | hc := hc
    · exact isNumeralChar_of_mem_minus c hc
    · exact n.isNumeralChar_of_mem_text c hc
  have hstrip : strip (minus negative ++ n.text) = minus negative ++ n.text :=
    strip_of_not_isBlank fun c hc => not_isBlank_of_isNumeralChar (hchars c hc)
  have hungroup : ungroup? false (minus negative ++ n.text) = some (minus negative ++ n.text) := by
    apply ungroup?_of_ne
    rintro c hc rfl
    exact absurd (hchars '_' hc) (by decide)
  unfold readFloat float?
  simp [hstrip, hungroup, splitSign_text, magnitude?_text]

end LuaTypes.Decimal
