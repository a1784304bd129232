import LuaTypes.Proofs.Text.Phrase
import LuaTypes.Proofs.Token.Scan
import LuaTypes.TypeExpr.Parser

/-!
Which numerals have a value. The digits of a numeral may be superscripts, circled digits and the like,
which count for nothing in a decimal, and an integer may have too many of them.
-/

namespace LuaTypes

namespace Decimal

open Text

def isDecimal (c : Char) : Bool :=
  (decimalValue? c).isSome

/-! ### Digits -/

theorem digitRun_snd (cs : List Char) : (digitRun cs).2 = cs.dropWhile isDecimal := by
  induction cs with
  | nil => rfl
  | cons c cs ih =>
    rw [digitRun, List.dropWhile_cons]
    unfold isDecimal
    cases decimalValue? c with
    | none => rfl
    | some d => exact ih

theorem length_digitRun (cs : List Char) : (digitRun cs).1.length = (cs.takeWhile isDecimal).length := by
  induction cs with
  | nil => rfl
  | cons c cs ih =>
    rw [digitRun, List.takeWhile_cons]
    unfold isDecimal
    cases decimalValue? c with
    | none => rfl
    | some d =>
      dsimp only [Option.isSome_some]
      rw [if_pos rfl, List.length_cons, List.length_cons, ih]
      rfl

theorem digitRun_fst_isEmpty {c : Char} {cs : List Char} (h : isDecimal c = true)
    : (digitRun (c :: cs)).1.isEmpty = false := by
  obtain ⟨d, hd⟩ := Option.isSome_iff_exists.1 h
  rw [digitRun, hd]
  rfl

theorem not_isBlank_of_isDigit {c : Char} (h : isDigit c = true) : isBlank c = false := by
  have hblanks : ∀ n ∈ blankCodes, isDigit (Char.ofNat n) = false := by
    decide +kernel
  rw [← Bool.not_eq_true]
  intro hblank
  have := hblanks _ (toNat_mem_blankCodes hblank)
  rw [Char.ofNat_toNat, h] at this
  cases this

theorem ne_of_isDigit {c d : Char} (h : isDigit c = true) (hd : isDigit d = false) : c ≠ d := by
  rintro rfl
  rw [h] at hd
  cases hd

theorem toLower_of_digit {c : Char} (h : isDigit c = true) : c.toLower = c := by
  have hupper : ∀ n ∈ List.range 26, isDigit (Char.ofNat (n + 65)) = false := by
    decide +kernel
  unfold Char.toLower
  rw [dif_neg]
  intro hletter
  simp only [UInt32.le_iff_toNat_le] at hletter
  change 65 ≤ c.toNat ∧ c.toNat ≤ 90 at hletter
  have := hupper (c.toNat - 65) (List.mem_range.2 (by omega))
  rw [Nat.sub_add_cancel hletter.1, Char.ofNat_toNat, h] at this
  cases this

/-! ### Integers -/

variable {negative : Bool} {whole places : List Char}

theorem numeralChar_of_mem {c : Char} (hwhole : ∀ c ∈ whole, isDigit c = true)
    (hplaces : ∀ c ∈ places, isDigit c = true) (h : c ∈ minus negative ++ (whole ++ pointed places))
    : c = '-' ∨ c = '.' ∨ isDigit c = true := by
  rw [List.mem_append, List.mem_append] at h
  obtain h | h | h := h
  · cases negative with
    | false => cases h
    | true => exact .inl (List.mem_singleton.1 h)
  · exact .inr (.inr (hwhole c h))
  · cases places with
    | nil => cases h
    | cons d ds =>
      rw [pointed, List.mem_cons] at h
      exact .inr (h.imp id (hplaces c))

theorem not_isBlank_of_mem {c : Char} (hwhole : ∀ c ∈ whole, isDigit c = true)
    (hplaces : ∀ c ∈ places, isDigit c = true) (h : c ∈ minus negative ++ (whole ++ pointed places))
    : isBlank c = false := by
  obtain rfl | rfl | hdigit := numeralChar_of_mem hwhole hplaces h
  · rfl
  · rfl
  · exact not_isBlank_of_isDigit hdigit

theorem splitMinus_append {cs : List Char} (h : cs.head? ≠ some '-')
    : splitMinus (minus negative ++ cs) = (negative, cs) := by
  cases negative with
  | true => rfl
  | false =>
    cases cs with
    | nil => rfl
    | cons c cs =>
      unfold minus splitMinus
      split
      next heq =>
        cases heq
        exact absurd rfl h
      next => rfl

theorem readInteger_eq_ok_iff (hne : whole ≠ []) (hwhole : ∀ c ∈ whole, isDigit c = true)
    : (∃ n, readInteger (minus negative ++ whole) = .ok n) ↔
        (∀ c ∈ whole, isDecimal c = true) ∧ whole.length ≤ maxIntegerDigits := by
  have hhead : whole.head? ≠ some '-' := by
    intro h
    exact ne_of_isDigit (hwhole '-' (List.mem_of_mem_head? h)) (by decide) rfl
  have hrest := digitRun_snd whole
  have hlength := length_digitRun whole
  unfold readInteger
  rw [splitMinus_append hhead]
  dsimp only
  generalize digitRun whole = run at hrest hlength
  obtain ⟨digits, rest⟩ := run
  dsimp only at hrest hlength ⊢
  constructor
  · rintro ⟨n, h⟩
    split at h
    · cases h
    next hfew =>
      split at h
      · cases h
      next hall =>
        have hnil : rest = [] := by
          by_contra hne
          exact hall (by simp [hne])
        have hdecimal := List.dropWhile_eq_nil_iff.1 (hrest.symm.trans hnil)
        rw [List.takeWhile_eq_self_iff.2 hdecimal] at hlength
        exact ⟨hdecimal, by omega⟩
  · rintro ⟨hall, hfew⟩
    rw [List.takeWhile_eq_self_iff.2 hall] at hlength
    rw [List.dropWhile_eq_nil_iff.2 hall] at hrest
    have hdigits : digits ≠ [] := by
      rintro rfl
      exact hne (List.length_eq_zero_iff.1 hlength.symm)
    rw [if_neg (by omega), if_neg (by simp [hrest, hdigits])]
    exact ⟨_, rfl⟩

/-! ### Numbers with places -/

theorem exponent?_of_isDigit {c : Char} {cs : List Char} (h : isDigit c = true)
    : exponent? (c :: cs) = none := by
  have he := ne_of_isDigit h (d := 'e') (by decide)
  have hE := ne_of_isDigit h (d := 'E') (by decide)
  simp [exponent?, he, hE]

theorem placeRun_of_isDigit {c : Char} {cs : List Char} (h : isDigit c = true)
    : placeRun (c :: cs) = ([], c :: cs) := by
  have hpoint := ne_of_isDigit h (d := '.') (by decide)
  unfold placeRun
  split
  next heq =>
    cases heq
    exact absurd rfl hpoint
  next => rfl

theorem map_toLower_ne {c : Char} {cs : List Char} (h : isDigit c = true) {word : String}
    (hword : word.toList.head?.all (! isDigit ·))
    : String.ofList ((c :: cs).map Char.toLower) ≠ word := by
  rintro rfl
  simp [toLower_of_digit h, h] at hword

theorem magnitude?_isSome_eq {c : Char} {cs : List Char} (h : isDigit c = true)
    : (magnitude? (c :: cs)).isSome =
        (let (digits, rest) := digitRun (c :: cs)
        let (places, rest) := placeRun rest
        ! (digits.isEmpty && places.isEmpty) && (exponent? rest).isSome) := by
  unfold magnitude?
  rw [if_neg, if_neg (map_toLower_ne h rfl)]
  · dsimp only
    split
    next hempty => rw [hempty]; rfl
    next hempty => rw [Bool.of_not_eq_true hempty, Option.isSome_map, Bool.not_false, Bool.true_and]
  · rintro (hword | hword)
    · exact map_toLower_ne h rfl hword
    · exact map_toLower_ne h rfl hword

theorem exists_cons_dropWhile {ds : List Char} (h : ¬ ∀ c ∈ ds, isDecimal c = true)
    : ∃ c cs, ds.dropWhile isDecimal = c :: cs ∧ c ∈ ds := by
  have hne : ds.dropWhile isDecimal ≠ [] := fun hnil => h (List.dropWhile_eq_nil_iff.1 hnil)
  obtain ⟨c, cs, hcons⟩ := List.exists_cons_of_ne_nil hne
  exact ⟨c, cs, hcons, (List.dropWhile_suffix isDecimal).subset (hcons ▸ List.mem_cons_self)⟩

theorem magnitude?_isSome_iff (hne : whole ≠ []) (hwhole : ∀ c ∈ whole, isDigit c = true)
    (hplaces : ∀ c ∈ places, isDigit c = true)
    : (magnitude? (whole ++ '.' :: places)).isSome ↔ ∀ c ∈ whole ++ places, isDecimal c = true := by
  obtain ⟨d, ds, rfl⟩ := List.exists_cons_of_ne_nil hne
  have hrun := digitRun_snd (d :: ds ++ '.' :: places)
  rw [List.cons_append, magnitude?_isSome_eq (hwhole d (by simp)), ← List.cons_append]
  dsimp only
  by_cases hdecimal : ∀ c ∈ d :: ds, isDecimal c = true
  · rw [List.dropWhile_append_of_pos hdecimal] at hrun
    change _ = '.' :: places at hrun
    have hdigits : (digitRun (d :: ds ++ '.' :: places)).1.isEmpty = false :=
      digitRun_fst_isEmpty (hdecimal d (by simp))
    rw [hrun, hdigits, Bool.false_and, Bool.not_false, Bool.true_and]
    change (exponent? (digitRun places).2).isSome = true ↔ _
    rw [digitRun_snd]
    by_cases hall : ∀ c ∈ places, isDecimal c = true
    · rw [List.dropWhile_eq_nil_iff.2 hall]
      exact iff_of_true rfl fun c hc => (List.mem_append.1 hc).elim (hdecimal c) (hall c)
    · obtain ⟨c, cs, hcons, hc⟩ := exists_cons_dropWhile hall
      rw [hcons, exponent?_of_isDigit (hplaces c hc)]
      exact iff_of_false (by simp) fun h => hall fun c hc => h c (List.mem_append_right _ hc)
  · -- A digit before the point that is not decimal ends the number.
    obtain ⟨c, cs, hcons, hc⟩ := exists_cons_dropWhile hdecimal
    rw [List.dropWhile_append, hcons] at hrun
    change _ = c :: (cs ++ '.' :: places) at hrun
    rw [hrun, placeRun_of_isDigit (hwhole c hc)]
    dsimp only
    rw [exponent?_of_isDigit (hwhole c hc)]
    exact iff_of_false (by simp) fun h => hdecimal fun c hc => h c (List.mem_append_left _ hc)

theorem splitSign_append {cs : List Char} (h : cs.head? ≠ some '-') (h' : cs.head? ≠ some '+')
    : splitSign (minus negative ++ cs) = (negative, cs) := by
  have hsplit := @splitMinus_append negative _ h
  unfold splitSign
  split
  next rest heq =>
    exfalso
    cases negative with
    | true => cases heq
    | false =>
      change cs = _ at heq
      rw [heq] at h'
      exact h' rfl
  next => exact hsplit

theorem readFloat_eq_ok_iff (hne : whole ≠ []) (hne' : places ≠ [])
    (hwhole : ∀ c ∈ whole, isDigit c = true) (hplaces : ∀ c ∈ places, isDigit c = true)
    : (∃ x, readFloat (minus negative ++ (whole ++ pointed places)) = .ok x) ↔
        ∀ c ∈ whole ++ places, isDecimal c = true := by
  have hstrip : strip (minus negative ++ (whole ++ pointed places))
      = minus negative ++ (whole ++ pointed places) := by
    apply strip_of_not_isBlank
    intro c hc
    rw [not_isBlank_of_mem hwhole hplaces hc]
    exact Bool.false_ne_true
  have hungroup : ungroup? false (minus negative ++ (whole ++ pointed places))
      = some (minus negative ++ (whole ++ pointed places)) := by
    apply ungroup?_of_ne
    rintro c hc rfl
    exact absurd (numeralChar_of_mem hwhole hplaces hc) (by decide)
  rw [pointed_of_ne_nil hne'] at hstrip hungroup ⊢
  have hhead : ∀ c, isDigit c = false → (whole ++ '.' :: places).head? ≠ some c := by
    rintro c hc hhead
    obtain ⟨d, ds, rfl⟩ := List.exists_cons_of_ne_nil hne
    cases hhead
    exact ne_of_isDigit (hwhole c (by simp)) hc rfl
  rw [← magnitude?_isSome_iff hne hwhole hplaces]
  unfold readFloat float?
  rw [hstrip, hungroup]
  dsimp only [bind, Option.bind]
  rw [splitSign_append (hhead '-' (by decide)) (hhead '+' (by decide))]
  dsimp only
  cases magnitude? (whole ++ '.' :: places) with
  | none => simp
  | some r => cases r <;> simp [pure]

end Decimal

/-! ### Numerals of a text -/

namespace Lexeme.Numeral

open Decimal

/--
Does the numeral have a value? Its digits are decimal, and without places there are not too many.
-/
structure HasValue (n : Numeral) : Prop where
  decimal : ∀ c ∈ n.whole ++ n.places, isDecimal c = true
  short : n.places = [] → n.whole.length ≤ maxIntegerDigits

end Lexeme.Numeral

def HasValueless (text : List Char) : Prop :=
  ∃ n : Lexeme.Numeral, n.text <:+: text ∧ ¬ n.HasValue

theorem HasValueless.mono {text text' : List Char} (h : HasValueless text) (hinside : text <:+: text')
    : HasValueless text' := by
  obtain ⟨n, hn, hvalue⟩ := h
  exact ⟨n, hn.trans hinside, hvalue⟩

theorem Lexeme.Numeral.isWord_text (n : Numeral) : Text.IsWord n.text where
  ne_nil := by
    intro hnil
    unfold text at hnil
    rw [List.append_eq_nil_iff, List.append_eq_nil_iff] at hnil
    exact n.whole_ne_nil hnil.2.1
  not_blank := fun _ hc => Decimal.not_isBlank_of_mem n.whole_digits n.places_digits hc

theorem Lexeme.Numeral.contains_point_iff (n : Numeral)
    : n.text.contains '.' = true ↔ n.places ≠ [] := by
  rw [List.contains_iff_mem, text, List.mem_append, List.mem_append]
  have hminus : '.' ∉ Decimal.minus n.negative := by cases n.negative <;> decide
  have hwhole : '.' ∉ n.whole := fun h => Decimal.ne_of_isDigit (n.whole_digits _ h) (by decide) rfl
  cases n.places with
  | nil => simp [hminus, hwhole, Decimal.pointed]
  | cons d ds => simp [Decimal.pointed]

theorem exists_map_eq_ok {ε α β : Type} {f : α → β} {x : Except ε α}
    : (∃ b, x.map f = .ok b) ↔ ∃ a, x = .ok a := by
  cases x <;> simp [Except.map]

theorem TypeExpr.Parser.numberLiteral_eq_ok_iff (n : Lexeme.Numeral)
    : (∃ l, numberLiteral (String.ofList n.text) = .ok l) ↔ n.HasValue := by
  unfold numberLiteral
  rw [String.toList_ofList]
  by_cases hplaces : n.places = []
  · have hread := @Decimal.readInteger_eq_ok_iff n.negative _ n.whole_ne_nil n.whole_digits
    rw [if_neg (fun h => n.contains_point_iff.1 h hplaces), exists_map_eq_ok, Lexeme.Numeral.text, hplaces,
      Decimal.pointed, List.append_nil, hread]
    constructor
    · rintro ⟨hdecimal, hshort⟩
      exact ⟨by simpa [hplaces] using hdecimal, fun _ => hshort⟩
    · rintro ⟨hdecimal, hshort⟩
      exact ⟨by simpa [hplaces] using hdecimal, hshort hplaces⟩
  · have hread := @Decimal.readFloat_eq_ok_iff n.negative _ _ n.whole_ne_nil hplaces n.whole_digits
      n.places_digits
    rw [if_pos (n.contains_point_iff.2 hplaces), exists_map_eq_ok, Lexeme.Numeral.text, hread]
    constructor
    · exact fun hdecimal => ⟨hdecimal, fun h => absurd h hplaces⟩
    · exact fun h => h.decimal

theorem TypeExpr.Parser.exists_fault {n : Lexeme.Numeral} (h : ¬ n.HasValue)
    : ∃ fault, numberLiteral (String.ofList n.text) = .error fault := by
  cases hvalue : numberLiteral (String.ofList n.text) with
  | ok value => exact absurd ((numberLiteral_eq_ok_iff n).1 ⟨value, hvalue⟩) h
  | error fault => exact ⟨fault, rfl⟩

end LuaTypes
