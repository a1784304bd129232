import LuaTypes.Proofs.Json.Induction
import LuaTypes.Proofs.Json.RoundTrip

/-!
Two values that have one text on one line are the same value. That holds of all values, also of those that are refused
by a reader: of integers with too many digits, and of objects that have a name twice.
-/

namespace LuaTypes.Json

open Decimal

/-! ### Numbers and words -/

theorem atom_integerText_append (n : Int) {rest : List Char} (hrest : Delimited rest)
    : atom ((integerText n).toList ++ rest) =
        match readInteger (integerText n).toList with
        | .ok i => .ok (.integer i, rest)
        | .error fault => .error (.number fault) := by
  have hwhole : (integerNumeral n.natAbs).text = (integerNumeral n.natAbs).whole := by
    simp [Numeral.text, integerNumeral, pointed]
  rw [toList_integerText, atom_text, number_text _ _ hrest, hwhole]
  rfl

theorem minusSign_integerText_append (n : Int) (rest : List Char)
    : minusSign ((integerText n).toList ++ rest) = (minus (decide (n < 0)), Nat.toDigits 10 n.natAbs ++ rest) := by
  obtain ⟨d, ds, hcons⟩ := List.exists_cons_of_ne_nil (integerNumeral n.natAbs).whole_ne_nil
  have hd : d.isDigit := (integerNumeral n.natAbs).whole_digits d (by simp [hcons])
  have hdigits : Nat.toDigits 10 n.natAbs = d :: ds := hcons
  have htext : (integerNumeral n.natAbs).text = d :: ds := by
    simp [Numeral.text, integerNumeral, pointed, hdigits]
  rw [toList_integerText, htext, hdigits, List.append_assoc, List.cons_append, minusSign_append _ _ hd]

theorem wholePart?_toDigits_append (n : Nat) {rest : List Char} (hrest : Delimited rest)
    : wholePart? (Nat.toDigits 10 n ++ rest) = some (Nat.toDigits 10 n, rest) :=
  wholePart?_append (integerNumeral n).whole_ne_nil (integerNumeral n).whole_digits (integerNumeral n).head_whole
    fun c hc => (hrest c hc).1

theorem toDigits_inj {n m : Nat} (h : Nat.toDigits 10 n = Nat.toDigits 10 m) : n = m := by
  have hvalue := congrArg (Nat.ofDigitChars 10 · 0) h
  simpa [Nat.ofDigitChars_ten_toDigits] using hvalue

theorem integerText_append_inj {n m : Int} {rest rest' : List Char} (hrest : Delimited rest)
    (hrest' : Delimited rest') (h : (integerText n).toList ++ rest = (integerText m).toList ++ rest')
    : n = m ∧ rest = rest' := by
  have hcut := congrArg minusSign h
  rw [minusSign_integerText_append, minusSign_integerText_append, Prod.mk.injEq] at hcut
  obtain ⟨hsign, hdigits⟩ := hcut
  have hwhole := congrArg wholePart? hdigits
  rw [wholePart?_toDigits_append _ hrest, wholePart?_toDigits_append _ hrest', Option.some.injEq,
    Prod.mk.injEq] at hwhole
  have hmagnitude := toDigits_inj hwhole.1
  refine ⟨?_, hwhole.2⟩
  by_cases hn : n < 0 <;> by_cases hm : m < 0 <;> simp [minus, hn, hm] at hsign <;> omega

/-! ### Beginnings -/

def mark? : Json → Option Char
  | .string _ => some '"'
  | .array _ => some '['
  | .object _ => some '\x7b'
  | _ => none

theorem filter_head?_eq_mark? (layout : Layout) (depth : Nat) (v : Json) (rest : List Char)
    : ((v.print layout depth).toList ++ rest).head?.filter (! startsAtom ·) = v.mark? := by
  have hatom : ∀ {text : List Char}, text.head?.any startsAtom →
      (text ++ rest).head?.filter (! startsAtom ·) = none := by
    intro text h
    obtain ⟨c, cs, rfl, hc⟩ := exists_cons_of_head?_any h
    simp [hc]
  cases v with
  | null =>
    rw [print]
    exact hatom rfl
  | boolean b => cases b <;> simp [print, mark?, startsAtom]
  | integer n => exact hatom (startsAtom_integerText n)
  | float x => exact hatom (startsAtom_floatText x)
  | string s => simp [print, printString, mark?, startsAtom]
  | array items => cases items <;> simp [print, mark?, startsAtom]
  | object members => cases members <;> simp [print, mark?, startsAtom]

/-! ### Values -/

/--
Is a value the only one with its text, whatever follows?
-/
def Unique (v : Json) : Prop :=
  ∀ depth depth' w rest rest', Delimited rest → Delimited rest' →
    (v.print .compact depth).toList ++ rest = (w.print .compact depth').toList ++ rest' → v = w ∧ rest = rest'

theorem mark?_eq_of_print_append {layout : Layout} {depth depth' : Nat} {v w : Json} {rest rest' : List Char}
    (h : (v.print layout depth).toList ++ rest = (w.print layout depth').toList ++ rest')
    : v.mark? = w.mark? := by
  rw [← filter_head?_eq_mark? layout depth v rest, h, filter_head?_eq_mark?]

theorem integer_or_atom_print (layout : Layout) (depth : Nat) {v : Json} (hv : v.mark? = none) {rest : List Char}
    (hrest : Delimited rest)
    : (∃ n, v = .integer n) ∨
        (∀ n, v ≠ .integer n) ∧ atom ((v.print layout depth).toList ++ rest) = .ok (v, rest) := by
  cases v with
  | null => exact .inr ⟨by simp, by rw [print]; rfl⟩
  | boolean b => cases b <;> exact .inr ⟨by simp, by rw [print]; rfl⟩
  | integer n => exact .inl ⟨n, rfl⟩
  | float x =>
    refine .inr ⟨by simp, ?_⟩
    rw [print]
    exact atom_floatText x hrest
  | string | array | object => cases hv

theorem unique_of_mark? {v : Json} (hv : v.mark? = none) : Unique v := by
  intro depth depth' w rest rest' hrest hrest' h
  have hw : w.mark? = none := by rw [← mark?_eq_of_print_append h, hv]
  have hmixed : ∀ {n : Int} {u : Json} {rest rest'}, Delimited rest → (∀ m, u ≠ .integer m) →
      atom ((integerText n).toList ++ rest) ≠ .ok (u, rest') := by
    intro n u rest rest' hrest hu hatom
    rw [atom_integerText_append n hrest] at hatom
    split at hatom
    · cases hatom
      exact hu _ rfl
    · cases hatom
  obtain ⟨n, rfl⟩ | ⟨hne, hatom⟩ := integer_or_atom_print .compact depth hv hrest
  · obtain ⟨m, rfl⟩ | ⟨hne', hatom'⟩ := integer_or_atom_print .compact depth' hw hrest'
    · obtain ⟨rfl, hsame⟩ := integerText_append_inj hrest hrest' h
      exact ⟨rfl, hsame⟩
    · rw [← h] at hatom'
      exact absurd hatom' (hmixed hrest hne')
  · obtain ⟨m, rfl⟩ | ⟨hne', hatom'⟩ := integer_or_atom_print .compact depth' hw hrest'
    · rw [h] at hatom
      exact absurd hatom (hmixed hrest' hne)
    · rw [h, hatom'] at hatom
      cases hatom
      exact ⟨rfl, rfl⟩

theorem printString_append_inj {s u : String} {rest rest' : List Char}
    (h : (printString s).toList ++ rest = (printString u).toList ++ rest')
    : s = u ∧ rest = rest' := by
  rw [toList_printString_append, toList_printString_append, List.cons_inj_right] at h
  have hbody := stringBody_escape s.toList rest
  rw [h, stringBody_escape, Except.ok.injEq, Prod.mk.injEq] at hbody
  exact ⟨(String.toList_inj.1 hbody.1).symm, hbody.2.symm⟩

/-! #### Arrays -/

variable {depth depth' : Nat} {rest rest' : List Char}

theorem delimited_printItems_append (vs : List Json) (rest : List Char)
    : Delimited ((printItems .compact depth vs).toList ++ ']' :: rest) := by
  cases vs with
  | nil => exact delimited_cons (by decide) rest
  | cons v vs =>
    simp only [printItems, String.toList_append, List.append_assoc]
    exact delimited_cons (by decide) _

theorem toList_printItems_cons (v : Json) (vs : List Json)
    : (printItems .compact depth (v :: vs)).toList ++ ']' :: rest
        = ',' :: ((v.print .compact depth).toList ++ ((printItems .compact depth vs).toList ++ ']' :: rest)) := by
  simp [printItems, Layout.lineStart]

theorem printItems_append_inj {vs : List Json} (h : ∀ v ∈ vs, Unique v) {ws : List Json}
    (htext : (printItems .compact depth vs).toList ++ ']' :: rest
      = (printItems .compact depth' ws).toList ++ ']' :: rest')
    : vs = ws ∧ rest = rest' := by
  induction vs generalizing ws with
  | nil =>
    cases ws with
    | nil => exact ⟨rfl, List.tail_eq_of_cons_eq htext⟩
    | cons w ws =>
      rw [toList_printItems_cons] at htext
      exact absurd (List.head_eq_of_cons_eq htext) (by decide)
  | cons v vs ih =>
    cases ws with
    | nil =>
      rw [toList_printItems_cons] at htext
      exact absurd (List.head_eq_of_cons_eq htext) (by decide)
    | cons w ws =>
      rw [toList_printItems_cons, toList_printItems_cons, List.cons_inj_right] at htext
      obtain ⟨rfl, hitems⟩ := h v (by simp) _ _ w _ _ (delimited_printItems_append vs rest)
        (delimited_printItems_append ws rest') htext
      obtain ⟨rfl, hrest⟩ := ih (fun u hu => h u (by simp [hu])) hitems
      exact ⟨rfl, hrest⟩

theorem toList_print_array_cons (v : Json) (vs : List Json)
    : ((array (v :: vs)).print .compact depth).toList ++ rest
        = '[' :: ((v.print .compact (depth + 1)).toList ++
            ((printItems .compact (depth + 1) vs).toList ++ ']' :: rest)) := by
  simp [print, Layout.lineStart]

theorem toList_print_array_nil
    : ((array []).print .compact depth).toList ++ rest = '[' :: ']' :: rest := by
  simp [print]

theorem print_array_nil_append_ne {v : Json} {vs : List Json}
    : ((array []).print .compact depth).toList ++ rest ≠
        ((array (v :: vs)).print .compact depth').toList ++ rest' := by
  intro h
  obtain ⟨c, cs, hcons, hc⟩ := exists_cons_of_head?_any (startsValue_print .compact (depth' + 1) v)
  rw [toList_print_array_nil, toList_print_array_cons, hcons, List.cons_inj_right] at h
  rw [← List.head_eq_of_cons_eq h] at hc
  exact absurd hc (by decide)

theorem unique_array {items : List Json} (h : ∀ v ∈ items, Unique v) : Unique (.array items) := by
  intro depth depth' w rest rest' hrest hrest' htext
  have hmark := mark?_eq_of_print_append htext
  obtain ⟨ws, rfl⟩ : ∃ ws, w = .array ws := by
    cases w with
    | array ws => exact ⟨ws, rfl⟩
    | _ => cases hmark
  cases items with
  | nil =>
    cases ws with
    | nil =>
      rw [toList_print_array_nil, toList_print_array_nil, List.cons_inj_right, List.cons_inj_right] at htext
      exact ⟨rfl, htext⟩
    | cons w ws => exact absurd htext print_array_nil_append_ne
  | cons v vs =>
    cases ws with
    | nil => exact absurd htext.symm print_array_nil_append_ne
    | cons w ws =>
      rw [toList_print_array_cons, toList_print_array_cons, List.cons_inj_right] at htext
      obtain ⟨rfl, hitems⟩ := h v (by simp) _ _ w _ _ (delimited_printItems_append vs rest)
        (delimited_printItems_append ws rest') htext
      obtain ⟨rfl, hsame⟩ := printItems_append_inj (fun u hu => h u (by simp [hu])) hitems
      exact ⟨rfl, hsame⟩

/-! #### Objects -/

theorem delimited_printMembers_append (ms : List (String × Json)) (rest : List Char)
    : Delimited ((printMembers .compact depth ms).toList ++ '\x7d' :: rest) := by
  cases ms with
  | nil => exact delimited_cons (by decide) rest
  | cons m ms =>
    simp only [printMembers, String.toList_append, List.append_assoc]
    exact delimited_cons (by decide) _

theorem toList_printMembers_cons (m : String × Json) (ms : List (String × Json))
    : (printMembers .compact depth (m :: ms)).toList ++ '\x7d' :: rest
        = ',' :: ((printString m.1).toList ++ ':' :: ((m.2.print .compact depth).toList ++
            ((printMembers .compact depth ms).toList ++ '\x7d' :: rest))) := by
  simp [printMembers, Layout.lineStart, Layout.colon]

theorem member_append_inj {m n : String × Json} (h : Unique m.2) {ms ns : List (String × Json)}
    (htext : (printString m.1).toList ++ ':' :: ((m.2.print .compact depth).toList ++
        ((printMembers .compact depth ms).toList ++ '\x7d' :: rest))
      = (printString n.1).toList ++ ':' :: ((n.2.print .compact depth').toList ++
        ((printMembers .compact depth' ns).toList ++ '\x7d' :: rest')))
    : m = n ∧ (printMembers .compact depth ms).toList ++ '\x7d' :: rest
      = (printMembers .compact depth' ns).toList ++ '\x7d' :: rest' := by
  obtain ⟨hname, hvalue⟩ := printString_append_inj htext
  rw [List.cons_inj_right] at hvalue
  obtain ⟨hsame, hmembers⟩ := h _ _ n.2 _ _ (delimited_printMembers_append ms rest)
    (delimited_printMembers_append ns rest') hvalue
  exact ⟨Prod.ext hname hsame, hmembers⟩

theorem printMembers_append_inj {ms : List (String × Json)} (h : ∀ m ∈ ms, Unique m.2) {ns : List (String × Json)}
    (htext : (printMembers .compact depth ms).toList ++ '\x7d' :: rest
      = (printMembers .compact depth' ns).toList ++ '\x7d' :: rest')
    : ms = ns ∧ rest = rest' := by
  induction ms generalizing ns with
  | nil =>
    cases ns with
    | nil => exact ⟨rfl, List.tail_eq_of_cons_eq htext⟩
    | cons n ns =>
      rw [toList_printMembers_cons] at htext
      exact absurd (List.head_eq_of_cons_eq htext) (by decide)
  | cons m ms ih =>
    cases ns with
    | nil =>
      rw [toList_printMembers_cons] at htext
      exact absurd (List.head_eq_of_cons_eq htext) (by decide)
    | cons n ns =>
      rw [toList_printMembers_cons, toList_printMembers_cons, List.cons_inj_right] at htext
      obtain ⟨rfl, hmembers⟩ := member_append_inj (h m (by simp)) htext
      obtain ⟨rfl, hrest⟩ := ih (fun o ho => h o (by simp [ho])) hmembers
      exact ⟨rfl, hrest⟩

theorem toList_print_object_cons (m : String × Json) (ms : List (String × Json))
    : ((object (m :: ms)).print .compact depth).toList ++ rest
        = '\x7b' :: ((printString m.1).toList ++ ':' :: ((m.2.print .compact (depth + 1)).toList ++
            ((printMembers .compact (depth + 1) ms).toList ++ '\x7d' :: rest))) := by
  obtain ⟨k, v⟩ := m
  simp [print, Layout.lineStart, Layout.colon]

theorem toList_print_object_nil
    : ((object []).print .compact depth).toList ++ rest = '\x7b' :: '\x7d' :: rest := by
  simp [print]

theorem print_object_nil_append_ne {m : String × Json} {ms : List (String × Json)}
    : ((object []).print .compact depth).toList ++ rest ≠
        ((object (m :: ms)).print .compact depth').toList ++ rest' := by
  intro h
  rw [toList_print_object_nil, toList_print_object_cons, toList_printString_append, List.cons_inj_right] at h
  exact absurd (List.head_eq_of_cons_eq h) (by decide)

theorem unique_object {members : List (String × Json)} (h : ∀ m ∈ members, Unique m.2) : Unique (.object members) := by
  intro depth depth' w rest rest' hrest hrest' htext
  have hmark := mark?_eq_of_print_append htext
  obtain ⟨ns, rfl⟩ : ∃ ns, w = .object ns := by
    cases w with
    | object ns => exact ⟨ns, rfl⟩
    | _ => cases hmark
  cases members with
  | nil =>
    cases ns with
    | nil =>
      rw [toList_print_object_nil, toList_print_object_nil, List.cons_inj_right, List.cons_inj_right] at htext
      exact ⟨rfl, htext⟩
    | cons n ns => exact absurd htext print_object_nil_append_ne
  | cons m ms =>
    cases ns with
    | nil => exact absurd htext.symm print_object_nil_append_ne
    | cons n ns =>
      rw [toList_print_object_cons, toList_print_object_cons, List.cons_inj_right] at htext
      obtain ⟨rfl, hmembers⟩ := member_append_inj (h m (by simp)) htext
      obtain ⟨rfl, hsame⟩ := printMembers_append_inj (fun o ho => h o (by simp [ho])) hmembers
      exact ⟨rfl, hsame⟩

theorem unique_string (s : String) : Unique (.string s) := by
  intro depth depth' w rest rest' hrest hrest' htext
  have hmark := mark?_eq_of_print_append htext
  obtain ⟨u, rfl⟩ : ∃ u, w = .string u := by
    cases w with
    | string u => exact ⟨u, rfl⟩
    | _ => cases hmark
  rw [print, print] at htext
  obtain ⟨rfl, hsame⟩ := printString_append_inj htext
  exact ⟨rfl, hsame⟩

theorem unique (v : Json) : Unique v := by
  induction v with
  | null | boolean | integer | float => exact unique_of_mark? rfl
  | string s => exact unique_string s
  | array items ih => exact unique_array ih
  | object members ih => exact unique_object ih

theorem compact_inj {v w : Json} : v.compact = w.compact ↔ v = w := by
  constructor
  · intro h
    refine (unique v 0 0 w [] [] (by simp [Delimited]) (by simp [Delimited]) ?_).1
    rw [List.append_nil, List.append_nil]
    exact congrArg String.toList h
  · rintro rfl
    rfl

end LuaTypes.Json
