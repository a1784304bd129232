import LuaTypes.Proofs.Json.Number
import LuaTypes.Proofs.Json.Text

/-!
Values are read back from their texts, in every layout.
-/

namespace LuaTypes.Json

open Decimal

/--
The values that are read back: integers must not have too many digits, and an object has each of its names
once.
-/
inductive Storable : Json → Prop where
  | null : Storable .null
  | boolean (b : Bool) : Storable (.boolean b)
  | integer {n : Int} (h : (Nat.toDigits 10 n.natAbs).length ≤ maxIntegerDigits) : Storable (.integer n)
  | float (x : Float) : Storable (.float x)
  | string (s : String) : Storable (.string s)
  | array {items : List Json} (h : ∀ v ∈ items, Storable v) : Storable (.array items)
  | object {members : List (String × Json)} (hkeys : (members.map (·.1)).Nodup)
      (h : ∀ m ∈ members, Storable m.2) : Storable (.object members)

/-! ### Members -/

theorem insert_of_notMem {key : String} {value : Json} {members : List (String × Json)}
    (h : key ∉ members.map (·.1))
    : insert key value members = members ++ [(key, value)] := by
  induction members with
  | nil => rfl
  | cons m ms ih =>
    obtain ⟨k, v⟩ := m
    simp only [List.map_cons, List.mem_cons, not_or] at h
    rw [insert, if_neg (Ne.symm h.1), ih h.2]
    rfl

theorem foldl_insert {members before : List (String × Json)}
    (h : ((before ++ members).map (·.1)).Nodup)
    : members.foldl (fun ms m => insert m.1 m.2 ms) before = before ++ members := by
  induction members generalizing before with
  | nil => simp
  | cons m ms ih =>
    have hnew : m.1 ∉ before.map (·.1) := by
      rw [List.map_append, List.nodup_append] at h
      intro hmem
      exact h.2.2 m.1 hmem m.1 (by simp) rfl
    rw [List.foldl_cons, insert_of_notMem hnew, ih (by simpa using h)]
    simp

theorem ofMembers_of_nodup {members : List (String × Json)} (h : (members.map (·.1)).Nodup)
    : ofMembers members = members :=
  foldl_insert (by simpa using h)

/-! ### Spaces -/

theorem skipSpaces_cons {c : Char} (h : ¬ isSpace c) (cs : List Char) : skipSpaces (c :: cs) = c :: cs := by
  simp [skipSpaces, h]

theorem skipSpaces_append {spaces : List Char} (h : ∀ c ∈ spaces, isSpace c) (cs : List Char)
    : skipSpaces (spaces ++ cs) = skipSpaces cs :=
  List.dropWhile_append_of_pos h

theorem isSpace_of_mem_lineStart (layout : Layout) (depth : Nat)
    : ∀ c ∈ (layout.lineStart depth).toList, isSpace c := by
  intro c hc
  cases layout with
  | compact => simp [Layout.lineStart] at hc
  | indented spaces =>
    simp only [Layout.lineStart, String.toList_ofList, List.mem_cons] at hc
    obtain rfl | hc := hc
    · rfl
    · rw [List.eq_of_mem_replicate hc]
      rfl

@[simp]
theorem skipSpaces_lineStart_append (layout : Layout) (depth : Nat) (cs : List Char)
    : skipSpaces ((layout.lineStart depth).toList ++ cs) = skipSpaces cs :=
  skipSpaces_append (isSpace_of_mem_lineStart layout depth) cs

theorem delimited_cons {c : Char} (h : ¬ c.isDigit ∧ c ≠ '.' ∧ c ≠ 'e' ∧ c ≠ 'E') (cs : List Char)
    : Delimited (c :: cs) := by
  intro d hd
  cases hd
  exact h

theorem delimited_lineStart_append (layout : Layout) (depth : Nat) {cs : List Char} (h : Delimited cs)
    : Delimited ((layout.lineStart depth).toList ++ cs) := by
  cases layout with
  | compact => simpa [Layout.lineStart] using h
  | indented spaces =>
    simp only [Layout.lineStart, String.toList_ofList, List.cons_append]
    exact delimited_cons (by decide) _

/-! ### Starts of values -/

def startsAtom (c : Char) : Bool :=
  c.isDigit || c = '-' || c = 'n' || c = 't' || c = 'f' || c = 'N' || c = 'I'

theorem startsAtom_minus_append (n : Numeral) (negative : Bool)
    : (minus negative ++ n.text).head?.any startsAtom := by
  obtain ⟨d, ds, hd, hcons⟩ := exists_text_append n []
  rw [List.append_nil] at hcons
  cases negative with
  | false => simp [minus, hcons, startsAtom, hd]
  | true => rfl

theorem startsAtom_integerText (n : Int) : (integerText n).toList.head?.any startsAtom := by
  rw [toList_integerText]
  exact startsAtom_minus_append _ _

theorem startsAtom_floatText (x : Float) : (floatText floatNames x).toList.head?.any startsAtom := by
  by_cases h : (Binary.ofFloat x).isFinite ∧ (Binary.ofFloat x).significand ≠ 0
  · obtain ⟨n, htext, -⟩ := exists_numeral_floatText floatNames h.1 h.2
    rw [htext]
    exact startsAtom_minus_append n _
  · obtain rfl | rfl | rfl | rfl | rfl := eq_special h <;> rfl

def startsValue (c : Char) : Bool :=
  startsAtom c || c = '"' || c = '[' || c = '\x7b'

theorem startsValue_of_startsAtom {text : List Char} (h : text.head?.any startsAtom)
    : text.head?.any startsValue := by
  cases text with
  | nil => exact h
  | cons c cs =>
    have hc : startsAtom c := h
    simp [startsValue, hc]

theorem startsValue_print (layout : Layout) (depth : Nat) (v : Json)
    : (v.print layout depth).toList.head?.any startsValue := by
  cases v with
  | null => simp [print, startsValue, startsAtom]
  | boolean b => cases b <;> simp [print, startsValue, startsAtom]
  | integer n =>
    rw [print]
    exact startsValue_of_startsAtom (startsAtom_integerText n)
  | float x =>
    rw [print]
    exact startsValue_of_startsAtom (startsAtom_floatText x)
  | string s => simp [print, printString, startsValue]
  | array items => cases items <;> simp [print, startsValue]
  | object members => cases members <;> simp [print, startsValue]

theorem exists_cons_of_head?_any {text : List Char} {p : Char → Bool} (h : text.head?.any p)
    : ∃ c cs, text = c :: cs ∧ p c := by
  cases text with
  | nil => cases h
  | cons c cs => exact ⟨c, cs, rfl, h⟩

theorem not_isSpace_of_startsValue {c : Char} (h : startsValue c) : ¬ isSpace c := by
  simp only [isSpace, Bool.or_eq_true, beq_iff_eq]
  rintro (((rfl | rfl) | rfl) | rfl) <;> exact absurd h (by decide)

theorem skipSpaces_print_append (layout : Layout) (depth : Nat) (v : Json) (cs : List Char)
    : skipSpaces ((v.print layout depth).toList ++ cs) = (v.print layout depth).toList ++ cs := by
  obtain ⟨c, text, htext, hc⟩ := exists_cons_of_head?_any (startsValue_print layout depth v)
  rw [htext]
  exact skipSpaces_cons (not_isSpace_of_startsValue hc) _

/-! ### Values -/

def Reads (text : List Char) (v : Json) : Prop :=
  ∀ fuel rest, 2 * text.length < fuel → Delimited rest → value fuel (text ++ rest) = .ok (v, rest)

theorem reads_of_atom {text : List Char} {v : Json} (hstart : text.head?.any startsAtom)
    (h : ∀ rest, Delimited rest → atom (text ++ rest) = .ok (v, rest))
    : Reads text v := by
  intro fuel rest hfuel hrest
  obtain ⟨fuel, rfl⟩ := Nat.exists_eq_add_one_of_ne_zero (Nat.ne_of_gt (Nat.zero_lt_of_lt hfuel))
  rw [← h rest hrest]
  obtain ⟨c, cs, rfl, hc⟩ := exists_cons_of_head?_any hstart
  rw [List.cons_append]
  unfold value
  split
  · rename_i heq
    cases heq
    exact absurd hc (by decide)
  · rename_i heq
    cases heq
    exact absurd hc (by decide)
  · rename_i heq
    cases heq
    exact absurd hc (by decide)
  · rfl

theorem toList_printString_append (s : String) (cs : List Char)
    : (printString s).toList ++ cs = '"' :: (escape s.toList ++ '"' :: cs) := by
  simp [printString]

theorem reads_printString (s : String) : Reads (printString s).toList (.string s) := by
  intro fuel rest hfuel _
  obtain ⟨fuel, rfl⟩ := Nat.exists_eq_add_one_of_ne_zero (Nat.ne_of_gt (Nat.zero_lt_of_lt hfuel))
  rw [toList_printString_append]
  simp [value, stringBody_escape, bind, Except.bind, pure, Except.pure]

variable {layout : Layout} {depth : Nat}

theorem items_append {v : Json} {vs : List Json} (hv : Reads (v.print layout depth).toList v)
    (hvs : ∀ w ∈ vs, Reads (w.print layout depth).toList w) (fuel : Nat)
    (hfuel : 2 * ((v.print layout depth).toList.length + (printItems layout depth vs).toList.length) + 1 < fuel)
    (depth' : Nat) (rest : List Char)
    : items fuel ((v.print layout depth).toList ++ ((printItems layout depth vs).toList ++
        ((layout.lineStart depth').toList ++ ']' :: rest)))
        =
      .ok (v :: vs, rest) := by
  obtain ⟨fuel, rfl⟩ := Nat.exists_eq_add_one_of_ne_zero (Nat.ne_of_gt (Nat.zero_lt_of_lt hfuel))
  have hclose : Delimited ((layout.lineStart depth').toList ++ ']' :: rest) :=
    delimited_lineStart_append layout depth' (delimited_cons (by decide) rest)
  induction vs generalizing v fuel with
  | nil =>
    have hprint : (printItems layout depth []).toList = [] := rfl
    rw [hprint, List.nil_append, items, hv fuel _ (by omega) hclose]
    simp [bind, Except.bind, pure, Except.pure, skipSpaces_cons (c := ']') (by decide)]
  | cons w ws ih =>
    have hprint : (printItems layout depth (w :: ws)).toList
        = ',' :: ((layout.lineStart depth).toList ++ ((w.print layout depth).toList ++
          (printItems layout depth ws).toList)) := by
      simp [printItems]
    rw [hprint] at hfuel ⊢
    simp only [List.length_cons, List.length_append] at hfuel
    obtain ⟨fuel, rfl⟩ := Nat.exists_eq_add_one_of_ne_zero (n := fuel) (by omega)
    have hitems := ih (v := w) (hvs w (by simp)) (fun x hx => hvs x (by simp [hx])) fuel (by omega)
    rw [items, List.cons_append, hv (fuel + 1) _ (by omega) (delimited_cons (by decide) _)]
    simp only [bind, Except.bind, skipSpaces_cons (c := ',') (by decide), List.append_assoc,
      skipSpaces_lineStart_append, skipSpaces_print_append, hitems]
    rfl

theorem exists_spaces_colon (layout : Layout)
    : ∃ spaces, layout.colon.toList = ':' :: spaces ∧ ∀ c ∈ spaces, isSpace c := by
  cases layout with
  | compact => exact ⟨[], rfl, by simp⟩
  | indented n => exact ⟨[' '], by simp [Layout.colon], List.all_eq_true.1 rfl⟩

theorem members_append {k : String} {v : Json} {ms : List (String × Json)}
    (hv : Reads (v.print layout depth).toList v)
    (hms : ∀ m ∈ ms, Reads (m.2.print layout depth).toList m.2) (fuel : Nat)
    (hfuel : 2 * ((v.print layout depth).toList.length + (printMembers layout depth ms).toList.length) + 1
      < fuel)
    (depth' : Nat) (rest : List Char)
    : members fuel ((printString k).toList ++ (layout.colon.toList ++ ((v.print layout depth).toList ++
        ((printMembers layout depth ms).toList ++ ((layout.lineStart depth').toList ++ '\x7d' :: rest)))))
        =
      .ok ((k, v) :: ms, rest) := by
  obtain ⟨fuel, rfl⟩ := Nat.exists_eq_add_one_of_ne_zero (Nat.ne_of_gt (Nat.zero_lt_of_lt hfuel))
  obtain ⟨spaces, hcolon, hspaces⟩ := exists_spaces_colon layout
  have hclose : Delimited ((layout.lineStart depth').toList ++ '\x7d' :: rest) :=
    delimited_lineStart_append layout depth' (delimited_cons (by decide) rest)
  induction ms generalizing k v fuel with
  | nil =>
    have hprint : (printMembers layout depth []).toList = [] := rfl
    have hread := hv fuel _ (by omega) hclose
    rw [hprint, List.nil_append, toList_printString_append, members]
    simp [stringBody_escape, bind, Except.bind, pure, Except.pure, hcolon, hread,
      skipSpaces_cons (c := ':') (by decide), skipSpaces_cons (c := '\x7d') (by decide),
      skipSpaces_append hspaces, skipSpaces_print_append]
  | cons m ms ih =>
    obtain ⟨k', w⟩ := m
    have hprint : (printMembers layout depth ((k', w) :: ms)).toList
        = ',' :: ((layout.lineStart depth).toList ++ ((printString k').toList ++ (layout.colon.toList ++
          ((w.print layout depth).toList ++ (printMembers layout depth ms).toList)))) := by
      simp [printMembers]
    rw [hprint] at hfuel ⊢
    simp only [List.length_cons, List.length_append] at hfuel
    obtain ⟨fuel, rfl⟩ := Nat.exists_eq_add_one_of_ne_zero (n := fuel) (by omega)
    have hmembers := ih (k := k') (v := w) (hms (k', w) (by simp)) (fun x hx => hms x (by simp [hx])) fuel
      (by omega)
    have hread := hv (fuel + 1) (',' :: ((layout.lineStart depth).toList ++ ((printString k').toList ++
      (layout.colon.toList ++ ((w.print layout depth).toList ++ ((printMembers layout depth ms).toList ++
        ((layout.lineStart depth').toList ++ '\x7d' :: rest))))))) (by omega) (delimited_cons (by decide) _)
    rw [toList_printString_append, hcolon] at hmembers hread
    rw [toList_printString_append, members]
    simp only [List.cons_append] at hmembers hread
    simp only [List.cons_append, List.append_assoc, stringBody_escape, bind, Except.bind, hcolon,
      skipSpaces_cons (c := ':') (by decide), skipSpaces_append hspaces, skipSpaces_print_append,
      toList_printString_append, hread,
      skipSpaces_cons (c := ',') (by decide), skipSpaces_lineStart_append,
      skipSpaces_cons (c := '"') (by decide), hmembers]
    simp [pure, Except.pure]

theorem value_items {fuel : Nat} {c : Char} {cs cs' rest : List Char} {vs : List Json}
    (hskip : skipSpaces cs = c :: cs') (hc : c ≠ ']') (hitems : items fuel (c :: cs') = .ok (vs, rest))
    : value (fuel + 1) ('[' :: cs) = .ok (.array vs, rest) := by
  simp [value, hskip, hc, hitems, bind, Except.bind, pure, Except.pure]

theorem value_members {fuel : Nat} {c : Char} {cs cs' rest : List Char} {ms : List (String × Json)}
    (hskip : skipSpaces cs = c :: cs') (hc : c ≠ '\x7d') (hmembers : members fuel (c :: cs') = .ok (ms, rest))
    : value (fuel + 1) ('\x7b' :: cs) = .ok (.object (ofMembers ms), rest) := by
  simp [value, hskip, hc, hmembers, bind, Except.bind, pure, Except.pure]

theorem reads_array {items : List Json}
    (h : ∀ depth, ∀ v ∈ items, Reads (v.print layout depth).toList v)
    : Reads ((Json.array items).print layout depth).toList (.array items) := by
  intro fuel rest hfuel hrest
  obtain ⟨fuel, rfl⟩ := Nat.exists_eq_add_one_of_ne_zero (Nat.ne_of_gt (Nat.zero_lt_of_lt hfuel))
  cases items with
  | nil => simp [print, value, skipSpaces_cons (c := ']') (by decide)]
  | cons v vs =>
    have hprint : ((Json.array (v :: vs)).print layout depth).toList
        = '[' :: ((layout.lineStart (depth + 1)).toList ++ ((v.print layout (depth + 1)).toList ++
          ((printItems layout (depth + 1) vs).toList ++ ((layout.lineStart depth).toList ++ [']'])))) := by
      simp [print]
    rw [hprint] at hfuel ⊢
    simp only [List.length_cons, List.length_append] at hfuel
    have hitems := items_append (h (depth + 1) v (by simp))
      (fun w (hw : w ∈ vs) => h (depth + 1) w (by simp [hw])) fuel (by omega) depth rest
    obtain ⟨c, text, htext, hc⟩ := exists_cons_of_head?_any (startsValue_print layout (depth + 1) v)
    simp only [List.cons_append, List.append_assoc, List.nil_append]
    rw [htext, List.cons_append] at hitems
    apply value_items _ _ hitems
    · rw [skipSpaces_lineStart_append, skipSpaces_print_append, htext, List.cons_append]
    · rintro rfl
      exact absurd hc (by decide)

theorem reads_object {members : List (String × Json)} (hkeys : (members.map (·.1)).Nodup)
    (h : ∀ depth, ∀ m ∈ members, Reads (m.2.print layout depth).toList m.2)
    : Reads ((Json.object members).print layout depth).toList (.object members) := by
  intro fuel rest hfuel hrest
  obtain ⟨fuel, rfl⟩ := Nat.exists_eq_add_one_of_ne_zero (Nat.ne_of_gt (Nat.zero_lt_of_lt hfuel))
  cases members with
  | nil => simp [print, value, skipSpaces_cons (c := '\x7d') (by decide)]
  | cons m ms =>
    obtain ⟨k, v⟩ := m
    have hprint : ((Json.object ((k, v) :: ms)).print layout depth).toList
        = '\x7b' :: ((layout.lineStart (depth + 1)).toList ++ ((printString k).toList ++
          (layout.colon.toList ++ ((v.print layout (depth + 1)).toList ++
            ((printMembers layout (depth + 1) ms).toList ++
              ((layout.lineStart depth).toList ++ ['\x7d'])))))) := by
      simp [print]
    rw [hprint] at hfuel ⊢
    simp only [List.length_cons, List.length_append] at hfuel
    have hmembers := members_append (k := k) (v := v) (h (depth + 1) (k, v) (by simp))
      (fun w (hw : w ∈ ms) => h (depth + 1) w (by simp [hw])) fuel (by omega) depth rest
    simp only [List.cons_append, List.append_assoc, List.nil_append]
    rw [toList_printString_append] at hmembers
    rw [toList_printString_append, ← ofMembers_of_nodup hkeys]
    apply value_members _ _ hmembers
    · rw [skipSpaces_lineStart_append, skipSpaces_cons (by decide)]
    · decide

theorem reads_print {v : Json} (h : Storable v) (layout : Layout) (depth : Nat)
    : Reads (v.print layout depth).toList v := by
  induction h generalizing depth with
  | null =>
    rw [print]
    exact reads_of_atom rfl fun _ _ => rfl
  | boolean b =>
    cases b with
    | false =>
      rw [print]
      exact reads_of_atom rfl fun _ _ => rfl
    | true =>
      rw [print]
      exact reads_of_atom rfl fun _ _ => rfl
  | @integer n h =>
    rw [print]
    exact reads_of_atom (startsAtom_integerText n) fun rest hrest => atom_integerText h hrest
  | float x =>
    rw [print]
    exact reads_of_atom (startsAtom_floatText x) fun rest hrest => atom_floatText x hrest
  | string s =>
    rw [print]
    exact reads_printString s
  | array _ ih => exact reads_array fun depth v hv => ih v hv depth
  | object hkeys _ ih => exact reads_object hkeys fun depth m hm => ih m hm depth

theorem parse_print {v : Json} (h : Storable v) (layout : Layout)
    : parse (v.print layout 0) = .ok v := by
  have hspaces : skipSpaces (v.print layout 0).toList = (v.print layout 0).toList := by
    have := skipSpaces_print_append layout 0 v []
    rwa [List.append_nil] at this
  have hread := reads_print h layout 0 (2 * (v.print layout 0).toList.length + 2) [] (by omega)
    (by simp [Delimited])
  rw [List.append_nil] at hread
  unfold parse
  dsimp only
  rw [hspaces, hread]
  rfl

end LuaTypes.Json
