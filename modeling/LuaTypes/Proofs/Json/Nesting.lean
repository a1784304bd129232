import Mathlib.Data.List.TakeWhile
import LuaTypes.Proofs.Except
import LuaTypes.Proofs.Json.RoundTrip

/-!
The nesting of arrays and objects along a text. A text that is read has closed at its end all that it opens, and the
text of an object that is written closes the object with its last character only. So what is left of the text of an
object when it is cut short is the text of no value.
-/

namespace LuaTypes.Json

open Decimal

inductive Spot where
  | outside
  | inside
  | escaped
  deriving DecidableEq

/--
The number of arrays and objects that are open, less those that have been closed without having been opened.
-/
structure Nesting where
  depth : Int
  spot : Spot
  deriving DecidableEq

namespace Nesting

def isOpening (c : Char) : Bool :=
  c = '[' || c = '\x7b'

def isClosing (c : Char) : Bool :=
  c = ']' || c = '\x7d'

def step (n : Nesting) (c : Char) : Nesting :=
  match n.spot with
  | .outside =>
    if c = '"' then { n with spot := .inside }
    else if isOpening c then { n with depth := n.depth + 1 }
    else if isClosing c then { n with depth := n.depth - 1 }
    else n
  | .inside =>
    if c = '"' then { n with spot := .outside }
    else if c = '\\' then { n with spot := .escaped }
    else n
  | .escaped => { n with spot := .inside }

def after (n : Nesting) (cs : List Char) : Nesting :=
  cs.foldl step n

theorem after_append (n : Nesting) (cs ds : List Char) : n.after (cs ++ ds) = (n.after cs).after ds := by
  rw [after, List.foldl_append]
  rfl

theorem after_cons (n : Nesting) (c : Char) (cs : List Char) : n.after (c :: cs) = (n.step c).after cs := by
  rfl

def isNeutral (c : Char) : Bool :=
  c ≠ '"' && ! isOpening c && ! isClosing c

theorem after_of_isNeutral {cs : List Char} (h : ∀ c ∈ cs, isNeutral c) (depth : Int)
    : after ⟨depth, .outside⟩ cs = ⟨depth, .outside⟩ := by
  induction cs with
  | nil => rfl
  | cons c cs ih =>
    have hc := h c (by simp)
    simp only [isNeutral, decide_not, Bool.and_eq_true, Bool.not_eq_true', decide_eq_false_iff_not] at hc
    rw [after_cons, step]
    simp only [hc.1.1, hc.1.2, hc.2, Bool.false_eq_true, ↓reduceIte]
    exact ih fun d hd => h d (by simp [hd])

end Nesting

open Nesting

/-! ### Reading -/

/--
Does a text lead from a spot to the outside of strings, at a depth that differs by `change`, where `rest` is left of
it? On the way all that was open at first stays open.
-/
def Moves (spot : Spot) (change : Int) (cs rest : List Char) : Prop :=
  ∃ used, cs = used ++ rest ∧ ∀ depth,
    after ⟨depth, spot⟩ used = ⟨depth + change, .outside⟩ ∧
      ∀ start, start <+: used → start ≠ used → depth ≤ (after ⟨depth, spot⟩ start).depth

namespace Moves

variable {spot s : Spot} {a b : Int} {c : Char} {cs cs' rest : List Char}

theorem of_isNeutral (used : List Char) (h : ∀ c ∈ used, isNeutral c) : Moves .outside 0 (used ++ rest) rest := by
  refine ⟨used, rfl, fun depth => ⟨by rw [after_of_isNeutral h, Int.add_zero], ?_⟩⟩
  intro start hstart _
  rw [after_of_isNeutral fun c hc => h c (hstart.subset hc)]

theorem refl : Moves .outside 0 rest rest :=
  of_isNeutral [] (by simp)

theorem behind (h : Moves spot 0 cs cs') (h' : Moves .outside a cs' rest) : Moves spot a cs rest := by
  obtain ⟨used, rfl, hused⟩ := h
  obtain ⟨used', rfl, hused'⟩ := h'
  refine ⟨used ++ used', (List.append_assoc _ _ _).symm, fun depth => ?_⟩
  have hmiddle : after ⟨depth, spot⟩ used = ⟨depth, .outside⟩ := by rw [(hused depth).1, Int.add_zero]
  refine ⟨by rw [after_append, hmiddle, (hused' depth).1], ?_⟩
  intro start hstart hne
  by_cases hshort : start <+: used ∧ start ≠ used
  · exact (hused depth).2 start hshort.1 hshort.2
  · have hcut : used <+: start := by
      obtain h | h := List.prefix_or_prefix_of_prefix hstart (List.prefix_append used used')
      · rw [not_and_not_right.1 hshort h]
      · exact h
    obtain ⟨more, rfl⟩ := hcut
    rw [after_append, hmiddle]
    apply (hused' depth).2 more ((List.prefix_append_right_inj used).1 hstart)
    rintro rfl
    exact hne rfl

theorem cons (ha : 0 ≤ a) (hstep : ∀ depth, step ⟨depth, spot⟩ c = ⟨depth + a, s⟩) (h : Moves s b cs rest)
    : Moves spot (a + b) (c :: cs) rest := by
  obtain ⟨used, rfl, hused⟩ := h
  refine ⟨c :: used, rfl, fun depth => ⟨by rw [after_cons, hstep, (hused _).1, Int.add_assoc], ?_⟩⟩
  intro start hstart hne
  cases start with
  | nil => exact Int.le_refl depth
  | cons d start =>
    obtain ⟨rfl, hrest⟩ := List.cons_prefix_cons.1 hstart
    rw [after_cons, hstep]
    have := (hused (depth + a)).2 start hrest fun heq => hne (by rw [heq])
    omega

theorem cons_same (hstep : ∀ depth, step ⟨depth, spot⟩ c = ⟨depth, s⟩) (h : Moves s b cs rest)
    : Moves spot b (c :: cs) rest := by
  have := cons (Int.le_refl 0) (fun depth => (hstep depth).trans (by rw [Int.add_zero])) h
  rwa [Int.zero_add] at this

theorem openArray (h : Moves .outside (-1) cs rest) : Moves .outside 0 ('[' :: cs) rest :=
  cons (a := 1) (by decide) (fun _ => rfl) h

theorem openObject (h : Moves .outside (-1) cs rest) : Moves .outside 0 ('\x7b' :: cs) rest :=
  cons (a := 1) (by decide) (fun _ => rfl) h

theorem close (hstep : ∀ depth, step ⟨depth, .outside⟩ c = ⟨depth - 1, .outside⟩)
    : Moves .outside (-1) (c :: rest) rest := by
  refine ⟨[c], rfl, fun depth => ⟨hstep depth, ?_⟩⟩
  intro start hstart hne
  cases start with
  | nil => exact Int.le_refl depth
  | cons d start =>
    obtain ⟨rfl, hrest⟩ := List.cons_prefix_cons.1 hstart
    rw [List.prefix_nil.1 hrest] at hne
    exact absurd rfl hne

theorem closeArray : Moves .outside (-1) (']' :: rest) rest :=
  close fun _ => rfl

theorem closeObject : Moves .outside (-1) ('\x7d' :: rest) rest :=
  close fun _ => rfl

theorem openString (h : Moves .inside a cs rest) : Moves .outside a ('"' :: cs) rest :=
  cons_same (fun _ => rfl) h

theorem plain (hquote : c ≠ '"') (hslash : c ≠ '\\') (h : Moves .inside a cs rest) : Moves .inside a (c :: cs) rest :=
  cons_same (fun _ => by simp [step, hquote, hslash]) h

theorem escape (c : Char) (h : Moves .inside a cs rest) : Moves .inside a ('\\' :: c :: cs) rest := by
  have hescaped : Moves .escaped a (c :: cs) rest := cons_same (fun _ => rfl) h
  exact cons_same (fun _ => rfl) hescaped

end Moves

theorem ne_of_hexValue? {c : Char} {n : Nat} (h : hexValue? c = some n) : c ≠ '"' ∧ c ≠ '\\' := by
  constructor
  · rintro rfl
    cases h
  · rintro rfl
    cases h

variable {cs cs' rest : List Char}

theorem Moves.unit {a b c d : Char} {n : Nat} {change : Int} (hunit : codeUnit? a b c d = some n)
    (h : Moves .inside change cs rest)
    : Moves .inside change ('\\' :: 'u' :: a :: b :: c :: d :: cs) rest := by
  have hdigits : (hexValue? a).isSome ∧ (hexValue? b).isSome ∧ (hexValue? c).isSome ∧ (hexValue? d).isSome := by
    unfold codeUnit? at hunit
    cases ha : hexValue? a <;> cases hb : hexValue? b <;> cases hc : hexValue? c <;> cases hd : hexValue? d <;>
      simp [ha, hb, hc, hd] at hunit ⊢
  have hplain : ∀ c, (hexValue? c).isSome → c ≠ '"' ∧ c ≠ '\\' := by
    intro c hc
    obtain ⟨n, hn⟩ := Option.isSome_iff_exists.1 hc
    exact ne_of_hexValue? hn
  obtain ⟨ha, hb, hc, hd⟩ := hdigits
  apply Moves.escape
  apply Moves.plain (hplain a ha).1 (hplain a ha).2
  apply Moves.plain (hplain b hb).1 (hplain b hb).2
  apply Moves.plain (hplain c hc).1 (hplain c hc).2
  exact Moves.plain (hplain d hd).1 (hplain d hd).2 h

theorem consChar_eq_ok {c : Char} {result : Except ReadError (List Char × List Char)} {s : List Char}
    (h : consChar c result = .ok (s, rest))
    : ∃ s', result = .ok (s', rest) := by
  cases result with
  | error => cases h
  | ok p =>
    cases h
    exact ⟨_, rfl⟩

theorem moves_stringBody {s : List Char} (h : stringBody cs = .ok (s, rest)) : Moves .inside 0 cs rest := by
  fun_induction stringBody cs generalizing s with
  | case1 =>
    cases h
    exact .cons_same (fun _ => rfl) .refl
  | case2 | case3 | case9 | case10 | case12 => cases h
  | case4 _ _ _ _ _ _ _ _ _ _ hhigh _ _ hlow _ ih =>
    obtain ⟨s', h⟩ := consChar_eq_ok h
    exact .unit hhigh (.unit hlow (ih h))
  | case5 _ _ _ _ _ _ _ _ _ _ hhigh _ _ _ _ ih =>
    obtain ⟨s', h⟩ := consChar_eq_ok h
    exact .unit hhigh (ih h)
  | case6 _ _ _ _ _ _ _ _ _ _ hhigh _ ih =>
    obtain ⟨s', h⟩ := consChar_eq_ok h
    exact .unit hhigh (ih h)
  | case7 _ _ _ _ _ _ _ hunit ih =>
    obtain ⟨s', h⟩ := consChar_eq_ok h
    exact .unit hunit (ih h)
  | case8 _ _ _ _ _ ih =>
    obtain ⟨s', h⟩ := consChar_eq_ok h
    exact .escape _ (ih h)
  | case11 c cs hquote _ _ hplain ih =>
    obtain ⟨s', h⟩ := consChar_eq_ok h
    exact .plain hquote (fun hslash => hplain (.inr hslash)) (ih h)

/-! #### Words and numbers -/

theorem Moves.neutral {a : Int} {c : Char} (hc : isNeutral c) (h : Moves .outside a cs rest)
    : Moves .outside a (c :: cs) rest := by
  have hsame : ∀ d ∈ [c], isNeutral d := by simpa using hc
  exact cons_same (fun depth => after_of_isNeutral hsame depth) h

theorem Moves.dropWhile {p : Char → Bool} (hp : ∀ c, p c → isNeutral c) (cs : List Char)
    : Moves .outside 0 cs (cs.dropWhile p) := by
  have : Moves .outside 0 (cs.takeWhile p ++ cs.dropWhile p) (cs.dropWhile p) :=
    of_isNeutral _ fun c hc => hp c (List.mem_takeWhile_imp hc)
  rwa [List.takeWhile_append_dropWhile] at this

theorem isNeutral_of_isDigit (c : Char) (h : c.isDigit) : isNeutral c := by
  have hne : ∀ d, ¬ d.isDigit → c ≠ d := by
    rintro d hd rfl
    exact hd h
  simp [isNeutral, isOpening, isClosing, hne '"' (by decide), hne '[' (by decide), hne '\x7b' (by decide),
    hne ']' (by decide), hne '\x7d' (by decide)]

theorem isNeutral_of_isSpace (c : Char) (h : isSpace c) : isNeutral c := by
  simp only [isSpace, Bool.or_eq_true, beq_iff_eq] at h
  obtain ((rfl | rfl) | rfl) | rfl := h <;> rfl

theorem moves_skipSpaces (cs : List Char) : Moves .outside 0 cs (skipSpaces cs) :=
  .dropWhile isNeutral_of_isSpace cs

theorem moves_minusSign (cs : List Char) : Moves .outside 0 cs (minusSign cs).2 := by
  unfold minusSign
  split
  · exact .neutral rfl .refl
  · exact .refl

theorem moves_exponentSign (cs : List Char) : Moves .outside 0 cs (exponentSign cs).2 := by
  unfold exponentSign
  split
  · exact .neutral rfl .refl
  · exact moves_minusSign _

theorem moves_wholePart? {whole : List Char} (h : wholePart? cs = some (whole, rest)) : Moves .outside 0 cs rest := by
  unfold wholePart? at h
  split at h
  · cases h
    exact .neutral rfl .refl
  · split at h
    next hd =>
      cases h
      exact .neutral (isNeutral_of_isDigit _ hd) (.dropWhile isNeutral_of_isDigit _)
    next => cases h
  · cases h

theorem moves_fraction (cs : List Char) : Moves .outside 0 cs (fraction cs).2 := by
  unfold fraction
  split
  · split
    next hd => exact .neutral rfl (.neutral (isNeutral_of_isDigit _ hd) (.dropWhile isNeutral_of_isDigit _))
    next => exact .refl
  · exact .refl

theorem moves_exponent (cs : List Char) : Moves .outside 0 cs (exponent cs).2 := by
  unfold exponent
  split
  next e rest =>
    split
    next he =>
      have hneutral : isNeutral e := by
        obtain rfl | rfl := he <;> rfl
      dsimp only
      split
      · exact .neutral hneutral ((moves_exponentSign rest).behind (.dropWhile isNeutral_of_isDigit _))
      · exact .refl
    next => exact .refl
  next => exact .refl

theorem moves_number {v : Json} (h : number cs = .ok (v, rest)) : Moves .outside 0 cs rest := by
  unfold number at h
  dsimp only at h
  split at h
  next => cases h
  next whole cs' hwhole =>
    have hmoves : Moves .outside 0 cs (exponent (fraction cs').2).2 :=
      (moves_minusSign cs).behind <| (moves_wholePart? hwhole).behind <| (moves_fraction cs').behind <|
        moves_exponent _
    -- An integer and a float differ in their values only.
    split at h
    all_goals
      split at h
      · cases h
        exact hmoves
      · cases h

theorem moves_atom {v : Json} (h : atom cs = .ok (v, rest)) : Moves .outside 0 cs rest := by
  unfold atom at h
  split at h
  case h_7 => exact moves_number h
  all_goals cases h
  · exact .of_isNeutral ['n', 'u', 'l', 'l'] (List.all_eq_true.1 rfl)
  · exact .of_isNeutral ['t', 'r', 'u', 'e'] (List.all_eq_true.1 rfl)
  · exact .of_isNeutral ['f', 'a', 'l', 's', 'e'] (List.all_eq_true.1 rfl)
  · exact .of_isNeutral ['N', 'a', 'N'] (List.all_eq_true.1 rfl)
  · exact .of_isNeutral ['I', 'n', 'f', 'i', 'n', 'i', 't', 'y'] (List.all_eq_true.1 rfl)
  · exact .of_isNeutral ['-', 'I', 'n', 'f', 'i', 'n', 'i', 't', 'y'] (List.all_eq_true.1 rfl)

/-! #### Values -/

structure Closes (fuel : Nat) : Prop where
  value {cs rest v} (h : value fuel cs = .ok (v, rest)) : Moves .outside 0 cs rest
  items {cs rest vs} (h : items fuel cs = .ok (vs, rest)) : Moves .outside (-1) cs rest
  members {cs rest ms} (h : members fuel cs = .ok (ms, rest)) : Moves .outside (-1) cs rest

theorem closes_zero : Closes 0 where
  value h := by cases h
  items h := by cases h
  members h := by cases h

variable {fuel : Nat}

theorem Closes.object (ih : Closes fuel) {v : Json} (h : Json.value (fuel + 1) ('\x7b' :: cs) = .ok (v, rest))
    : Moves .outside (-1) cs rest := by
  rw [Json.value] at h
  apply (moves_skipSpaces cs).behind
  split at h
  next hclose =>
    cases h
    rw [hclose]
    exact .closeObject
  next =>
    obtain ⟨⟨ms, rest'⟩, hms, h⟩ := bind_eq_ok_iff.1 h
    cases h
    exact ih.members hms

theorem Closes.value_succ (ih : Closes fuel) {v : Json} (h : Json.value (fuel + 1) cs = .ok (v, rest))
    : Moves .outside 0 cs rest := by
  have hvalue := h
  unfold Json.value at h
  split at h
  next cs =>
    obtain ⟨⟨s, rest'⟩, hs, h⟩ := bind_eq_ok_iff.1 h
    cases h
    exact .openString (moves_stringBody hs)
  next cs =>
    apply Moves.openArray
    apply (moves_skipSpaces cs).behind
    split at h
    next hclose =>
      cases h
      rw [hclose]
      exact .closeArray
    next =>
      obtain ⟨⟨vs, rest'⟩, hvs, h⟩ := bind_eq_ok_iff.1 h
      cases h
      exact ih.items hvs
  next => exact .openObject (ih.object hvalue)
  next => exact moves_atom h

theorem Closes.items_succ (ih : Closes fuel) {vs : List Json} (h : Json.items (fuel + 1) cs = .ok (vs, rest))
    : Moves .outside (-1) cs rest := by
  unfold Json.items at h
  obtain ⟨⟨v, cs'⟩, hv, h⟩ := bind_eq_ok_iff.1 h
  apply (ih.value hv).behind
  apply (moves_skipSpaces cs').behind
  dsimp only at h
  split at h
  next hclose =>
    cases h
    rw [hclose]
    exact .closeArray
  next ds hcomma =>
    obtain ⟨⟨ws, rest'⟩, hws, h⟩ := bind_eq_ok_iff.1 h
    cases h
    rw [hcomma]
    exact .neutral rfl ((moves_skipSpaces ds).behind (ih.items hws))
  next => cases h

theorem Closes.members_succ (ih : Closes fuel) {ms : List (String × Json)}
    (h : Json.members (fuel + 1) cs = .ok (ms, rest))
    : Moves .outside (-1) cs rest := by
  -- The key, the colon and the value leave the depth as it is; only the bracket at the end closes.
  unfold Json.members at h
  split at h
  next cs =>
    obtain ⟨⟨k, cs'⟩, hk, h⟩ := bind_eq_ok_iff.1 h
    apply Moves.openString
    apply (moves_stringBody hk).behind
    apply (moves_skipSpaces cs').behind
    dsimp only at h
    split at h
    next ds hcolon =>
      obtain ⟨⟨v, es⟩, hv, h⟩ := bind_eq_ok_iff.1 h
      rw [hcolon]
      apply Moves.neutral rfl
      apply (moves_skipSpaces ds).behind
      apply (ih.value hv).behind
      apply (moves_skipSpaces es).behind
      dsimp only at h
      split at h
      next hclose =>
        cases h
        rw [hclose]
        exact .closeObject
      next fs hcomma =>
        obtain ⟨⟨ns, rest'⟩, hns, h⟩ := bind_eq_ok_iff.1 h
        cases h
        rw [hcomma]
        exact .neutral rfl ((moves_skipSpaces fs).behind (ih.members hns))
      next => cases h
    next => cases h
  next => cases h

theorem closes : ∀ fuel, Closes fuel
  | 0 => closes_zero
  | fuel + 1 => ⟨(closes fuel).value_succ, (closes fuel).items_succ, (closes fuel).members_succ⟩

theorem after_of_parse {text : String} {v : Json} (h : parse text = .ok v)
    : after ⟨0, .outside⟩ text.toList = ⟨0, .outside⟩ := by
  unfold parse at h
  obtain ⟨⟨u, rest⟩, hvalue, h⟩ := bind_eq_ok_iff.1 h
  dsimp only at h
  split at h
  next hempty =>
    have hmoves : Moves .outside 0 text.toList (skipSpaces rest) :=
      (moves_skipSpaces _).behind <| ((closes _).value hvalue).behind (moves_skipSpaces rest)
    obtain ⟨used, hused, hafter⟩ := hmoves
    rw [List.isEmpty_iff.1 hempty, List.append_nil] at hused
    rw [hused, (hafter 0).1, Int.zero_add]
  next => cases h

/-! ### Texts that are cut short -/

theorem parse_empty : parse "" = .error .malformed := by
  rfl

theorem exists_error_of_prefix {members : List (String × Json)} (h : Storable (.object members)) {layout : Layout}
    {text : String} (hcut : text.toList <+: ((Json.object members).print layout 0).toList)
    (hne : text ≠ (Json.object members).print layout 0)
    : ∃ e, parse text = .error e := by
  cases hparse : parse text with
  | error e => exact ⟨e, rfl⟩
  | ok v =>
    exfalso
    have hread := reads_print h layout 0 _ [] (Nat.lt_succ_self _) (by simp [Delimited])
    obtain ⟨cs, hcs⟩ : ∃ cs, ((Json.object members).print layout 0).toList = '\x7b' :: cs := by
      cases members with
      | nil => exact ⟨['\x7d'], by simp [print]⟩
      | cons m ms => simp [print]
    have hwhole : text.toList ≠ '\x7b' :: cs := by
      rw [← hcs]
      exact fun heq => hne (String.toList_inj.1 heq)
    rw [hcs] at hcut
    rw [List.append_nil, hcs] at hread
    obtain ⟨used, hused, hafter⟩ := (closes _).object hread
    have hbalanced := after_of_parse hparse
    cases htext : text.toList with
    | nil =>
      rw [String.toList_eq_nil_iff.1 htext, parse_empty] at hparse
      cases hparse
    | cons c start =>
      rw [htext] at hcut hwhole hbalanced
      obtain ⟨rfl, hstart⟩ := List.cons_prefix_cons.1 hcut
      rw [hused, List.append_nil] at hstart hwhole
      -- Behind the mark that opens the object the depth is at least one, so that the text cannot end there.
      have hdepth := (hafter 1).2 start hstart fun heq => hwhole (by rw [heq])
      have hbehind : after ⟨0, .outside⟩ ('\x7b' :: start) = after ⟨1, .outside⟩ start := rfl
      rw [hbehind] at hbalanced
      rw [hbalanced] at hdepth
      exact absurd hdepth (by decide)

end LuaTypes.Json
