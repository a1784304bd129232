import LuaTypes.Proofs.Text.Letter
import LuaTypes.Token.Reader

/-!
What the tokens of a text can be. A name starts like one, goes on as long as it can and is no keyword; a
string holds characters of the text and those that an escape stands for. Readers never see other tokens.
-/

namespace LuaTypes

namespace Lexeme

structure IsName (name : String) : Prop where
  start : ∃ c cs, name.toList = c :: cs ∧ isNameStart c = true ∧ Text.isDigit c = false ∧ namePart cs = cs
  not_keyword : Keyword.ofWord? name.toList = none

theorem isDigit_of_isNameStart {c : Char} (h : isNameStart c = true) : Text.isDigit c = false := by
  simp only [isNameStart, Bool.or_eq_true, beq_iff_eq] at h
  obtain h | rfl := h
  · exact Text.isDigit_of_isLetter h
  · decide +kernel

theorem isName_iff {name : String}
    : IsName name ↔ (∃ c cs, name.toList = c :: cs ∧ isNameStart c = true ∧ namePart cs = cs) ∧
        Keyword.ofWord? name.toList = none := by
  constructor
  · rintro ⟨⟨c, cs, hname, hstart, -, hpart⟩, hkeyword⟩
    exact ⟨⟨c, cs, hname, hstart, hpart⟩, hkeyword⟩
  · rintro ⟨⟨c, cs, hname, hstart, hpart⟩, hkeyword⟩
    exact ⟨⟨c, cs, hname, hstart, isDigit_of_isNameStart hstart, hpart⟩, hkeyword⟩

def Known (P : Char → Prop) : Lexeme → Prop
  | .name text => IsName text
  | .string content => ∀ c ∈ content.toList, P c
  | _ => True

theorem isWordChar_of_isNameStart {c : Char} (h : isNameStart c = true) : Text.isWordChar c = true := by
  unfold isNameStart at h
  unfold Text.isWordChar Text.isAlphanumeric
  rw [Bool.or_eq_true] at h
  cases h with
  | inl h => simp [h]
  | inr h => simp [h]

theorem namePart_namePart (cs : List Char) : namePart (namePart cs) = namePart cs := by
  induction cs with
  | nil => rfl
  | cons c cs ih =>
    have hhead : cs.head?.any isNameStart = true → (namePart cs).head? = cs.head? := by
      intro h
      cases cs with
      | nil => simp at h
      | cons d ds =>
        have hd := isWordChar_of_isNameStart (c := d) (by simpa using h)
        simp [namePart, hd]
    rw [namePart]
    split
    next h =>
      rw [namePart, ih]
      rw [if_pos]
      by_cases hc : Text.isWordChar c = true
      · simp [hc]
      · have hdot : (c == '.' && cs.head?.any isNameStart) = true := by simpa [hc] using h
        rw [Bool.and_eq_true] at hdot
        rw [hhead hdot.2, hdot.1, hdot.2]
        simp
    next => rfl

variable {P : Char → Prop}

theorem known_ofWord {c : Char} (cs : List Char) (h : isNameStart c = true) (hdigit : Text.isDigit c = false)
    : Known P (ofWord (c :: namePart cs)) := by
  unfold ofWord
  split
  next => trivial
  next hword =>
    constructor
    · exact ⟨c, namePart cs, by simp, h, hdigit, namePart_namePart cs⟩
    · simpa using hword

theorem forall_mem_stringBody (hescape : ∀ e c, unescape? e = some c → P c) {mark : Char}
    {cs content : List Char} {length : Nat} (hcs : ∀ c ∈ cs, P c)
    (h : stringBody mark cs = .ok (content, length))
    : ∀ c ∈ content, P c := by
  fun_induction stringBody mark cs generalizing content length with
  | case1 => cases h
  | case2 => cases h
  | case3 => cases h
  | case4 e cs d hd rest n hrest ih =>
    cases h
    intro c hc
    rw [List.mem_cons] at hc
    cases hc with
    | inl hc => exact hc ▸ hescape e d hd
    | inr hc => exact ih (fun c hc => hcs c (by simp [hc])) hrest c hc
  | case5 => cases h
  | case6 =>
    cases h
    simp
  | case7 d cs hne hmark rest n hrest ih =>
    cases h
    intro c hc
    rw [List.mem_cons] at hc
    cases hc with
    | inl hc => exact hc ▸ hcs d (by simp)
    | inr hc => exact ih (fun c hc => hcs c (by simp [hc])) hrest c hc
  | case8 => cases h

variable (hescape : ∀ e c, unescape? e = some c → P c)

include hescape

theorem known_ofString (mark : Char) {cs : List Char} (hcs : ∀ c ∈ cs, P c)
    : Known P (ofString mark cs).1 := by
  unfold ofString
  split
  next hbody =>
    have hcontent := forall_mem_stringBody hescape hcs hbody
    simpa [Known] using hcontent
  next => trivial
  next => trivial

theorem known_read (c : Char) {cs : List Char} (hcs : ∀ c ∈ cs, P c) : Known P (read c cs).1 := by
  unfold read
  split
  · trivial
  · trivial
  · split
    · trivial
    · split
      · exact known_ofString hescape c hcs
      · split
        · trivial
        next hnumber =>
          have hdigit : Text.isDigit c = false := by
            rw [Bool.or_eq_true, not_or, Bool.not_eq_true] at hnumber
            exact hnumber.1
          split
          next h => exact known_ofWord _ h hdigit
          next => trivial

end Lexeme

namespace Token

variable {P : Char → Prop}

def Known (P : Char → Prop) (t : Token) : Prop :=
  t.lexeme.Known P

theorem known_scanFrom (hescape : ∀ e c, Lexeme.unescape? e = some c → P c) (skip offset : Nat)
    {cs : List Char} (hcs : ∀ c ∈ cs, P c)
    : ∀ t ∈ scanFrom skip offset cs, t.Known P := by
  induction cs generalizing skip offset with
  | nil => simp [scanFrom, Known, Lexeme.Known]
  | cons c cs ih =>
    have hrest : ∀ c ∈ cs, P c := fun d hd => hcs d (List.mem_cons_of_mem c hd)
    cases skip with
    | succ skip => exact ih skip (offset + 1) hrest
    | zero =>
      rw [scanFrom]
      split
      · exact ih 0 (offset + 1) hrest
      · intro t ht
        rw [List.mem_cons] at ht
        cases ht with
        | inl ht =>
          rw [ht]
          exact Lexeme.known_read hescape c hrest
        | inr ht => exact ih _ _ hrest t ht

theorem known_scan (hescape : ∀ e c, Lexeme.unescape? e = some c → P c) {text : List Char}
    (htext : ∀ c ∈ text, P c)
    : ∀ t ∈ scan text, t.Known P :=
  known_scanFrom hescape 0 0 htext

end Token

namespace Reader

variable {π α β : Type} {P : Char → Prop}

theorem bind_apply (r : Reader π α) (f : α → Reader π β) (tokens : List Token)
    : (r >>= f) tokens =
        match r tokens with
        | .ok (x, rest) => f x rest
        | .error e => .error e := by
  change StateT.bind r f tokens = _
  unfold StateT.bind
  cases r tokens <;> rfl

theorem bind_of_ok {r : Reader π α} {f : α → Reader π β} {tokens rest : List Token} {x : α}
    (h : r tokens = .ok (x, rest))
    : (r >>= f) tokens = f x rest := by
  rw [bind_apply, h]

theorem bind_of_error {r : Reader π α} {f : α → Reader π β} {tokens : List Token} {e : ReadError π}
    (h : r tokens = .error e)
    : (r >>= f) tokens = .error e := by
  rw [bind_apply, h]

/--
From known tokens the reader makes only results with the property `Q`, and it leaves known tokens.
-/
def Yields (P : Char → Prop) (r : Reader π α) (Q : α → Prop) : Prop :=
  ∀ tokens x rest, (∀ t ∈ tokens, t.Known P) → r tokens = .ok (x, rest) → Q x ∧ ∀ t ∈ rest, t.Known P

namespace Yields

variable {r : Reader π α} {Q : α → Prop} {R : β → Prop}

theorem pure {x : α} (h : Q x) : Yields P (pure x : Reader π α) Q := by
  intro tokens y rest hknown hr
  cases hr
  exact ⟨h, hknown⟩

theorem bind {f : α → Reader π β} (hr : Yields P r Q) (hf : ∀ x, Q x → Yields P (f x) R)
    : Yields P (r >>= f) R := by
  intro tokens y rest hknown h
  rw [bind_apply] at h
  split at h
  next x mid hx =>
    have ⟨hQ, hmid⟩ := hr tokens x mid hknown hx
    exact hf x hQ mid y rest hmid h
  next => cases h

theorem mono {Q' : α → Prop} (hr : Yields P r Q) (h : ∀ x, Q x → Q' x) : Yields P r Q' := by
  intro tokens x rest hknown hx
  have ⟨hQ, hrest⟩ := hr tokens x rest hknown hx
  exact ⟨h x hQ, hrest⟩

theorem map {f : α → β} (hr : Yields P r Q) (h : ∀ x, Q x → R (f x)) : Yields P (f <$> r) R := by
  have : f <$> r = r >>= fun x => Pure.pure (f x) := by
    rw [bind_pure_comp]
  rw [this]
  exact hr.bind fun x hx => .pure (h x hx)

theorem fail {frame : Frame} {problem : π} : Yields P (fail frame problem : Reader π α) Q := by
  intro tokens x rest _ h
  cases h

theorem ite {c : Prop} [Decidable c] {r s : Reader π α} (hr : c → Yields P r Q) (hs : ¬ c → Yields P s Q)
    : Yields P (if c then r else s) Q := by
  split
  next h => exact hr h
  next h => exact hs h

end Yields

theorem known_first {tokens : List Token} (h : ∀ t ∈ tokens, t.Known P) : (first tokens).Known P := by
  cases tokens with
  | nil => trivial
  | cons t ts => exact h t (by simp)

theorem yields_peek : Yields P (peek : Reader π Lexeme) (Lexeme.Known P) := by
  intro tokens x rest hknown h
  cases h
  exact ⟨known_first hknown, hknown⟩

theorem yields_advance (frame : Frame) : Yields P (advance frame : Reader π Lexeme) fun _ => True := by
  intro tokens x rest hknown h
  refine ⟨trivial, ?_⟩
  unfold advance at h
  split at h
  next t u ts =>
    cases hguard : guardKnown (π := π) frame (u :: ts) with
    | error e =>
      rw [hguard] at h
      cases h
    | ok =>
      rw [hguard] at h
      cases h
      exact fun t ht => hknown t (List.mem_cons_of_mem _ ht)
  next =>
    cases h
    exact hknown

theorem yields_nextIs (lexeme : Lexeme) : Yields P (nextIs lexeme : Reader π Bool) fun _ => True := by
  unfold nextIs
  apply yields_peek.bind
  intro x _
  exact .pure trivial

theorem yields_accept (frame : Frame) (lexeme : Lexeme)
    : Yields P (accept frame lexeme : Reader π Bool) fun _ => True := by
  unfold accept
  apply (yields_nextIs lexeme).bind
  intro _ _
  apply Yields.ite
  · intro _
    apply (yields_advance frame).bind
    intro _ _
    exact .pure trivial
  · intro _
    exact .pure trivial

theorem yields_take (frame : Frame) (lexeme : Lexeme) (problem : Lexeme → π)
    : Yields P (do
        let found ← peek
        if found = lexeme then
          let _ ← advance frame
        else fail frame (problem found)) fun _ => True := by
  apply yields_peek.bind
  intro found _
  apply Yields.ite
  · intro _
    apply (yields_advance frame).bind
    intro _ _
    exact .pure trivial
  · intro _
    exact .fail

theorem yields_ofNumber (e : Except Decimal.NumberFault α) : Yields P (ofNumber (π := π) e) (e = .ok ·) := by
  cases e with
  | ok x => exact .pure rfl
  | error fault =>
    intro tokens x rest _ h
    cases h

end Reader

end LuaTypes
