import LuaTypes.Proofs.Text.Phrase

/-!
Lines of a text stand in it, and lines that have been written with a line feed at the end of each are the
lines of what is written.
-/

namespace LuaTypes.Text

def endLines (ls : List (List Char)) : List Char :=
  ls.flatMap (· ++ ['\n'])

theorem lines_append {l : List Char} (h : OneLine l) (rest : List Char)
    : lines (l ++ '\n' :: rest) = l :: lines rest := by
  induction l with
  | nil => rfl
  | cons c l ih =>
    rw [oneLine_cons] at h
    have hreturn : c ≠ '\r' := by
      rintro rfl
      cases h.1
    rw [List.cons_append, lines, h.1, ih h.2]
    · rfl
    · exact fun _ hc => absurd hc hreturn

theorem lines_endLines {ls : List (List Char)} (h : ∀ l ∈ ls, OneLine l) : lines (endLines ls) = ls := by
  induction ls with
  | nil => rfl
  | cons l ls ih =>
    rw [endLines, List.flatMap_cons, List.append_assoc, List.singleton_append, lines_append (h l (by simp))]
    congr 1
    exact ih fun m hm => h m (by simp [hm])

theorem endLines_append (ls ms : List (List Char)) : endLines (ls ++ ms) = endLines ls ++ endLines ms :=
  List.flatMap_append

theorem toList_join_append {ls : List String} (hne : ls ≠ [])
    : (join "\n" ls).toList ++ ['\n'] = endLines (ls.map String.toList) := by
  induction ls with
  | nil => exact absurd rfl hne
  | cons l ls ih =>
    by_cases hnil : ls = []
    · simp [hnil, join, endLines]
    · rw [join_cons_of_ne_nil hnil, String.toList_append, String.toList_append, List.append_assoc, ih hnil,
        List.map_cons, endLines, endLines, List.flatMap_cons]
      rfl

def layout : List (List String) → List (List Char)
  | [] => [[]]
  | [b] => b.map String.toList
  | b :: c :: bs => b.map String.toList ++ [] :: layout (c :: bs)

theorem toList_join_blocks {bs : List (List String)} (h : ∀ b ∈ bs, b ≠ [])
    : (join "\n\n" (bs.map (join "\n")) ++ "\n").toList = endLines (layout bs) := by
  rw [String.toList_append]
  fun_induction layout bs with
  | case1 => rfl
  | case2 b => simpa [join] using toList_join_append (h b (by simp))
  | case3 b c bs ih =>
    rw [List.map_cons, join_cons_of_ne_nil (by simp), String.toList_append, String.toList_append, List.append_assoc,
      ih fun b hb => h b (by simp [hb]), endLines_append, ← toList_join_append (h b (by simp))]
    simp [endLines]

theorem oneLine_of_mem_layout {bs : List (List String)} (h : ∀ b ∈ bs, ∀ l ∈ b, OneLine l.toList)
    : ∀ l ∈ layout bs, OneLine l := by
  fun_induction layout bs with
  | case1 => simpa using oneLine_nil
  | case2 b => simpa using h
  | case3 b c bs ih =>
    rw [List.forall_mem_append, List.forall_mem_cons, List.forall_mem_map]
    exact ⟨h b (by simp), oneLine_nil, ih fun b hb => h b (by simp [hb])⟩

/-! ### Texts behind each other -/

/--
The lines of a text with one character more in front of it, where `next` is the first character of the text.
-/
def pushChar (c : Char) (next : Option Char) (ls : List (List Char)) : List (List Char) :=
  if c = '\r' ∧ next = some '\n' then ls
  else if isLineBreak c then [] :: ls
  else match ls with
    | [] => [[c]]
    | l :: ls => (c :: l) :: ls

theorem lines_cons (c : Char) (cs : List Char) : lines (c :: cs) = pushChar c cs.head? (lines cs) := by
  unfold pushChar
  by_cases h : c = '\r' ∧ cs.head? = some '\n'
  · obtain ⟨rfl, hhead⟩ := h
    obtain ⟨cs, rfl⟩ := List.head?_eq_some_iff.1 hhead
    rfl
  · have hpair : ∀ rest, c = '\r' → cs = '\n' :: rest → False := by
      rintro rest rfl rfl
      exact h ⟨rfl, rfl⟩
    rw [if_neg h]
    exact lines.eq_3 c cs hpair

theorem pushChar_append {ls : List (List Char)} (h : ls ≠ []) (c : Char) (next : Option Char) (ms : List (List Char))
    : pushChar c next (ls ++ ms) = pushChar c next ls ++ ms := by
  obtain ⟨l, ls, rfl⟩ := List.exists_cons_of_ne_nil h
  unfold pushChar
  split
  · rfl
  · split <;> rfl

theorem lines_ne_nil {cs : List Char} (h : cs ≠ []) : lines cs ≠ [] := by
  fun_cases lines cs with
  | case1 => exact absurd rfl h
  | case2 | case3 | case4 | case5 => simp

theorem lines_append_newline (cs rest : List Char)
    : lines (cs ++ '\n' :: rest) = lines (cs ++ ['\n']) ++ lines rest := by
  induction cs with
  | nil => rfl
  | cons c cs ih =>
    have hhead : (cs ++ '\n' :: rest).head? = (cs ++ ['\n']).head? := by cases cs <;> rfl
    rw [List.cons_append, List.cons_append, lines_cons, lines_cons, hhead, ih, pushChar_append]
    exact lines_ne_nil (by simp)

theorem lines_newline (cs : List Char)
    : lines (cs ++ ['\n']) = lines cs ∨ lines (cs ++ ['\n']) = lines cs ++ [[]] := by
  induction cs with
  | nil => exact .inr rfl
  | cons c cs ih =>
    cases cs with
    | nil =>
      rw [List.cons_append, lines_cons, lines_cons]
      by_cases hreturn : c = '\r'
      · exact .inl (by subst hreturn; rfl)
      · by_cases hbreak : isLineBreak c
        · exact .inr (by simp [pushChar, hreturn, hbreak]; rfl)
        · exact .inl (by simp [pushChar, hreturn, hbreak]; rfl)
    | cons d cs =>
      have hne : lines (d :: cs) ≠ [] := lines_ne_nil (by simp)
      have hhead : (d :: cs ++ ['\n']).head? = (d :: cs).head? := rfl
      rw [List.cons_append, lines_cons c, lines_cons c, hhead]
      obtain h | h := ih
      · exact .inl (by rw [h])
      · exact .inr (by rw [h, pushChar_append hne])

theorem forall_mem_of_isInfix {s t : List Char} {ls : List (List Char)} (hfirst : ∀ l ∈ ls.head?, l <+: s)
    (hrest : ∀ l ∈ ls.tail, l <:+: s) (hst : s <:+ t)
    : ∀ l ∈ ls, l <:+: t := by
  intro l hl
  cases ls with
  | nil => cases hl
  | cons m ms =>
    rw [List.mem_cons] at hl
    cases hl with
    | inl hl => exact hl ▸ (hfirst m rfl).isInfix.trans hst.isInfix
    | inr hl => exact (hrest l hl).trans hst.isInfix

theorem lines_isInfix (cs : List Char)
    : (∀ l ∈ (lines cs).head?, l <+: cs) ∧ ∀ l ∈ (lines cs).tail, l <:+: cs := by
  fun_induction lines cs with
  | case1 => simp
  | case2 cs ih => exact ⟨by simp, forall_mem_of_isInfix ih.1 ih.2 ⟨['\r', '\n'], rfl⟩⟩
  | case3 c cs _ _ ih => exact ⟨by simp, forall_mem_of_isInfix ih.1 ih.2 (List.suffix_cons c cs)⟩
  | case4 c cs =>
    refine ⟨?_, by simp⟩
    rintro _ ⟨⟩
    exact List.prefix_append [c] cs
  | case5 c cs _ _ l ls hcons ih =>
    rw [hcons] at ih
    constructor
    · rintro _ ⟨⟩
      exact (List.prefix_cons_inj c).2 (ih.1 l rfl)
    · exact fun m hm => (ih.2 m hm).trans (List.suffix_cons c cs).isInfix

theorem infix_of_mem_lines (cs : List Char) : ∀ l ∈ lines cs, l <:+: cs :=
  forall_mem_of_isInfix (lines_isInfix cs).1 (lines_isInfix cs).2 (List.suffix_refl cs)

end LuaTypes.Text
