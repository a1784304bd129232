import LuaTypes.Proofs.Text.Phrase

/-!
Where a fragment occurs in a text, and what blanks around the text change of that.
-/

namespace LuaTypes.Text

variable {fragment s t u : List Char} {n : Nat}

/-! ### Occurrences -/

theorem indexOf?_eq_some (h : indexOf? fragment s = some n)
    : fragment <+: s.drop n ∧ ∀ m < n, ¬ fragment <+: s.drop m := by
  induction s generalizing n with
  | nil =>
    rw [indexOf?] at h
    split at h
    next hempty =>
      cases h
      rw [List.isEmpty_iff.1 hempty]
      exact ⟨List.nil_prefix, by simp⟩
    next => cases h
  | cons c s ih =>
    rw [indexOf?] at h
    split at h
    next hstart =>
      cases h
      exact ⟨List.isPrefixOf_iff_prefix.1 hstart, by simp⟩
    next hstart =>
      obtain ⟨m, hm, rfl⟩ := Option.map_eq_some_iff.1 h
      obtain ⟨hoccurs, hfirst⟩ := ih hm
      refine ⟨hoccurs, fun k hk => ?_⟩
      cases k with
      | zero => exact fun hzero => hstart (List.isPrefixOf_iff_prefix.2 hzero)
      | succ k => exact hfirst k (by omega)

theorem indexOf?_isSome_iff : (indexOf? fragment s).isSome = true ↔ fragment <:+: s := by
  induction s with
  | nil =>
    rw [indexOf?, List.infix_nil]
    cases fragment <;> simp
  | cons c s ih =>
    rw [indexOf?, List.infix_cons_iff, ← ih, ← List.isPrefixOf_iff_prefix]
    split
    next h => simp [h]
    next h => simp [h]

theorem occursIn_iff : occursIn fragment s = true ↔ fragment <:+: s :=
  indexOf?_isSome_iff

theorem indexOf?_eq_length_iff (h : indexOf? fragment (t ++ fragment) = some n) (hne : fragment ≠ [])
    : n = t.length ↔ ∀ u v, t ++ fragment = u ++ (fragment ++ v) → v = [] := by
  obtain ⟨⟨w, hw⟩, hfirst⟩ := indexOf?_eq_some h
  constructor
  · rintro rfl u v huv
    have hlength := congrArg List.length huv
    simp only [List.length_append] at hlength
    have hle : t.length ≤ u.length := by
      by_contra hlt
      exact hfirst u.length (by omega) ⟨v, by rw [huv, List.drop_left]⟩
    exact List.eq_nil_of_length_eq_zero (by omega)
  · intro hlast
    have hsplit : t ++ fragment = (t ++ fragment).take n ++ (fragment ++ w) := by
      rw [hw, List.take_append_drop]
    have hlength := congrArg List.length hw
    rw [hlast _ _ hsplit] at hlength
    simp only [List.append_nil, List.length_drop, List.length_append] at hlength
    have := List.length_pos_iff.2 hne
    omega

/-! ### Blanks around a text -/

theorem stripRight_append_blanks (hu : ∀ c ∈ u, isBlank c = true) (s : List Char)
    : stripRight (s ++ u) = stripRight s := by
  induction u generalizing s with
  | nil => rw [List.append_nil]
  | cons c u ih =>
    have hassoc : s ++ c :: u = (s ++ [c]) ++ u := by simp
    rw [hassoc, ih fun d hd => hu d (by simp [hd]), stripRight_append_blank s (hu c (by simp))]

theorem stripLeft_append_blanks (hu : ∀ c ∈ u, isBlank c = true) (s : List Char)
    : stripLeft (u ++ s) = stripLeft s :=
  List.dropWhile_append_of_pos hu

theorem stripRight_stripLeft (s : List Char) : stripRight (stripLeft s) = stripLeft (stripRight s) := by
  induction s with
  | nil => rfl
  | cons c s ih =>
    by_cases hc : isBlank c = true
    · have hleft : stripLeft (c :: s) = stripLeft s := by simp [stripLeft, hc]
      rw [hleft, ih, stripRight]
      split
      next hnil => rw [if_pos hc, hnil]
      next => simp [stripLeft, hc]
    · have hleft : stripLeft (c :: s) = c :: s := by simp [stripLeft, hc]
      rw [hleft, stripLeft_of_head (head?_stripRight (by simpa using hc))]

theorem strip_append_blanks (hs : ∀ c ∈ s, isBlank c = true) (hu : ∀ c ∈ u, isBlank c = true) (t : List Char)
    : strip (s ++ t ++ u) = strip t := by
  rw [strip, stripRight_stripLeft, stripRight_append_blanks hu, ← stripRight_stripLeft, stripLeft_append_blanks hs,
    strip]

theorem stripRight_append (h : stripRight t ≠ []) (s : List Char) : stripRight (s ++ t) = s ++ stripRight t := by
  induction s with
  | nil => rfl
  | cons c s ih =>
    rw [List.cons_append, stripRight, ih]
    split
    next hnil => exact absurd (List.append_eq_nil_iff.1 hnil).2 h
    next => rfl

theorem stripRight_of_not_blank (hs : ∀ c ∈ s, isBlank c = false) (t : List Char)
    : stripRight (s ++ t) = s ++ stripRight t := by
  induction s with
  | nil => rfl
  | cons c s ih =>
    rw [List.cons_append, stripRight, ih fun d hd => hs d (by simp [hd]), hs c (by simp)]
    split
    next hnil => rw [List.cons_append, hnil]; rfl
    next => rfl

theorem infix_stripRight_iff (h : ∀ c ∈ fragment, isBlank c = false)
    : fragment <:+: stripRight s ↔ fragment <:+: s := by
  refine ⟨fun hoccurs => hoccurs.trans (stripRight_isPrefix s).isInfix, ?_⟩
  rintro ⟨t, u, rfl⟩
  cases fragment with
  | nil => exact List.nil_infix
  | cons c cs =>
    have hstrip := stripRight_of_not_blank h u
    rw [List.append_assoc, stripRight_append (by rw [hstrip]; simp), hstrip]
    exact ⟨t, stripRight u, by simp⟩

theorem infix_stripLeft_iff (h : ∀ c ∈ fragment, isBlank c = false)
    : fragment <:+: stripLeft s ↔ fragment <:+: s := by
  refine ⟨fun hoccurs => hoccurs.trans (stripLeft_isSuffix s).isInfix, ?_⟩
  rintro ⟨t, u, rfl⟩
  cases fragment with
  | nil => exact List.nil_infix
  | cons c cs =>
    induction t with
    | nil =>
      rw [stripLeft_of_head (by rintro _ ⟨⟩; exact h c (by simp))]
      exact ⟨[], u, rfl⟩
    | cons d t ih =>
      rw [List.cons_append, List.cons_append, stripLeft, List.dropWhile_cons]
      split
      · exact ih
      · exact ⟨d :: t, u, rfl⟩

theorem infix_strip_iff (h : ∀ c ∈ fragment, isBlank c = false) : fragment <:+: strip s ↔ fragment <:+: s := by
  rw [strip, infix_stripRight_iff h, infix_stripLeft_iff h]

end LuaTypes.Text
