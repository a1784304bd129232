import Mathlib.Data.List.TakeWhile
import LuaTypes.Text.Blank
import LuaTypes.Text.Numeral

/-!
Words and phrases. A phrase stands on one line and has no blanks around it; what is stripped is one, and
stripping leaves a phrase as it is. A word has no blanks at all.
-/

namespace LuaTypes.Text

def OneLine (s : List Char) : Prop :=
  ∀ c ∈ s, isLineBreak c = false

structure Trimmed (s : List Char) : Prop where
  head : ∀ c ∈ s.head?, isBlank c = false
  last : ∀ c ∈ s.getLast?, isBlank c = false

structure IsPhrase (s : List Char) : Prop extends Trimmed s where
  ne_nil : s ≠ []
  oneLine : OneLine s

structure IsWord (s : List Char) : Prop where
  ne_nil : s ≠ []
  not_blank : ∀ c ∈ s, isBlank c = false

variable {s t : List Char}

/-! ### Checks -/

theorem all_iff_oneLine : s.all (! isLineBreak ·) ↔ OneLine s := by
  simp [OneLine]

theorem all_iff_trimmed : (s.head?.all (! isBlank ·) && s.getLast?.all (! isBlank ·)) ↔ Trimmed s := by
  rw [Bool.and_eq_true, Option.all_eq_true, Option.all_eq_true]
  constructor
  · exact fun h => ⟨fun c hc => by simpa using h.1 c hc, fun c hc => by simpa using h.2 c hc⟩
  · exact fun h => ⟨fun c hc => by simp [h.head c hc], fun c hc => by simp [h.last c hc]⟩

theorem all_iff_isWord : (! s.isEmpty && s.all (! isBlank ·)) ↔ IsWord s := by
  rw [Bool.and_eq_true, List.all_eq_true]
  constructor
  · exact fun h => ⟨by simpa using h.1, fun c hc => by simpa using h.2 c hc⟩
  · exact fun h => ⟨by simpa using h.ne_nil, fun c hc => by simp [h.not_blank c hc]⟩

instance : DecidablePred OneLine := fun _ => decidable_of_iff _ all_iff_oneLine

instance : DecidablePred Trimmed := fun _ => decidable_of_iff _ all_iff_trimmed

instance : DecidablePred IsWord := fun _ => decidable_of_iff _ all_iff_isWord

instance : DecidablePred IsPhrase := fun s =>
  decidable_of_iff (Trimmed s ∧ s ≠ [] ∧ OneLine s) ⟨fun h => ⟨h.1, h.2.1, h.2.2⟩, fun h => ⟨h.1, h.2, h.3⟩⟩

/-! ### Lines -/

theorem OneLine.sublist (h : OneLine t) (hs : s.Sublist t) : OneLine s :=
  fun c hc => h c (hs.subset hc)

theorem oneLine_append : OneLine (s ++ t) ↔ OneLine s ∧ OneLine t := by
  simp only [OneLine, List.mem_append]
  grind

theorem oneLine_cons {c : Char} : OneLine (c :: s) ↔ isLineBreak c = false ∧ OneLine s := by
  simp [OneLine]

theorem oneLine_nil : OneLine [] := by
  simp [OneLine]

theorem not_isLineBreak_of_not_isBlank {c : Char} (h : isBlank c = false) : isLineBreak c = false := by
  rw [← Bool.not_eq_true]
  intro hbreak
  rw [isBlank_of_isLineBreak hbreak] at h
  cases h

theorem IsWord.isPhrase (h : IsWord s) : IsPhrase s where
  head := fun c hc => h.not_blank c (List.mem_of_mem_head? hc)
  last := fun c hc => h.not_blank c (List.mem_of_getLast? hc)
  ne_nil := h.ne_nil
  oneLine := fun c hc => not_isLineBreak_of_not_isBlank (h.not_blank c hc)

theorem oneLine_of_mem_lines (s : List Char) : ∀ l ∈ lines s, OneLine l := by
  fun_induction lines s with
  | case1 => simp
  | case2 cs ih => simpa [oneLine_nil] using ih
  | case3 c cs _ h ih => simpa [oneLine_nil] using ih
  | case4 c cs _ h hls ih => simpa [oneLine_cons, oneLine_nil] using h
  | case5 c cs _ h l ls hls ih =>
    rw [hls] at ih
    intro m hm
    rw [List.mem_cons] at hm
    cases hm with
    | inl hm =>
      rw [hm, oneLine_cons]
      exact ⟨by simpa using h, ih l (by simp)⟩
    | inr hm => exact ih m (by simp [hm])

/-! ### Stripping -/

theorem stripRight_isPrefix (s : List Char) : stripRight s <+: s := by
  induction s with
  | nil => exact List.prefix_refl []
  | cons c s ih =>
    rw [stripRight]
    split
    · split
      · exact List.nil_prefix
      · exact List.prefix_append [c] s
    next => exact (List.prefix_cons_inj c).2 ih

theorem stripRight_sublist (s : List Char) : (stripRight s).Sublist s :=
  (stripRight_isPrefix s).sublist

theorem last_stripRight (s : List Char) : ∀ c ∈ (stripRight s).getLast?, isBlank c = false := by
  induction s with
  | nil => simp [stripRight]
  | cons c s ih =>
    rw [stripRight]
    split
    · split
      · simp
      next h => simpa using h
    next hne =>
      cases hs : stripRight s with
      | nil => exact absurd hs hne
      | cons d ds =>
        rw [hs] at ih
        rwa [List.getLast?_cons_cons]

theorem stripRight_of_last (h : ∀ c ∈ s.getLast?, isBlank c = false) : stripRight s = s := by
  induction s with
  | nil => rfl
  | cons c s ih =>
    cases s with
    | nil =>
      have hc := h c rfl
      simp [stripRight, hc]
    | cons d ds =>
      rw [List.getLast?_cons_cons] at h
      rw [stripRight, ih h]

theorem stripRight_append_blank (s : List Char) {c : Char} (h : isBlank c = true)
    : stripRight (s ++ [c]) = stripRight s := by
  induction s with
  | nil => simp [stripRight, h]
  | cons d s ih => rw [List.cons_append, stripRight, ih, stripRight]

theorem stripLeft_isSuffix (s : List Char) : stripLeft s <:+ s :=
  List.dropWhile_suffix isBlank

theorem stripLeft_sublist (s : List Char) : (stripLeft s).Sublist s :=
  (stripLeft_isSuffix s).sublist

theorem head_stripLeft (s : List Char) : ∀ c ∈ (stripLeft s).head?, isBlank c = false := by
  intro c hc
  unfold stripLeft at hc
  induction s with
  | nil => cases hc
  | cons d s ih =>
    rw [List.dropWhile_cons] at hc
    split at hc
    · exact ih hc
    next h =>
      cases hc
      simpa using h

theorem stripLeft_of_head (h : ∀ c ∈ s.head?, isBlank c = false) : stripLeft s = s := by
  cases s with
  | nil => rfl
  | cons c s => simp [stripLeft, h c rfl]

theorem strip_isInfix (s : List Char) : strip s <:+: s :=
  (stripRight_isPrefix _).isInfix.trans (stripLeft_isSuffix s).isInfix

theorem strip_sublist (s : List Char) : (strip s).Sublist s :=
  (strip_isInfix s).sublist

theorem head?_stripRight (h : ∀ c ∈ s.head?, isBlank c = false)
    : ∀ c ∈ (stripRight s).head?, isBlank c = false := by
  cases s with
  | nil => simp [stripRight]
  | cons d s =>
    have hd := h d rfl
    intro c hc
    rw [stripRight, hd] at hc
    split at hc
    · cases hc
      exact hd
    next =>
      cases hc
      exact hd

theorem trimmed_strip (s : List Char) : Trimmed (strip s) where
  head := head?_stripRight (head_stripLeft s)
  last := last_stripRight _

theorem Trimmed.strip_eq (h : Trimmed s) : strip s = s := by
  rw [strip, stripLeft_of_head h.head, stripRight_of_last h.last]

theorem Trimmed.stripLeft_eq (h : Trimmed s) : stripLeft s = s :=
  stripLeft_of_head h.head

theorem Trimmed.stripRight_eq (h : Trimmed s) : stripRight s = s :=
  stripRight_of_last h.last

theorem isPhrase_strip (h : OneLine s) (hne : strip s ≠ []) : IsPhrase (strip s) where
  toTrimmed := trimmed_strip s
  ne_nil := hne
  oneLine := h.sublist (strip_sublist s)

/-! ### Words -/

theorem splitWord_snd_trimmed (s : List Char) : Trimmed (splitWord s).2 :=
  trimmed_strip _

theorem splitWord_snd_isInfix (s : List Char) : (splitWord s).2 <:+: s :=
  (strip_isInfix _).trans ((List.dropWhile_suffix _).trans (stripLeft_isSuffix s)).isInfix

theorem splitWord_snd_sublist (s : List Char) : (splitWord s).2.Sublist s :=
  (splitWord_snd_isInfix s).sublist

theorem isWord_splitWord (h : (splitWord s).1 ≠ []) : IsWord (splitWord s).1 where
  ne_nil := h
  not_blank := by
    intro c hc
    have := List.mem_takeWhile_imp hc
    simpa using this

theorem splitWord_append (hs : IsWord s) (ht : Trimmed t) : splitWord (s ++ ' ' :: t) = (s, t) := by
  have hleft : stripLeft (s ++ ' ' :: t) = s ++ ' ' :: t := by
    apply stripLeft_of_head
    obtain ⟨c, cs, rfl⟩ := List.exists_cons_of_ne_nil hs.ne_nil
    exact fun d hd => hs.isPhrase.head d hd
  have hblank : isBlank ' ' = true := rfl
  have hword : ∀ c ∈ s, (! isBlank c) = true := fun c hc => by simp [hs.not_blank c hc]
  unfold splitWord
  rw [hleft]
  dsimp only
  rw [List.takeWhile_append_of_pos hword, List.dropWhile_append_of_pos hword]
  simp only [List.takeWhile_cons, List.dropWhile_cons, hblank, Bool.not_true, Bool.false_eq_true,
    ↓reduceIte, List.append_nil, Prod.mk.injEq, true_and]
  rw [strip, stripLeft, List.dropWhile_cons, if_pos hblank]
  exact ht.strip_eq

theorem splitWord_of_isWord (hs : IsWord s) : splitWord s = (s, []) := by
  have hword : ∀ c ∈ s, (! isBlank c) = true := fun c hc => by simp [hs.not_blank c hc]
  unfold splitWord
  rw [hs.isPhrase.stripLeft_eq]
  dsimp only
  rw [List.takeWhile_eq_self_iff.2 hword, List.dropWhile_eq_nil_iff.2 hword]
  rfl

/-! ### Parts -/

theorem forall_mem_splitAtEach {separator : Char} (s : List Char)
    : ∀ p ∈ splitAtEach separator s, p.Sublist s ∧ separator ∉ p := by
  induction s with
  | nil => simp [splitAtEach]
  | cons c s ih =>
    rw [splitAtEach]
    split
    · intro p hp
      rw [List.mem_cons] at hp
      cases hp with
      | inl hp => simp [hp]
      | inr hp => exact ⟨.cons c (ih p hp).1, (ih p hp).2⟩
    next hc =>
      split
      next => simp [Ne.symm hc]
      next q qs hqs =>
        rw [hqs] at ih
        intro p hp
        rw [List.mem_cons] at hp
        cases hp with
        | inl hp =>
          have hq := ih q (by simp)
          rw [hp]
          exact ⟨hq.1.cons_cons c, by simp [Ne.symm hc, hq.2]⟩
        | inr hp =>
          have := ih p (by simp [hp])
          exact ⟨.cons c this.1, this.2⟩

theorem splitAtEach_eq_splitOn (separator : Char) (s : List Char)
    : splitAtEach separator s = s.splitOn separator := by
  induction s with
  | nil => rfl
  | cons c s ih =>
    rw [splitAtEach, ih, List.splitOn_eq_splitOnP, List.splitOn_eq_splitOnP,
      List.splitOnP_cons_eq_if_modifyHead]
    by_cases hc : c = separator
    · simp [hc]
    · simp only [hc, ↓reduceIte, beq_iff_eq]
      cases h : s.splitOnP (· == separator) with
      | nil => exact absurd h (List.splitOnP_ne_nil _ _)
      | cons p ps => rfl

theorem splitAtEach_join {separator : Char} {ls : List (List Char)} (hne : ls ≠ [])
    (h : ∀ l ∈ ls, separator ∉ l)
    : splitAtEach separator (join (String.singleton separator) (ls.map String.ofList)).toList = ls := by
  rw [splitAtEach_eq_splitOn, join, String.toList_intercalate, List.map_map]
  have : String.toList ∘ String.ofList = id := by
    funext l
    simp
  rw [this, List.map_id, String.toList_singleton]
  exact List.splitOn_intercalate separator h hne

theorem splitAtEach_of_notMem {separator : Char} {s : List Char} (h : separator ∉ s)
    : splitAtEach separator s = [s] := by
  induction s with
  | nil => rfl
  | cons c s ih =>
    rw [List.mem_cons, not_or] at h
    rw [splitAtEach, if_neg (Ne.symm h.1), ih h.2]

theorem splitAtEach_append_separator (separator : Char) (s t : List Char)
    : splitAtEach separator (s ++ separator :: t) = splitAtEach separator s ++ splitAtEach separator t := by
  simp only [splitAtEach_eq_splitOn, List.splitOn_eq_splitOnP]
  exact List.splitOnP_append_cons s t (by simp)

theorem splitAtEach_append {separator : Char} {s : List Char} (h : separator ∉ s) (t : List Char)
    : splitAtEach separator (s ++ separator :: t) = s :: splitAtEach separator t := by
  rw [splitAtEach_append_separator, splitAtEach_of_notMem h, List.singleton_append]

theorem splitAtEach_map {separator other : Char} {s : List Char} (h : separator ∉ s)
    : splitAtEach separator (s.map fun c => if c = other then separator else c) = splitAtEach other s := by
  induction s with
  | nil => rfl
  | cons c s ih =>
    rw [List.mem_cons, not_or] at h
    rw [List.map_cons, splitAtEach, splitAtEach, ih h.2]
    by_cases hc : c = other
    · rw [if_pos hc, if_pos hc, if_pos rfl]
    · rw [if_neg hc, if_neg hc, if_neg (Ne.symm h.1)]

theorem splitAtLast?_eq_some {separator : Char} {s before after : List Char}
    (h : splitAtLast? separator s = some (before, after))
    : s = before ++ separator :: after := by
  induction s generalizing before with
  | nil => cases h
  | cons c s ih =>
    rw [splitAtLast?] at h
    split at h
    next before' after' hsplit =>
      cases h
      rw [List.cons_append, ← ih hsplit]
    next =>
      split at h
      next hc =>
        cases h
        rw [hc, List.nil_append]
      next => cases h

theorem splitAtLast?_of_notMem {separator : Char} {s : List Char} (h : separator ∉ s)
    : splitAtLast? separator s = none := by
  induction s with
  | nil => rfl
  | cons c s ih =>
    rw [List.mem_cons, not_or] at h
    rw [splitAtLast?, ih h.2]
    exact if_neg (Ne.symm h.1)

theorem splitAtLast?_append {separator : Char} {after : List Char} (h : separator ∉ after) (before : List Char)
    : splitAtLast? separator (before ++ separator :: after) = some (before, after) := by
  induction before with
  | nil =>
    rw [List.nil_append, splitAtLast?, splitAtLast?_of_notMem h]
    exact if_pos rfl
  | cons c before ih => rw [List.cons_append, splitAtLast?, ih]

theorem splitAtLast?_eq_none_iff {separator : Char} {s : List Char}
    : splitAtLast? separator s = none ↔ separator ∉ s := by
  induction s with
  | nil => simp [splitAtLast?]
  | cons c s ih =>
    rw [splitAtLast?, List.mem_cons, not_or, ← ih]
    cases splitAtLast? separator s with
    | none => simp [eq_comm]
    | some => simp

theorem splitAtLast?_eq_some_iff {separator : Char} {s before after : List Char}
    : splitAtLast? separator s = some (before, after) ↔ s = before ++ separator :: after ∧ separator ∉ after := by
  constructor
  · intro h
    refine ⟨splitAtLast?_eq_some h, ?_⟩
    induction s generalizing before with
    | nil => cases h
    | cons c s ih =>
      rw [splitAtLast?] at h
      split at h
      next before' after' hsplit =>
        cases h
        exact ih hsplit
      next hnone =>
        split at h
        next =>
          cases h
          exact splitAtLast?_eq_none_iff.1 hnone
        next => cases h
  · rintro ⟨rfl, hafter⟩
    exact splitAtLast?_append hafter before

/-! ### Phrases from phrases -/

theorem IsPhrase.of_ends {c d : Char} (h : s = c :: t) (hc : isBlank c = false) (hlast : s.getLast? = some d)
    (hd : isBlank d = false) (hline : OneLine s)
    : IsPhrase s where
  head := by simpa [h] using hc
  last := by simpa [hlast] using hd
  ne_nil := by simp [h]
  oneLine := hline

theorem IsPhrase.around (hs : IsPhrase s) {u : List Char} (hu : OneLine u) (ht : IsPhrase t)
    : IsPhrase (s ++ u ++ t) where
  head := by
    obtain ⟨c, cs, rfl⟩ := List.exists_cons_of_ne_nil hs.ne_nil
    exact hs.head
  last := by
    rw [List.getLast?_append, List.getLast?_eq_some_getLast ht.ne_nil, Option.some_or,
      ← List.getLast?_eq_some_getLast ht.ne_nil]
    exact ht.last
  ne_nil := by simp [hs.ne_nil]
  oneLine := oneLine_append.2 ⟨oneLine_append.2 ⟨hs.oneLine, hu⟩, ht.oneLine⟩

theorem IsPhrase.append (hs : IsPhrase s) (ht : IsPhrase t) : IsPhrase (s ++ t) := by
  have := hs.around oneLine_nil ht
  rwa [List.append_nil] at this

theorem isPhrase_singleton {c : Char} (h : isBlank c = false) : IsPhrase [c] :=
  IsWord.isPhrase ⟨by simp, by simpa using h⟩

/-! ### Phrases as strings -/

section

variable {a b m : String}

theorem isPhrase_append (ha : IsPhrase a.toList) (hb : IsPhrase b.toList) : IsPhrase (a ++ b).toList := by
  rw [String.toList_append]
  exact ha.append hb

theorem isPhrase_around (ha : IsPhrase a.toList) (hm : OneLine m.toList) (hb : IsPhrase b.toList)
    : IsPhrase (a ++ m ++ b).toList := by
  rw [String.toList_append, String.toList_append]
  exact ha.around hm hb

theorem join_cons_of_ne_nil {texts : List String} (hne : texts ≠ []) (separator text : String)
    : join separator (text :: texts) = text ++ separator ++ join separator texts := by
  obtain ⟨text', texts, rfl⟩ := List.exists_cons_of_ne_nil hne
  exact String.intercalate_cons_cons

theorem isPhrase_join {separator : String} (hseparator : OneLine separator.toList) {texts : List String}
    (hne : texts ≠ []) (h : ∀ text ∈ texts, IsPhrase text.toList)
    : IsPhrase (join separator texts).toList := by
  induction texts with
  | nil => exact absurd rfl hne
  | cons text texts ih =>
    have htext := h text (by simp)
    by_cases hnil : texts = []
    · simpa [hnil, join] using htext
    · rw [join_cons_of_ne_nil hnil]
      exact isPhrase_around htext hseparator (ih hnil fun t ht => h t (by simp [ht]))

theorem oneLine_join {separator : String} (hseparator : OneLine separator.toList) {texts : List String}
    (h : ∀ text ∈ texts, IsPhrase text.toList)
    : OneLine (join separator texts).toList := by
  by_cases hnil : texts = []
  · rw [hnil]
    exact oneLine_nil
  · exact (isPhrase_join hseparator hnil h).oneLine

end

/-! ### Word characters -/

def blankCodes : List Nat :=
  [0x09, 0x0A, 0x0B, 0x0C, 0x0D, 0x1C, 0x1D, 0x1E, 0x1F, 0x20, 0x85, 0xA0, 0x1680, 0x2000, 0x2001, 0x2002, 0x2003,
    0x2004, 0x2005, 0x2006, 0x2007, 0x2008, 0x2009, 0x200A, 0x2028, 0x2029, 0x202F, 0x205F, 0x3000]

theorem toNat_mem_blankCodes {c : Char} (h : isBlank c = true) : c.toNat ∈ blankCodes := by
  simp only [isBlank, Bool.or_eq_true, Bool.and_eq_true, decide_eq_true_eq, beq_iff_eq] at h
  simp only [blankCodes, List.mem_cons, List.not_mem_nil, or_false]
  omega

theorem not_isBlank_of_isWordChar {c : Char} (h : isWordChar c = true) : isBlank c = false := by
  have hblanks : ∀ n ∈ blankCodes, isWordChar (Char.ofNat n) = false := by
    decide +kernel
  rw [← Bool.not_eq_true]
  intro hblank
  have := hblanks _ (toNat_mem_blankCodes hblank)
  rw [Char.ofNat_toNat, h] at this
  cases this

end LuaTypes.Text
