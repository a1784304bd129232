import Mathlib.Logic.Relation
import LuaTypes.Proofs.Declaration.Reformatting

/-!
The layout of a source does not change what it declares: blanks around its lines, comments between them, and how many
empty lines stand behind each other. Each edit leaves what the stripped lines outside of comments say.
-/

namespace LuaTypes.Declaration

open Text

def longOpening (level : Nat) : List Char :=
  '-' :: '-' :: '[' :: (List.replicate level '=' ++ ['['])

def longClosing (level : Nat) : List Char :=
  ']' :: (List.replicate level '=' ++ [']'])

/--
Are the lines those of one long comment, which is closed on the last of them and not before?
-/
inductive IsLongComment : List (List Char) → Prop where
  | mk {level rest more others last} : rest :: more = others ++ [last] →
      (∀ l ∈ others, ¬ longClosing level <:+: l) → longClosing level <:+: last →
      IsLongComment ((longOpening level ++ rest) :: more)

/--
Changes of the layout: blanks are put around a line, or lines are put between others where no comment is open.
-/
inductive Edit : List (List Char) → List (List Char) → Prop where
  | blanks {above raw below left right} : (∀ c ∈ left ++ right, c = ' ' ∨ c = '\t') →
      Edit (above ++ raw :: below) (above ++ (left ++ raw ++ right) :: below)
  | remark {above raw below} : above.foldl closingAfter none = none → ['-', '-'] <+: raw → ¬ ['-', '-', '-'] <+: raw →
      (∀ level, ¬ longOpening level <+: raw) → Edit (above ++ below) (above ++ raw :: below)
  | longComment {above comment below} : above.foldl closingAfter none = none → IsLongComment comment →
      Edit (above ++ below) (above ++ comment ++ below)
  | emptyLine {above raw below} : above.foldl closingAfter none = none → strip raw = [] →
      Edit (above ++ raw :: below) (above ++ raw :: raw :: below)

/-! ### Long comments -/

theorem longComment?_longOpening (level : Nat) (rest : List Char)
    : longComment? (longOpening level ++ rest) = some (longClosing level, rest) := by
  have hequals : ∀ c ∈ List.replicate level '=', decide (c = '=') = true := by simp
  have htext : longOpening level ++ rest = '-' :: '-' :: '[' :: (List.replicate level '=' ++ '[' :: rest) := by
    simp [longOpening]
  rw [htext, longComment?, List.dropWhile_append_of_pos hequals, List.takeWhile_append_of_pos hequals]
  simp [longClosing]

theorem exists_longOpening_of_longComment? {s closing rest : List Char} (h : longComment? s = some (closing, rest))
    : ∃ level, longOpening level <+: s := by
  unfold longComment? at h
  split at h
  next cs =>
    split at h
    next hdrop =>
      refine ⟨(cs.takeWhile (· = '=')).length, rest, ?_⟩
      have htake : cs.takeWhile (· = '=') = List.replicate (cs.takeWhile (· = '=')).length '=' := by
        apply List.eq_replicate_of_mem
        intro c hc
        simpa using List.mem_takeWhile_imp hc
      cases h
      rw [longOpening, ← htake]
      simp [← hdrop]
    next => cases h
  next => cases h

theorem not_blank_longOpening (level : Nat) : ∀ c ∈ longOpening level, isBlank c = false := by
  intro c hc
  simp only [longOpening, List.mem_cons, List.mem_append, List.mem_replicate, List.not_mem_nil, or_false] at hc
  obtain rfl | rfl | rfl | ⟨-, rfl⟩ | rfl := hc <;> decide

theorem not_blank_longClosing (level : Nat) : ∀ c ∈ longClosing level, isBlank c = false := by
  intro c hc
  simp only [longClosing, List.mem_cons, List.mem_append, List.mem_replicate, List.not_mem_nil, or_false] at hc
  obtain rfl | ⟨-, rfl⟩ | rfl := hc <;> decide

theorem strip_longOpening (level : Nat) (rest : List Char)
    : strip (longOpening level ++ rest) = longOpening level ++ stripRight rest := by
  rw [strip, stripLeft_of_head (by rintro _ ⟨⟩; rfl), stripRight_of_not_blank (not_blank_longOpening level)]

structure Skips (closing : Option (List Char)) (ls : List (List Char)) : Prop where
  closing_eq : ls.foldl closingAfter closing = none
  outsideLines_eq (number : Nat) : outsideLines closing number ls = []

theorem skips_inside {level : Nat} {others : List (List Char)} {last : List Char}
    (hothers : ∀ l ∈ others, ¬ longClosing level <:+: l) (hlast : longClosing level <:+: last)
    : Skips (some (longClosing level)) (others ++ [last]) := by
  have hoccurs : ∀ l, occursIn (longClosing level) (strip l) = true ↔ longClosing level <:+: l := fun l =>
    occursIn_iff.trans (infix_strip_iff (not_blank_longClosing level))
  induction others with
  | nil =>
    have hclosed : closingAfter (some (longClosing level)) last = none := by
      rw [closingAfter_inside, if_pos ((hoccurs last).2 hlast)]
    exact ⟨by simpa using hclosed, fun number => rfl⟩
  | cons l others ih =>
    obtain ⟨hclosing, houtside⟩ := ih fun m hm => hothers m (by simp [hm])
    have hopen : closingAfter (some (longClosing level)) l = some (longClosing level) := by
      rw [closingAfter_inside, if_neg (fun h => hothers l (by simp) ((hoccurs l).1 h))]
    constructor
    · rw [List.cons_append, List.foldl_cons, hopen, hclosing]
    · intro number
      rw [List.cons_append, outsideLines_inside, ← closingAfter_inside, hopen, houtside]

theorem IsLongComment.skips {ls : List (List Char)} (h : IsLongComment ls) : Skips none ls := by
  obtain @⟨level, rest, more, others, last, hsplit, hothers, hlast⟩ := h
  have hopening : longComment? (strip (longOpening level ++ rest)) = some (longClosing level, stripRight rest) := by
    rw [strip_longOpening, longComment?_longOpening]
  have hoccurs : occursIn (longClosing level) (stripRight rest) = true ↔ longClosing level <:+: rest :=
    occursIn_iff.trans (infix_stripRight_iff (not_blank_longClosing level))
  cases others with
  | nil =>
    obtain ⟨rfl, rfl⟩ := List.cons.inj hsplit
    constructor
    · rw [List.foldl_cons, closingAfter_opening hopening, if_pos (hoccurs.2 hlast), List.foldl_nil]
    · intro number
      rw [outsideLines_opening hopening]
      rfl
  | cons l others =>
    rw [List.cons_append, List.cons.injEq] at hsplit
    obtain ⟨rfl, rfl⟩ := hsplit
    have hopen : ¬ occursIn (longClosing level) (stripRight rest) = true :=
      fun h => hothers rest (by simp) (hoccurs.1 h)
    have hothers' : ∀ l ∈ others, ¬ longClosing level <:+: l := fun l hl => hothers l (by simp [hl])
    obtain ⟨hclosing, houtside⟩ := skips_inside hothers' hlast
    constructor
    · rw [List.foldl_cons, closingAfter_opening hopening, if_neg hopen, hclosing]
    · intro number
      rw [outsideLines_opening hopening, if_neg hopen, houtside]

/-! ### Lines outside of comments -/

section

variable {ls ls' : List (List Char)}

theorem reformats_insert {above inserted : List (List Char)} (habove : above.foldl closingAfter none = none)
    (hinserted : inserted.foldl closingAfter none = none)
    (h : ∀ number, Reformats [] (outsideLines none number inserted)) (below : List (List Char))
    : Reformats (outsideLines none 1 (above ++ below)) (outsideLines none 1 (above ++ inserted ++ below)) := by
  rw [List.append_assoc, outsideLines_append, outsideLines_append, outsideLines_append, habove, hinserted]
  exact (Reformats.refl _).append ((h _).append (reformats_numbers none _ _ below))

theorem strip_remark {raw : List Char} (h : ['-', '-'] <+: raw) : strip raw = stripRight raw := by
  obtain ⟨rest, rfl⟩ := h
  rw [strip, stripLeft_of_head (by rintro _ ⟨⟩; rfl)]

theorem longComment?_remark {raw : List Char} (h : ['-', '-'] <+: raw) (hlong : ∀ level, ¬ longOpening level <+: raw)
    : longComment? (strip raw) = none := by
  rw [strip_remark h]
  cases hcomment : longComment? (stripRight raw) with
  | none => rfl
  | some r =>
    obtain ⟨level, hlevel⟩ := exists_longOpening_of_longComment? hcomment
    exact absurd (hlevel.trans (stripRight_isPrefix raw)) (hlong level)

theorem isComment_remark {raw : List Char} (h : ['-', '-'] <+: raw) (hdoc : ¬ ['-', '-', '-'] <+: raw)
    : (∀ number, (⟨number, raw⟩ : SourceLine).isDoc = false) ∧
        ∀ number, (⟨number, raw⟩ : SourceLine).isComment = true := by
  simp only [SourceLine.isDoc, SourceLine.isComment, strip_remark h]
  constructor
  · intro number
    rw [← Bool.not_eq_true, List.isPrefixOf_iff_prefix]
    exact fun hstart => hdoc (hstart.trans (stripRight_isPrefix raw))
  · intro number
    obtain ⟨rest, rfl⟩ := h
    rw [List.isPrefixOf_iff_prefix, stripRight_of_not_blank (by simp [Paragraph.isBlank_dash])]
    exact List.prefix_append _ _

theorem Edit.reformats (h : Edit ls ls')
    : ls'.foldl closingAfter none = ls.foldl closingAfter none ∧
        Reformats (outsideLines none 1 ls) (outsideLines none 1 ls') := by
  cases h with
  | @blanks above raw below left right hblanks =>
    have hblank : ∀ c ∈ left ++ right, isBlank c = true := by
      intro c hc
      obtain rfl | rfl := hblanks c hc <;> rfl
    have hstrip : strip raw = strip (left ++ raw ++ right) :=
      (strip_append_blanks (fun c hc => hblank c (by simp [hc])) (fun c hc => hblank c (by simp [hc])) raw).symm
    have hlines : (above ++ raw :: below).map strip = (above ++ (left ++ raw ++ right) :: below).map strip := by
      rw [List.map_append, List.map_append, List.map_cons, List.map_cons, hstrip]
    exact ⟨(foldl_closingAfter_congr hlines none).symm, reformats_outsideLines hlines none 1 1⟩
  | @remark above raw below habove hcomment hdoc hlong =>
    have hordinary := longComment?_remark hcomment hlong
    obtain ⟨hdoc, hcomment⟩ := isComment_remark hcomment hdoc
    have hclosing := closingAfter_ordinary hordinary
    constructor
    · rw [List.foldl_append, List.foldl_append, habove, List.foldl_cons, hclosing]
    · have hsplit : above ++ raw :: below = above ++ [raw] ++ below := by simp
      rw [hsplit]
      apply reformats_insert habove (by rw [List.foldl_cons, hclosing, List.foldl_nil])
      intro number
      rw [outsideLines_ordinary hordinary]
      exact .remark (hdoc number) (hcomment number) .nil
  | @longComment above comment below habove hcomment =>
    obtain ⟨hclosing, houtside⟩ := hcomment.skips
    constructor
    · rw [List.foldl_append, List.foldl_append, List.foldl_append, habove, hclosing]
    · apply reformats_insert habove hclosing
      intro number
      rw [houtside]
      exact .nil
  | @emptyLine above raw below habove hempty =>
    have hordinary : longComment? (strip raw) = none := by
      rw [hempty]
      rfl
    have hclosing := closingAfter_ordinary hordinary
    have hisEmpty : ∀ number, (⟨number, raw⟩ : SourceLine).isEmpty = true := by
      intro number
      rw [SourceLine.isEmpty, hempty]
      rfl
    constructor
    · simp only [List.foldl_append, List.foldl_cons, habove, hclosing]
    · rw [outsideLines_append, outsideLines_append, habove, outsideLines_ordinary hordinary,
        outsideLines_ordinary hordinary, outsideLines_ordinary hordinary]
      apply (Reformats.refl _).append
      exact .emptyLine (hisEmpty _) (hisEmpty _) (hisEmpty _) (reformats_numbers none _ _ below)

end

namespace File

variable {f : File} {source source' : String}

theorem parse_of_edit {ls ls' : List (List Char)} (h : Edit ls ls')
    (hf : ls.foldl closingAfter none = none ∧ Paragraph.declare (Paragraph.ofLines (outsideLines none 1 ls)) = .ok f)
    : ls'.foldl closingAfter none = none ∧ Paragraph.declare (Paragraph.ofLines (outsideLines none 1 ls')) = .ok f := by
  obtain ⟨hclosing, hreformats⟩ := h.reformats
  exact ⟨hclosing.trans hf.1, Paragraph.declare_of_resembles (Paragraph.resembles_ofLines hreformats) hf.2⟩

/--
A source can be read, and declares the same, after any number of edits of its layout.
-/
theorem parse_of_edits (h : Relation.ReflTransGen Edit (lines source.toList) (lines source'.toList))
    (hf : parse source = .ok f)
    : parse source' = .ok f := by
  rw [parse_eq_ok_iff] at hf ⊢
  have hall : ∀ ls, Relation.ReflTransGen Edit (lines source.toList) ls → ls.foldl closingAfter none = none ∧
      Paragraph.declare (Paragraph.ofLines (outsideLines none 1 ls)) = .ok f := by
    intro ls hls
    induction hls with
    | refl => exact hf
    | tail _ hedit ih => exact parse_of_edit hedit ih
  exact hall _ h

/-! ### A function that is laid out in two ways -/

def digText : String :=
  "\n--- Digs.\n--- @see side\nfunction dig() end\n"

def spacedDigText : String :=
  "\n\n--- Digs.\n-- Why?\n\t--- @see side \n--[=[ ]]\n]=]\nfunction dig() end\n"

theorem edits_dig : Relation.ReflTransGen Edit (lines digText.toList) (lines spacedDigText.toList) := by
  let line := String.toList
  have htext : lines digText.toList = [[], line "--- Digs.", line "--- @see side", line "function dig() end"] := rfl
  have hspaced : lines spacedDigText.toList
      = [[], [], line "--- Digs.", line "-- Why?", line "\t--- @see side ", line "--[=[ ]]", line "]=]",
        line "function dig() end"] :=
    rfl
  have hempty := @Edit.emptyLine [] [] [line "--- Digs.", line "--- @see side", line "function dig() end"] rfl rfl
  have hnotLong : ∀ level, ¬ longOpening level <+: line "-- Why?" := by
    rintro level ⟨rest, hrest⟩
    cases hrest
  have hremark := @Edit.remark [[], [], line "--- Digs."] (line "-- Why?")
    [line "--- @see side", line "function dig() end"] rfl ⟨_, rfl⟩ (by decide) hnotLong
  have hblanks := @Edit.blanks [[], [], line "--- Digs.", line "-- Why?"] (line "--- @see side")
    [line "function dig() end"] ['\t'] [' '] (by simp)
  have hlong : IsLongComment [line "--[=[ ]]", line "]=]"] :=
    @IsLongComment.mk 1 (line " ]]") [line "]=]"] [line " ]]"] (line "]=]") rfl (by decide) ⟨[], [], rfl⟩
  have hcomment := @Edit.longComment [[], [], line "--- Digs.", line "-- Why?", line "\t--- @see side "] _
    [line "function dig() end"] rfl hlong
  rw [htext, hspaced]
  exact (((Relation.ReflTransGen.single hempty).tail hremark).tail hblanks).tail hcomment

theorem parse_of_edits_dig
    : Relation.ReflTransGen Edit (lines digText.toList) (lines spacedDigText.toList) ∧
        ∃ f, parse digText = .ok f ∧ parse spacedDigText = .ok f ∧ f.functions.map (·.description) = [some "Digs."] :=
  have h : parse digText
      = .ok { functions := [{ name := "dig", description := some "Digs.", links := [{ target := "side" }] }] } :=
    rfl
  ⟨edits_dig, _, h, parse_of_edits edits_dig h, rfl⟩

end File

end LuaTypes.Declaration
