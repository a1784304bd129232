import LuaTypes.Proofs.Declaration.Paragraphs
import LuaTypes.Proofs.Declaration.Placement
import LuaTypes.Proofs.Text.Occurrence

/-!
Lines that say the same declare the same. What a line says is what is left of it without the blanks around it; where
it stands, remarks around it and further empty lines behind an empty line add nothing.
-/

namespace LuaTypes.Declaration

open Text

/--
Are lines the same, but for blanks around them and where they stand, remarks, and empty lines behind empty lines?
-/
inductive Reformats : List SourceLine → List SourceLine → Prop where
  | nil : Reformats [] []
  | same {l l' ls ls'} : strip l.raw = strip l'.raw → Reformats ls ls' → Reformats (l :: ls) (l' :: ls')
  | remark {l ls ls'} : l.isDoc = false → l.isComment = true → Reformats ls ls' → Reformats ls (l :: ls')
  | emptyLine {l m n ls ls'} : l.isEmpty = true → m.isEmpty = true → n.isEmpty = true → Reformats ls ls' →
      Reformats (l :: ls) (m :: n :: ls')

namespace Reformats

theorem refl (ls : List SourceLine) : Reformats ls ls := by
  induction ls with
  | nil => exact .nil
  | cons l ls ih => exact .same rfl ih

theorem append {ls ls' ms ms' : List SourceLine} (h : Reformats ls ls') (h' : Reformats ms ms')
    : Reformats (ls ++ ms) (ls' ++ ms') := by
  induction h with
  | nil => exact h'
  | same hstrip _ ih => exact .same hstrip ih
  | remark hdoc hcomment _ ih => exact .remark hdoc hcomment ih
  | emptyLine hl hm hn _ ih => exact .emptyLine hl hm hn ih

end Reformats

section

variable {ls ls' : List (List Char)}

theorem closingAfter_congr {raw raw' : List Char} (h : strip raw = strip raw') (closing : Option (List Char))
    : closingAfter closing raw = closingAfter closing raw' := by
  unfold closingAfter
  rw [h]

theorem foldl_closingAfter_congr (h : ls.map strip = ls'.map strip) (closing : Option (List Char))
    : ls.foldl closingAfter closing = ls'.foldl closingAfter closing := by
  induction ls generalizing ls' closing with
  | nil =>
    rw [List.map_nil, eq_comm, List.map_eq_nil_iff] at h
    rw [h]
  | cons raw ls ih =>
    rw [List.map_cons, eq_comm, List.map_eq_cons_iff] at h
    obtain ⟨raw', ls', rfl, hraw, hls⟩ := h
    rw [List.foldl_cons, List.foldl_cons, closingAfter_congr hraw, ih hls.symm]

theorem reformats_outsideLines (h : ls.map strip = ls'.map strip) (closing : Option (List Char)) (number number' : Nat)
    : Reformats (outsideLines closing number ls) (outsideLines closing number' ls') := by
  induction ls generalizing ls' closing number number' with
  | nil =>
    rw [List.map_nil, eq_comm, List.map_eq_nil_iff] at h
    rw [h]
    exact .nil
  | cons raw ls ih =>
    rw [List.map_cons, eq_comm, List.map_eq_cons_iff] at h
    obtain ⟨raw', ls', rfl, hraw, hls⟩ := h
    have houtside : standsOutside closing raw' = standsOutside closing raw := by
      unfold standsOutside
      rw [hraw]
    rw [outsideLines, outsideLines, houtside, closingAfter_congr hraw]
    split
    · exact .same hraw.symm (ih hls.symm _ _ _)
    · exact ih hls.symm _ _ _

theorem reformats_numbers (closing : Option (List Char)) (number number' : Nat) (ls : List (List Char))
    : Reformats (outsideLines closing number ls) (outsideLines closing number' ls) :=
  reformats_outsideLines rfl closing number number'

end

/-! ### Paragraphs -/

namespace Paragraph

structure Similar (p p' : Paragraph) : Prop where
  docs : p.block.docs.map DocLine.text = p'.block.docs.map DocLine.text
  statement : p.block.statement = p'.block.statement

inductive Resembles : List Paragraph → List Paragraph → Prop where
  | nil : Resembles [] []
  | cons {p p' ps ps'} : Similar p p' → Resembles ps ps' → Resembles (p :: ps) (p' :: ps')
  | empty {p p' ps ps'} : Similar p p' → Resembles ps ps' → Resembles (p :: ps) (p' :: ⟨[], none⟩ :: ps')

variable {ls ls' : List SourceLine} {ps ps' : List Paragraph}

def dropSpace : List Char → List Char
  | ' ' :: cs => cs
  | cs => cs

theorem dropSpace_of_ne {c : Char} (h : c ≠ ' ') (cs : List Char) : dropSpace (c :: cs) = c :: cs := by
  unfold dropSpace
  split
  next heq => exact absurd (List.cons.inj heq).1 h
  next => rfl

theorem stripRight_dropSpace (cs : List Char) : stripRight (dropSpace cs) = dropSpace (stripRight cs) := by
  cases cs with
  | nil => rfl
  | cons c cs =>
    by_cases hc : c = ' '
    · subst hc
      rw [dropSpace, stripRight]
      split
      next hnil => rw [hnil]; rfl
      next => rfl
    · rw [dropSpace_of_ne hc, stripRight]
      split
      · split
        · rfl
        · exact (dropSpace_of_ne hc []).symm
      next => exact (dropSpace_of_ne hc _).symm

theorem isBlank_dash : isBlank '-' = false :=
  rfl

theorem text_doc {l : SourceLine} (h : l.isDoc = true) : l.doc.text = dropSpace ((strip l.raw).drop 3) := by
  have hstart := (List.isPrefixOf_iff_prefix.1 h).trans (stripRight_isPrefix _)
  obtain ⟨cs, hcs⟩ := hstart
  have hraw : l.raw = l.raw.takeWhile isBlank ++ (['-', '-', '-'] ++ cs) := by
    rw [hcs]
    exact List.takeWhile_append_dropWhile.symm
  have hdrop : l.raw.drop ((l.raw.takeWhile isBlank).length + 3) = cs := by
    generalize l.raw.takeWhile isBlank = blanks at hraw
    rw [hraw, ← List.drop_drop, List.drop_left]
    rfl
  have hstrip : strip l.raw = ['-', '-', '-'] ++ stripRight cs := by
    rw [strip, ← hcs, stripRight_of_not_blank (by simp [isBlank_dash])]
  have hspace : (if cs.head? = some ' ' then cs.drop 1 else cs) = dropSpace cs := by
    cases cs with
    | nil => rfl
    | cons c cs =>
      by_cases hc : c = ' '
      · subst hc
        rfl
      · rw [dropSpace_of_ne hc, if_neg (by simpa using hc)]
  have hrest : (strip l.raw).drop 3 = stripRight cs := by rw [hstrip]; rfl
  rw [hrest, ← stripRight_dropSpace, ← hspace]
  unfold SourceLine.doc DocLine.ofLine
  dsimp only
  rw [hdrop]
  split
  · rw [← List.drop_drop, hdrop]
  · rw [hdrop]

theorem Similar.prepend {p p' : Paragraph} (h : Similar p p') {l l' : SourceLine} (htext : l.doc.text = l'.doc.text)
    : Similar { p with docs := [l] ++ p.docs } { p' with docs := [l'] ++ p'.docs } := by
  have hdocs := h.docs
  simp only [block, List.map_map] at hdocs
  refine ⟨?_, h.statement⟩
  simp only [block, List.map_map, List.map_append, hdocs]
  simp [htext]

theorem Resembles.prepend (h : Resembles ps ps') {l l' : SourceLine} (htext : l.doc.text = l'.doc.text)
    : Resembles (Paragraph.prepend [l] ps) (Paragraph.prepend [l'] ps') := by
  cases h with
  | nil => exact .cons ⟨by simp [block, htext], rfl⟩ .nil
  | cons hp hps => exact .cons (hp.prepend htext) hps
  | empty hp hps => exact .empty (hp.prepend htext) hps

theorem not_isDoc {l : SourceLine} (h : l.isComment = false) : l.isDoc = false := by
  rw [← Bool.not_eq_true] at h ⊢
  intro hdoc
  exact h (List.isPrefixOf_iff_prefix.2 ((List.prefix_append _ ['-']).trans (List.isPrefixOf_iff_prefix.1 hdoc)))

theorem ofLines_empty {l : SourceLine} (h : l.isEmpty = true) (ls : List SourceLine)
    : ofLines (l :: ls) = ⟨[], none⟩ :: ofLines ls := by
  have hstrip : strip l.raw = [] := List.isEmpty_iff.1 h
  have hcomment : l.isComment = false := by
    rw [SourceLine.isComment, hstrip]
    rfl
  rw [ofLines_end ls (not_isDoc hcomment) hcomment, if_pos h]

theorem resembles_ofLines (h : Reformats ls ls') : Resembles (ofLines ls) (ofLines ls') := by
  induction h with
  | nil => exact .cons ⟨rfl, rfl⟩ .nil
  | @same l l' ls ls' hstrip _ ih =>
    have hdoc : l'.isDoc = l.isDoc := by rw [SourceLine.isDoc, ← hstrip]; rfl
    have hcomment : l'.isComment = l.isComment := by rw [SourceLine.isComment, ← hstrip]; rfl
    have hempty : l'.isEmpty = l.isEmpty := by rw [SourceLine.isEmpty, ← hstrip]; rfl
    cases hd : l.isDoc with
    | true =>
      rw [ofLines_doc ls hd, ofLines_doc ls' (hdoc.trans hd)]
      apply ih.prepend
      rw [text_doc hd, text_doc (hdoc.trans hd), hstrip]
    | false =>
      cases hc : l.isComment with
      | true =>
        rw [ofLines_remark ls hd hc, ofLines_remark ls' (hdoc.trans hd) (hcomment.trans hc)]
        exact ih
      | false =>
        rw [ofLines_end ls hd hc, ofLines_end ls' (hdoc.trans hd) (hcomment.trans hc), hempty]
        refine .cons ⟨rfl, ?_⟩ ih
        unfold block
        split
        · rfl
        · exact congrArg some hstrip
  | @remark l ls ls' hdoc hcomment _ ih =>
    rw [ofLines_remark ls' hdoc hcomment]
    exact ih
  | @emptyLine l m n ls ls' hl hm hn _ ih =>
    rw [ofLines_empty hl, ofLines_empty hm, ofLines_empty hn]
    exact .empty ⟨rfl, rfl⟩ ih

theorem declare_of_resembles {f : File} (h : Resembles ps ps') (hf : declare ps = .ok f) : declare ps' = .ok f := by
  induction h generalizing f with
  | nil => exact hf
  | cons hp _ ih =>
    obtain ⟨g, g', hg, hg', rfl⟩ := declare_cons_eq_ok_iff.1 hf
    exact declare_cons_eq_ok_iff.2 ⟨g, g', File.addBlock_of_same_texts hg hp.docs hp.statement, ih hg', rfl⟩
  | @empty p p' ps ps' hp _ ih =>
    have hnothing : declare (⟨[], none⟩ :: ps') = declare ps' := File.addBlocks_nothing {} _
    obtain ⟨g, g', hg, hg', rfl⟩ := declare_cons_eq_ok_iff.1 hf
    refine declare_cons_eq_ok_iff.2 ⟨g, g', File.addBlock_of_same_texts hg hp.docs hp.statement, ?_, rfl⟩
    rw [hnothing]
    exact ih hg'

end Paragraph

end LuaTypes.Declaration
