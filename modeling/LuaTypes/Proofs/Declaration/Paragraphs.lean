import LuaTypes.Proofs.Declaration.Concatenation

/-!
The lines of a source outside of long comments, and the paragraphs that they form: lines of documentation, with the
statement on the line behind them if there is one. A file declares what its paragraphs declare, one after the other.
-/

namespace LuaTypes.Declaration

open Text

structure SourceLine where
  number : Nat
  raw : List Char

namespace SourceLine

variable (l : SourceLine)

def isDoc : Bool :=
  ['-', '-', '-'].isPrefixOf (strip l.raw)

def isComment : Bool :=
  ['-', '-'].isPrefixOf (strip l.raw)

def isEmpty : Bool :=
  (strip l.raw).isEmpty

def doc : DocLine :=
  DocLine.ofLine l.number l.raw

end SourceLine

/-! ### Long comments -/

def closingAfter (closing : Option (List Char)) (raw : List Char) : Option (List Char) :=
  match closing with
  | some bracket => if occursIn bracket (strip raw) then none else some bracket
  | none =>
    match longComment? (strip raw) with
    | some (bracket, rest) => if occursIn bracket rest then none else some bracket
    | none => none

def standsOutside (closing : Option (List Char)) (raw : List Char) : Bool :=
  closing.isNone && (longComment? (strip raw)).isNone

def outsideLines (closing : Option (List Char)) (number : Nat) : List (List Char) → List SourceLine
  | [] => []
  | raw :: rest =>
    let outside := outsideLines (closingAfter closing raw) (number + 1) rest
    if standsOutside closing raw then ⟨number, raw⟩ :: outside else outside

section

variable {raw closing rest : List Char} {number : Nat} {ls : List (List Char)}

theorem closingAfter_inside
    : closingAfter (some closing) raw = if occursIn closing (strip raw) then none else some closing :=
  rfl

theorem closingAfter_opening (h : longComment? (strip raw) = some (closing, rest))
    : closingAfter none raw = if occursIn closing rest then none else some closing := by
  rw [closingAfter, h]

theorem closingAfter_ordinary (h : longComment? (strip raw) = none) : closingAfter none raw = none := by
  rw [closingAfter, h]

theorem outsideLines_inside
    : outsideLines (some closing) number (raw :: ls)
        = outsideLines (if occursIn closing (strip raw) then none else some closing) (number + 1) ls :=
  rfl

theorem outsideLines_opening (h : longComment? (strip raw) = some (closing, rest))
    : outsideLines none number (raw :: ls)
        = outsideLines (if occursIn closing rest then none else some closing) (number + 1) ls := by
  rw [outsideLines, standsOutside, closingAfter_opening h, h]
  rfl

theorem outsideLines_ordinary (h : longComment? (strip raw) = none)
    : outsideLines none number (raw :: ls) = ⟨number, raw⟩ :: outsideLines none (number + 1) ls := by
  rw [outsideLines, standsOutside, closingAfter_ordinary h, h]
  rfl

theorem outsideLines_append (closing : Option (List Char)) (number : Nat) (ls ms : List (List Char))
    : outsideLines closing number (ls ++ ms)
        = outsideLines closing number ls ++ outsideLines (ls.foldl closingAfter closing) (number + ls.length) ms := by
  induction ls generalizing closing number with
  | nil => rfl
  | cons raw ls ih =>
    have hlength : number + (raw :: ls).length = number + 1 + ls.length := by
      rw [List.length_cons]
      omega
    rw [List.cons_append, outsideLines, outsideLines, ih, List.foldl_cons, hlength]
    split <;> rfl

end

/-! ### Paragraphs -/

structure Paragraph where
  docs : List SourceLine
  statement : Option SourceLine := none

namespace Paragraph

def prepend (docs : List SourceLine) : List Paragraph → List Paragraph
  | [] => [⟨docs, none⟩]
  | p :: ps => { p with docs := docs ++ p.docs } :: ps

def ofLines : List SourceLine → List Paragraph
  | [] => [⟨[], none⟩]
  | l :: ls =>
    if l.isDoc then prepend [l] (ofLines ls)
    else if l.isComment then ofLines ls
    else ⟨[], if l.isEmpty then none else some l⟩ :: ofLines ls

def ofSource (source : String) : List Paragraph :=
  ofLines (outsideLines none 1 (lines source.toList))

def block (p : Paragraph) : Block where
  docs := p.docs.map (·.doc)
  statement := p.statement.map fun l => strip l.raw
  line := (p.statement.map (·.number)).getD 0

def declare (ps : List Paragraph) : Except Error File :=
  File.addBlocks {} (ps.map block)

section

variable {l : SourceLine} (ls : List SourceLine)

theorem ofLines_doc (h : l.isDoc = true) : ofLines (l :: ls) = prepend [l] (ofLines ls) := by
  rw [ofLines, if_pos h]

theorem ofLines_remark (hdoc : l.isDoc = false) (hcomment : l.isComment = true) : ofLines (l :: ls) = ofLines ls := by
  rw [ofLines, hdoc, if_neg Bool.false_ne_true, if_pos hcomment]

theorem ofLines_end (hdoc : l.isDoc = false) (hcomment : l.isComment = false)
    : ofLines (l :: ls) = ⟨[], if l.isEmpty then none else some l⟩ :: ofLines ls := by
  rw [ofLines, hdoc, if_neg Bool.false_ne_true, hcomment, if_neg Bool.false_ne_true]

end

theorem prepend_nil {ps : List Paragraph} (h : ps ≠ []) : prepend [] ps = ps := by
  cases ps with
  | nil => exact absurd rfl h
  | cons p ps => rfl

theorem prepend_prepend (docs docs' : List SourceLine) (ps : List Paragraph)
    : prepend docs (prepend docs' ps) = prepend (docs ++ docs') ps := by
  cases ps with
  | nil => rfl
  | cons p ps => simp [prepend]

theorem prepend_ne_nil (docs : List SourceLine) (ps : List Paragraph) : prepend docs ps ≠ [] := by
  cases ps <;> simp [prepend]

theorem ofLines_ne_nil (ls : List SourceLine) : ofLines ls ≠ [] := by
  induction ls with
  | nil => simp [ofLines]
  | cons l ls ih =>
    unfold ofLines
    split
    · exact prepend_ne_nil _ _
    · split
      · exact ih
      · simp

end Paragraph

/-! ### The blocks of the layout -/

namespace Block

theorem Line.ofText_eq (number : Nat) (raw : List Char)
    : Line.ofText number raw =
        match longComment? (strip raw) with
        | some (closing, rest) => if occursIn closing rest then .comment else .opening closing
        | none =>
          if (⟨number, raw⟩ : SourceLine).isDoc then .doc (DocLine.ofLine number raw)
          else if (⟨number, raw⟩ : SourceLine).isComment then .comment
          else if (⟨number, raw⟩ : SourceLine).isEmpty then .blank
          else .statement (strip raw) := by
  unfold Line.ofText SourceLine.isDoc SourceLine.isComment SourceLine.isEmpty
  generalize strip raw = s
  dsimp only
  cases longComment? s with
  | some r => rfl
  | none =>
    dsimp only
    split
    next => rfl
    next => rfl
    next cs hdoc =>
      have hdashes : ¬ ['-', '-', '-'].isPrefixOf ('-' :: '-' :: cs) = true := by
        rw [List.isPrefixOf_iff_prefix]
        rintro ⟨rest, heq⟩
        exact hdoc rest (by simpa using heq.symm)
      rw [if_neg hdashes, if_pos (by simp [List.isPrefixOf])]
    next hnil hdoc hcomment =>
      have hdashes : ¬ ['-', '-'].isPrefixOf s = true := by
        rw [List.isPrefixOf_iff_prefix]
        rintro ⟨rest, rfl⟩
        exact hcomment rest rfl
      have hdashes' : ¬ ['-', '-', '-'].isPrefixOf s = true := by
        rw [List.isPrefixOf_iff_prefix]
        rintro ⟨rest, rfl⟩
        exact hcomment ('-' :: rest) rfl
      rw [if_neg hdashes', if_neg hdashes, if_neg]
      simpa using hnil

end Block

namespace File

variable (f : File)

theorem addBlock_nothing (line : Nat) : f.addBlock ⟨[], none, line⟩ = .ok f := by
  simp [addBlock, Annotations.ofDocs, Annotations.describe, Annotations.description?, addAnnotations, bind, Except.bind,
    pure, Except.pure]

theorem addBlocks_nothing (bs : List Block) : f.addBlocks (⟨[], none, 0⟩ :: bs) = f.addBlocks bs := by
  rw [addBlocks, addBlock_nothing]

theorem addBlocks_cons (b : Block) (bs : List Block) : f.addBlocks (b :: bs) = f.addBlock b >>= (·.addBlocks bs) := by
  rw [addBlocks]
  cases f.addBlock b <;> rfl

end File

/--
Do the blocks of a layout declare what the paragraphs declare, and is the long comment open behind it that `closing`
closes? Only the paragraph before a comment that is left open has no block.
-/
structure Lays (layout : List Block × Option OpenComment) (closing : Option (List Char)) (ps : List Paragraph) : Prop
    where
  closing_eq : layout.2.map (·.closing) = closing
  declares : ∃ qs rs, ps = qs ++ rs ∧ (closing = none → rs = []) ∧
    ∀ f : File, f.addBlocks layout.1 = f.addBlocks (qs.map Paragraph.block)

namespace Lays

variable {bs bs' : List Block} {last : Option OpenComment} {closing : Option (List Char)} {ps : List Paragraph}

theorem cons {p : Paragraph} (h : Lays (bs, last) closing ps)
    (hbs : ∀ f : File, f.addBlocks bs' = f.addBlocks (p.block :: bs))
    : Lays (bs', last) closing (p :: ps) := by
  obtain ⟨hclosing, qs, rs, rfl, hlast, hdeclare⟩ := h
  refine ⟨hclosing, p :: qs, rs, rfl, hlast, fun f => ?_⟩
  rw [hbs, List.map_cons, File.addBlocks_cons, File.addBlocks_cons]
  cases f.addBlock p.block with
  | error e => rfl
  | ok g => exact hdeclare g

theorem statement (h : Lays (bs, last) closing ps) (pending : List SourceLine) (l : SourceLine)
    : Lays (⟨pending.map (·.doc), some (strip l.raw), l.number⟩ :: bs, last) closing (⟨pending, some l⟩ :: ps) :=
  h.cons fun _ => rfl

theorem detached (h : Lays (bs, last) closing ps) (pending : List SourceLine) (number : Nat)
    : Lays (if (pending.map (·.doc)).isEmpty then bs else ⟨pending.map (·.doc), none, number⟩ :: bs, last) closing
        (⟨pending, none⟩ :: ps) := by
  apply h.cons
  intro f
  cases pending with
  | nil => exact (f.addBlocks_nothing bs).symm
  | cons l pending => rfl

end Lays

theorem lays_ofLines (comment : Option OpenComment) (pending : List SourceLine) (number : Nat) (ls : List (List Char))
    : Lays (Block.ofLines comment (pending.map (·.doc)) number ls) (ls.foldl closingAfter (comment.map (·.closing)))
        (Paragraph.prepend pending (Paragraph.ofLines (outsideLines (comment.map (·.closing)) number ls))) := by
  -- `pending` holds the documentation since the last statement or empty line.
  induction ls generalizing comment pending number with
  | nil =>
    have hend : Paragraph.prepend pending (Paragraph.ofLines []) = [⟨pending, none⟩] := by
      simp [Paragraph.prepend, Paragraph.ofLines]
    rw [outsideLines, hend, List.foldl_nil]
    cases comment with
    | some c => exact ⟨rfl, [], _, rfl, by simp, fun f => rfl⟩
    | none => exact .detached ⟨rfl, [], [], rfl, by simp, fun f => rfl⟩ pending number
  | cons raw ls ih =>
    rw [List.foldl_cons]
    cases comment with
    | some c =>
      have hclosing : closingAfter (some c.closing) raw
          = (if occursIn c.closing (strip raw) then none else some c).map (·.closing) := by
        rw [apply_ite (Option.map _)]
        rfl
      rw [Block.ofLines, Option.map_some, outsideLines_inside, ← closingAfter_inside, hclosing]
      exact ih _ pending (number + 1)
    | none =>
      have hkind := Block.Line.ofText_eq number raw
      rw [Block.ofLines, Option.map_none]
      cases hlong : longComment? (strip raw) with
      | some r =>
        obtain ⟨closing, rest⟩ := r
        rw [hlong] at hkind
        dsimp only at hkind
        rw [outsideLines_opening hlong, closingAfter_opening hlong]
        by_cases hclosed : occursIn closing rest = true
        · rw [hkind, if_pos hclosed, if_pos hclosed]
          exact ih none pending (number + 1)
        · rw [hkind, if_neg hclosed, if_neg hclosed]
          exact ih (some ⟨closing, number⟩) pending (number + 1)
      | none =>
        rw [hlong] at hkind
        dsimp only at hkind
        rw [outsideLines_ordinary hlong, closingAfter_ordinary hlong]
        generalize hline : (⟨number, raw⟩ : SourceLine) = l at hkind
        rw [Paragraph.ofLines]
        by_cases hdoc : l.isDoc = true
        · rw [if_pos hdoc] at hkind ⊢
          rw [hkind, Paragraph.prepend_prepend]
          have hdocs := ih none (pending ++ [l]) (number + 1)
          rw [List.map_append, ← hline] at hdocs
          rw [← hline]
          exact hdocs
        · rw [if_neg hdoc] at hkind ⊢
          by_cases hcomment : l.isComment = true
          · rw [if_pos hcomment] at hkind ⊢
            rw [hkind]
            exact ih none pending (number + 1)
          · rw [if_neg hcomment] at hkind ⊢
            have hrest := ih none [] (number + 1)
            rw [Paragraph.prepend_nil (Paragraph.ofLines_ne_nil _)] at hrest
            rw [Paragraph.prepend, List.append_nil]
            by_cases hempty : l.isEmpty = true
            · rw [if_pos hempty] at hkind ⊢
              rw [hkind]
              exact hrest.detached pending number
            · rw [if_neg hempty] at hkind ⊢
              rw [hkind, ← hline]
              exact hrest.statement pending ⟨number, raw⟩

namespace File

variable {f : File} {source : String}

theorem lays_ofSource (source : String)
    : Lays (Block.ofLines none [] 1 (lines source.toList)) ((lines source.toList).foldl closingAfter none)
        (Paragraph.ofSource source) := by
  have hlays := lays_ofLines none [] 1 (lines source.toList)
  rw [Paragraph.prepend_nil (Paragraph.ofLines_ne_nil _)] at hlays
  exact hlays

theorem parse_eq_ok_iff
    : parse source = .ok f ↔ (lines source.toList).foldl closingAfter none = none ∧
        Paragraph.declare (Paragraph.ofSource source) = .ok f := by
  obtain ⟨hclosing, ps, qs, hsplit, hlast, hdeclare⟩ := lays_ofSource source
  unfold parse
  rw [hsplit, Paragraph.declare, ← hclosing]
  rw [← hclosing] at hlast
  generalize Block.ofLines none [] 1 (lines source.toList) = layout at hlast hdeclare ⊢
  obtain ⟨blocks, comment⟩ := layout
  dsimp only at hlast hdeclare ⊢
  rw [hdeclare]
  cases comment with
  | none =>
    rw [hlast rfl, List.append_nil]
    cases addBlocks {} (ps.map Paragraph.block) <;> simp [bind, Except.bind, pure, Except.pure]
  | some c => cases addBlocks {} (ps.map Paragraph.block) <;> simp [bind, Except.bind]

theorem exists_declare_of_parse_error {e : Error} (h : parse source = .error e)
    : (∃ ps qs, Paragraph.ofSource source = ps ++ qs ∧ Paragraph.declare ps = .error e) ∨
        ∃ position, e = .grammar .unterminatedComment position := by
  obtain ⟨-, ps, qs, hsplit, -, hdeclare⟩ := lays_ofSource source
  unfold parse at h
  generalize Block.ofLines none [] 1 (lines source.toList) = layout at h hdeclare
  obtain ⟨blocks, comment⟩ := layout
  dsimp only at h hdeclare
  rw [hdeclare] at h
  cases hps : addBlocks {} (ps.map Paragraph.block) with
  | error e' =>
    rw [hps] at h
    cases h
    exact .inl ⟨ps, qs, hsplit, hps⟩
  | ok f =>
    rw [hps] at h
    cases comment with
    | none => cases h
    | some c =>
      cases h
      exact .inr ⟨_, rfl⟩

end File

namespace Paragraph

variable {f : File}

theorem declare_cons_eq_ok_iff {p : Paragraph} {ps : List Paragraph}
    : declare (p :: ps) = .ok f ↔
        ∃ g h, File.addBlock {} p.block = .ok g ∧ declare ps = .ok h ∧ f = g.append h := by
  rw [declare, List.map_cons, File.addBlocks]
  cases File.addBlock {} p.block with
  | error e => simp
  | ok g =>
    dsimp only
    rw [File.addBlocks_eq_map, ← declare]
    cases declare ps with
    | error e => simp [Except.map]
    | ok h => simp [Except.map, eq_comm]

end Paragraph

end LuaTypes.Declaration
