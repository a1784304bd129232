import Mathlib.Data.List.Forall2
import LuaTypes.Declaration.Source
import LuaTypes.Proofs.Text.Lines

/-!
The layout of a written file: blocks of documentation lines, each with its statement or without one. The
blocks are found again in the lines.
-/

namespace LuaTypes.Declaration

open Text

def docLine (text : List Char) : List Char :=
  if text.isEmpty then ['-', '-', '-'] else '-' :: '-' :: '-' :: ' ' :: text

structure Written where
  docs : List (List Char) := []
  statement : Option (List Char) := none

namespace Written

def lines (w : Written) : List String :=
  (w.docs.map docLine ++ w.statement.toList).map String.ofList

structure IsCode (s : List Char) : Prop where
  phrase : IsPhrase s
  not_comment : s.head? ≠ some '-'

structure Legible (w : Written) : Prop where
  docs : ∀ text ∈ w.docs, OneLine text ∧ stripRight text = text
  statement : ∀ s, w.statement = some s → IsCode s
  ne_nil : w.docs ≠ [] ∨ w.statement ≠ none

structure Matches (w : Written) (b : Block) : Prop where
  docs : b.docs.map (·.text) = w.docs
  statement : b.statement = w.statement

end Written

/-! ### Single lines -/

theorem stripRight_cons {c : Char} (h : isBlank c = false) (s : List Char)
    : stripRight (c :: s) = c :: stripRight s := by
  rw [stripRight, h]
  split
  next hnil => rw [hnil]; rfl
  next => rfl

theorem exists_docLine_eq (text : List Char) : ∃ cs, docLine text = '-' :: '-' :: '-' :: cs := by
  unfold docLine
  split
  · exact ⟨[], rfl⟩
  · exact ⟨' ' :: text, rfl⟩

theorem text_ofLine_docLine {text : List Char} (h : stripRight text = text) (line : Nat)
    : (DocLine.ofLine line (docLine text)).text = text := by
  unfold docLine
  split
  next hempty =>
    rw [List.isEmpty_iff.1 hempty]
    rfl
  next => exact h

theorem ofText_docLine {text : List Char} (h : stripRight text = text) (line : Nat)
    : ∃ doc, Block.Line.ofText line (docLine text) = .doc doc ∧ doc.text = text := by
  refine ⟨DocLine.ofLine line (docLine text), ?_, text_ofLine_docLine h line⟩
  obtain ⟨cs, hcs⟩ := exists_docLine_eq text
  have hstrip : strip (docLine text) = '-' :: '-' :: '-' :: stripRight cs := by
    rw [strip, hcs, stripLeft_of_head (by rintro _ ⟨⟩; rfl), stripRight_cons rfl, stripRight_cons rfl,
      stripRight_cons rfl]
  unfold Block.Line.ofText
  rw [hstrip]
  rfl

theorem longComment?_of_head {s : List Char} (h : s.head? ≠ some '-') : longComment? s = none := by
  unfold longComment?
  split
  · exact absurd rfl h
  · rfl

theorem ofText_statement {s : List Char} (h : Written.IsCode s) (line : Nat)
    : Block.Line.ofText line s = .statement s := by
  unfold Block.Line.ofText
  rw [h.phrase.strip_eq]
  dsimp only
  rw [longComment?_of_head h.not_comment]
  dsimp only
  split
  · exact absurd rfl h.phrase.ne_nil
  · exact absurd rfl h.not_comment
  · exact absurd rfl h.not_comment
  · rfl

theorem ofText_nil (line : Nat) : Block.Line.ofText line [] = .blank := rfl

/-! ### Blocks -/

namespace Block

variable {pending : List DocLine} {rest : List (List Char)} {line : Nat}

theorem ofLines_statement {s : List Char} (h : Written.IsCode s)
    : ofLines none pending line (s :: rest)
        = (⟨pending, some s, line⟩ :: (ofLines none [] (line + 1) rest).1, (ofLines none [] (line + 1) rest).2) := by
  rw [ofLines, ofText_statement h]

theorem ofLines_blank
    : ofLines none pending line ([] :: rest)
        = ((if pending.isEmpty then [] else [⟨pending, none, line⟩]) ++ (ofLines none [] (line + 1) rest).1,
            (ofLines none [] (line + 1) rest).2) := by
  rw [ofLines, ofText_nil]
  cases pending <;> rfl

theorem ofLines_docs {texts : List (List Char)} (h : ∀ text ∈ texts, stripRight text = text)
    : ∃ ds, ds.map (·.text) = texts ∧
        ofLines none pending line (texts.map docLine ++ rest)
          = ofLines none (pending ++ ds) (line + texts.length) rest := by
  induction texts generalizing pending line with
  | nil => exact ⟨[], rfl, by simp⟩
  | cons text texts ih =>
    obtain ⟨doc, hdoc, htext⟩ := ofText_docLine (h text (by simp)) line
    obtain ⟨ds, hds, hlines⟩ := @ih (pending ++ [doc]) (line + 1) fun t ht => h t (by simp [ht])
    refine ⟨doc :: ds, by rw [List.map_cons, htext, hds], ?_⟩
    rw [List.map_cons, List.cons_append, ofLines, hdoc]
    dsimp only
    rw [hlines, List.append_assoc, List.length_cons]
    congr 1
    omega

theorem toList_lines (w : Written) : w.lines.map String.toList = w.docs.map docLine ++ w.statement.toList := by
  rw [Written.lines, List.map_map]
  simp [Function.comp_def]

theorem ofLines_written {w : Written} (h : w.Legible) (line : Nat) (rest : List (List Char))
    (hrest : ∀ l ∈ rest.head?, l = [])
    : ∃ b line', w.Matches b ∧
        ofLines none [] line (w.lines.map String.toList ++ rest)
          = (b :: (ofLines none [] line' rest.tail).1, (ofLines none [] line' rest.tail).2) := by
  obtain ⟨ds, hds, hdocs⟩ := @ofLines_docs [] (w.statement.toList ++ rest) line w.docs fun t ht => (h.docs t ht).2
  rw [toList_lines, List.append_assoc, hdocs, List.nil_append]
  cases hstatement : w.statement with
  | some s =>
    refine ⟨⟨ds, some s, line + w.docs.length⟩, line + w.docs.length + 2, ⟨hds, hstatement.symm⟩, ?_⟩
    rw [Option.toList_some, List.singleton_append, ofLines_statement (h.statement s hstatement)]
    cases rest with
    | nil => rfl
    | cons l rest =>
      rw [hrest l rfl, ofLines_blank]
      rfl
  | none =>
    have hne : ds.isEmpty = false := by
      rw [← Bool.not_eq_true, List.isEmpty_iff]
      rintro rfl
      exact h.ne_nil.elim (fun hdocs => hdocs hds.symm) fun hnone => hnone hstatement
    refine ⟨⟨ds, none, line + w.docs.length⟩, line + w.docs.length + 1, ⟨hds, hstatement.symm⟩, ?_⟩
    cases rest with
    | nil => simp [ofLines, hne]
    | cons l rest =>
      rw [hrest l rfl, Option.toList_none, List.nil_append, ofLines_blank, hne]
      rfl

theorem ofLines_layout {ws : List Written} (h : ∀ w ∈ ws, w.Legible) (line : Nat)
    : ∃ bs, ofLines none [] line (layout (ws.map Written.lines)) = (bs, none) ∧
        List.Forall₂ Written.Matches ws bs := by
  induction ws generalizing line with
  | nil => exact ⟨[], rfl, .nil⟩
  | cons w ws ih =>
    have hw := h w (by simp)
    cases ws with
    | nil =>
      obtain ⟨b, line', hb, hlines⟩ := ofLines_written hw line [] (by simp)
      rw [List.append_nil] at hlines
      exact ⟨[b], hlines, .cons hb .nil⟩
    | cons v vs =>
      obtain ⟨b, line', hb, hlines⟩ := ofLines_written hw line ([] :: layout ((v :: vs).map Written.lines)) (by simp)
      obtain ⟨bs, hbs, hmatches⟩ := ih (fun u hu => h u (by simp [hu])) line'
      rw [List.tail_cons, hbs] at hlines
      exact ⟨b :: bs, hlines, .cons hb hmatches⟩

end Block

/-! ### Lines of legible blocks -/

namespace Written

variable {w : Written}

theorem Legible.lines_ne_nil (h : w.Legible) : w.lines ≠ [] := by
  unfold lines
  obtain hdocs | hstatement := h.ne_nil
  · simp [hdocs]
  · obtain ⟨s, hs⟩ := Option.ne_none_iff_exists'.1 hstatement
    simp [hs]

theorem oneLine_docLine {text : List Char} (h : OneLine text) : OneLine (docLine text) := by
  unfold docLine
  split
  · decide
  · simpa [OneLine] using ⟨by decide, by decide, h⟩

theorem Legible.oneLine (h : w.Legible) : ∀ l ∈ w.lines, OneLine l.toList := by
  intro l hl
  obtain ⟨text, htext, rfl⟩ := List.mem_map.1 hl
  rw [String.toList_ofList]
  rw [List.mem_append, Option.mem_toList] at htext
  obtain htext | htext := htext
  · obtain ⟨text, hmem, rfl⟩ := List.mem_map.1 htext
    exact oneLine_docLine (h.docs text hmem).1
  · exact (h.statement text htext).phrase.oneLine

end Written

end LuaTypes.Declaration
