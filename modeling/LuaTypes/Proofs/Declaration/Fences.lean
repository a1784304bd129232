import LuaTypes.Proofs.Declaration.Reformatting

/-!
What stands in fenced code declares nothing. Other lines in its place change the description of what the paragraph
documents, and that alone.
-/

namespace LuaTypes.Declaration

open Text

/-! ### Descriptions -/

theorem describeLast_describeLast (d d' : Option String) (cs : List ClassType)
    : describeLast d (describeLast d' cs) = describeLast d cs := by
  induction cs with
  | nil => rfl
  | cons c cs ih =>
    cases cs with
    | nil => rfl
    | cons c' cs =>
      obtain ⟨e, es, hes⟩ : ∃ e es, describeLast d' (c' :: cs) = e :: es := by cases cs <;> exact ⟨_, _, rfl⟩
      rw [hes] at ih
      change describeLast d (c :: describeLast d' (c' :: cs)) = c :: describeLast d (c' :: cs)
      rw [← ih, hes]
      rfl

theorem exists_describeLast_eq_self (cs : List ClassType) : ∃ d, describeLast d cs = cs := by
  induction cs with
  | nil => exact ⟨none, rfl⟩
  | cons c cs ih =>
    cases cs with
    | nil => exact ⟨c.description, rfl⟩
    | cons c' cs =>
      obtain ⟨d, hd⟩ := ih
      exact ⟨d, congrArg (c :: ·) hd⟩

theorem isEmpty_describeLast (d : Option String) (cs : List ClassType) : (describeLast d cs).isEmpty = cs.isEmpty := by
  match cs with
  | [] => rfl
  | [_] => rfl
  | _ :: _ :: _ => rfl

theorem describeFirst_describeFirst (d d' : Option String) (xs : List Alias)
    : describeFirst d (describeFirst d' xs) = describeFirst d xs := by
  cases xs <;> rfl

theorem exists_describeFirst_eq_self (xs : List Alias) : ∃ d, describeFirst d xs = xs := by
  cases xs with
  | nil => exact ⟨none, rfl⟩
  | cons x xs => exact ⟨x.description, rfl⟩

theorem exists_set_eq {α β : Type} {set : Option β → α → α} (hset : ∀ d d' x, set d (set d' x) = set d x)
    (hself : ∀ x, ∃ d, set d x = x) (d d' : Option β) (x : α)
    : ∃ e, set e (d.elim x fun b => set (some b) x) = d'.elim x fun b => set (some b) x := by
  obtain ⟨e, he⟩ : ∃ e, set e x = d'.elim x fun b => set (some b) x := by
    cases d' with
    | none => exact hself x
    | some b => exact ⟨some b, rfl⟩
  refine ⟨e, ?_⟩
  cases d with
  | none => exact he
  | some b => exact (hset e (some b) x).trans he

namespace File

def redescribe (f : File) (description : Option String) : File :=
  if ! f.functions.isEmpty then
    { f with functions := f.functions.map fun fn => { fn with description } }
  else if ! f.classes.isEmpty then { f with classes := describeLast description f.classes }
  else { f with aliases := describeFirst description f.aliases }

theorem exists_redescribe_describe (a : Annotations) (d d' : Option String)
    : ∃ e, ∀ namespaces moduleReturn,
        ({ addAnnotations {} (a.describe d') with namespaces, moduleReturn } : File)
          = redescribe { addAnnotations {} (a.describe d) with namespaces, moduleReturn } e := by
  cases hclasses : a.classes.isEmpty with
  | true =>
    obtain ⟨e, he⟩ := exists_set_eq describeFirst_describeFirst exists_describeFirst_eq_self d d' a.aliases
    refine ⟨e, fun namespaces moduleReturn => ?_⟩
    rw [a.describe_eq, a.describe_eq, hclasses]
    simp [redescribe, addAnnotations, hclasses, he]
  | false =>
    obtain ⟨e, he⟩ := exists_set_eq describeLast_describeLast exists_describeLast_eq_self d d' a.classes
    refine ⟨e, fun namespaces moduleReturn => ?_⟩
    have hdescribed : (d.elim a.classes fun t => describeLast (some t) a.classes).isEmpty = false := by
      cases d with
      | none => exact hclasses
      | some t => exact (isEmpty_describeLast _ _).trans hclasses
    rw [a.describe_eq, a.describe_eq, hclasses]
    simp [redescribe, addAnnotations, hdescribed, he]

theorem Settles.exists_redescribe {a a' : Annotations} {statement : Option (List Char)} {f : File}
    (h : Settles a statement f) (hagree : a.Agree a')
    : ∃ description, Settles a' statement (f.redescribe description) := by
  obtain ⟨e, he⟩ := exists_redescribe_describe a a.description? a'.description?
  have hclasses : a'.classes = a.classes := by rw [hagree.eq]
  have hdescribe := addAnnotations_describe hagree a'.description?
  cases h with
  | @function text name params hparse =>
    refine ⟨a'.description?, ?_⟩
    have hfile : redescribe { addAnnotations {} a with functions := [a.function name params] } a'.description?
        = { addAnnotations {} a' with functions := [a'.function name params] } := by
      rw [hagree.eq]
      rfl
    rw [hfile]
    exact .function hparse
  | detached hnone =>
    refine ⟨e, ?_⟩
    have hsettles := Settles.detached (hagree.functionTag hnone)
    rw [hdescribe] at hsettles
    exact he [] none ▸ hsettles
  | table hnone hparse =>
    refine ⟨e, ?_⟩
    have hsettles := Settles.table (hagree.functionTag hnone) hparse
    rw [hdescribe, hclasses] at hsettles
    exact he _ none ▸ hsettles
  | moduleReturn hnone hparse =>
    refine ⟨e, ?_⟩
    have hsettles := Settles.moduleReturn (hagree.functionTag hnone) hparse
    rw [hdescribe] at hsettles
    exact he [] _ ▸ hsettles

end File

/-! ### Files -/

namespace File

theorem empty_append (f : File) : append {} f = f := by
  simp [append]

theorem append_assoc (f g h : File) : (f.append g).append h = f.append (g.append h) := by
  simp [append, Option.or_assoc]

end File

/-! ### Lines of one paragraph -/

namespace Entry

variable {openAlias : Bool} {docs region region' rest rest' : List DocLine}

theorem ofDocs_fenced {doc : DocLine} (h : Annotations.isFence doc = false) (openAlias : Bool) (docs : List DocLine)
    : ofDocs true openAlias (doc :: docs) = ⟨doc, .prose⟩ :: ofDocs true openAlias docs := by
  rw [ofDocs, h]
  rfl

theorem sameTags_of_fenced (hregion : ∀ doc ∈ region, Annotations.isFence doc = false)
    (hregion' : ∀ doc ∈ region', Annotations.isFence doc = false)
    (hrest : SameTags (ofDocs true openAlias rest) (ofDocs true openAlias rest'))
    : SameTags (ofDocs true openAlias (region ++ rest)) (ofDocs true openAlias (region' ++ rest')) := by
  induction region with
  | cons doc region ih =>
    rw [List.cons_append, ofDocs_fenced (hregion doc (by simp))]
    exact .left doc (ih fun d hd => hregion d (by simp [hd]))
  | nil =>
    rw [List.nil_append]
    clear hregion
    induction region' with
    | nil => exact hrest
    | cons doc region' ih =>
      rw [List.cons_append, ofDocs_fenced (hregion' doc (by simp))]
      exact .right doc (ih fun d hd => hregion' d (by simp [hd]))

theorem sameTags_region {fenced : Bool} (hfence : fenceAfter fenced (docs.map DocLine.text) = true)
    (hregion : ∀ doc ∈ region, Annotations.isFence doc = false)
    (hregion' : ∀ doc ∈ region', Annotations.isFence doc = false)
    (hrest : rest.map DocLine.text = rest'.map DocLine.text)
    : SameTags (ofDocs fenced openAlias (docs ++ (region ++ rest)))
        (ofDocs fenced openAlias (docs ++ (region' ++ rest'))) := by
  induction docs generalizing fenced openAlias with
  | nil =>
    obtain rfl : fenced = true := hfence
    rw [List.nil_append, List.nil_append]
    exact sameTags_of_fenced hregion hregion' (sameTags_ofDocs hrest true openAlias).1
  | cons doc docs ih => exact .cons doc doc _ (ih hfence)

end Entry

/-! ### Paragraphs -/

namespace Paragraph

variable {ls : List SourceLine} {ps qs : List Paragraph} {f g : File}

def MayStandFenced (l : SourceLine) : Prop :=
  if l.isDoc then Annotations.isFence l.doc = false else l.isComment = true

theorem ofLines_fenced (h : ∀ l ∈ ls, MayStandFenced l) (rest : List SourceLine)
    : ofLines (ls ++ rest) = prepend (ls.filter (·.isDoc)) (ofLines rest) := by
  induction ls with
  | nil => exact (prepend_nil (ofLines_ne_nil rest)).symm
  | cons l ls ih =>
    have hl := h l (by simp)
    have hls := ih fun m hm => h m (by simp [hm])
    unfold MayStandFenced at hl
    rw [List.cons_append]
    split at hl
    next hdoc => rw [ofLines_doc _ hdoc, hls, prepend_prepend, List.filter_cons_of_pos hdoc, List.singleton_append]
    next hdoc => rw [ofLines_remark _ (by simpa using hdoc) hl, hls, List.filter_cons_of_neg hdoc]

theorem isFence_filter (h : ∀ l ∈ ls, MayStandFenced l)
    : ∀ l ∈ ls.filter (·.isDoc), Annotations.isFence l.doc = false := by
  intro l hl
  rw [List.mem_filter] at hl
  have hstands := h l hl.1
  rw [MayStandFenced, if_pos hl.2] at hstands
  exact hstands

theorem exists_ofLines_append (ls : List SourceLine)
    : ∃ ps docs, ofLines ls = ps ++ [⟨docs, none⟩] ∧
        ∀ rest, ofLines (ls ++ rest) = ps ++ prepend docs (ofLines rest) := by
  -- `docs` is the documentation still open at the end, to which `rest` is added.
  induction ls with
  | nil => exact ⟨[], [], rfl, fun rest => (prepend_nil (ofLines_ne_nil rest)).symm⟩
  | cons l ls ih =>
    obtain ⟨ps, docs, hpending, happend⟩ := ih
    cases hdoc : l.isDoc with
    | true =>
      cases ps with
      | nil =>
        refine ⟨[], [l] ++ docs, ?_, fun rest => ?_⟩
        · rw [ofLines_doc _ hdoc, hpending]
          rfl
        · rw [List.cons_append, ofLines_doc _ hdoc, happend, List.nil_append, prepend_prepend, List.nil_append]
      | cons p ps =>
        refine ⟨{ p with docs := [l] ++ p.docs } :: ps, docs, ?_, fun rest => ?_⟩
        · rw [ofLines_doc _ hdoc, hpending]
          rfl
        · rw [List.cons_append, ofLines_doc _ hdoc, happend]
          rfl
    | false =>
      cases hcomment : l.isComment with
      | true =>
        refine ⟨ps, docs, ?_, fun rest => ?_⟩
        · rw [ofLines_remark _ hdoc hcomment, hpending]
        · rw [List.cons_append, ofLines_remark _ hdoc hcomment, happend]
      | false =>
        refine ⟨⟨[], if l.isEmpty then none else some l⟩ :: ps, docs, ?_, fun rest => ?_⟩
        · rw [ofLines_end _ hdoc hcomment, hpending]
          rfl
        · rw [List.cons_append, ofLines_end _ hdoc hcomment, happend]
          rfl

theorem ofLines_append {docs : List SourceLine} (h : ofLines ls = ps ++ [⟨docs, none⟩]) (rest : List SourceLine)
    : ofLines (ls ++ rest) = ps ++ prepend docs (ofLines rest) := by
  obtain ⟨qs, docs', hpending, happend⟩ := exists_ofLines_append ls
  rw [h] at hpending
  obtain ⟨rfl, hlast⟩ := List.append_inj' hpending rfl
  cases hlast
  exact happend rest

theorem declare_append_eq_ok_iff
    : declare (ps ++ qs) = .ok f ↔ ∃ g h, declare ps = .ok g ∧ declare qs = .ok h ∧ f = g.append h := by
  induction ps generalizing f with
  | nil =>
    constructor
    · exact fun hf => ⟨{}, f, rfl, hf, f.empty_append.symm⟩
    · rintro ⟨_, h, ⟨⟩, hh, rfl⟩
      rw [File.empty_append]
      exact hh
  | cons p ps ih =>
    rw [List.cons_append, declare_cons_eq_ok_iff]
    constructor
    · rintro ⟨g, h, hg, hh, rfl⟩
      obtain ⟨i, j, hi, hj, rfl⟩ := ih.1 hh
      exact ⟨g.append i, j, declare_cons_eq_ok_iff.2 ⟨g, i, hg, hi, rfl⟩, hj, (File.append_assoc _ _ _).symm⟩
    · rintro ⟨g', j, hg', hj, rfl⟩
      obtain ⟨g, i, hg, hi, rfl⟩ := declare_cons_eq_ok_iff.1 hg'
      exact ⟨g, i.append j, hg, ih.2 ⟨i, j, hi, hj, rfl⟩, File.append_assoc _ _ _⟩

theorem Resembles.exists_cons {p : Paragraph} {ps' : List Paragraph} (h : Resembles (p :: ps) ps')
    : ∃ p' qs', ps' = p' :: qs' ∧ Similar p p' ∧ ∀ f, declare ps = .ok f → declare qs' = .ok f := by
  cases h with
  | cons hp hps => exact ⟨_, _, rfl, hp, fun _ => declare_of_resembles hps⟩
  | @empty _ p' _ ps' hp hps =>
    refine ⟨_, _, rfl, hp, fun f hf => ?_⟩
    have hnothing : declare (⟨[], none⟩ :: ps') = declare ps' := File.addBlocks_nothing {} _
    rw [hnothing]
    exact declare_of_resembles hps hf

end Paragraph

/-! ### Sources -/

/--
Do lines leave no comment open, but fenced code in the last one of their paragraphs?
-/
structure OpensFence (above : List (List Char)) (ps : List Paragraph) (docs : List SourceLine) : Prop where
  closing : above.foldl closingAfter none = none
  pending : Paragraph.ofLines (outsideLines none 1 above) = ps ++ [⟨docs, none⟩]
  fenced : fenceAfter false (docs.map (·.doc.text)) = true

theorem OpensFence.sameTags {above : List (List Char)} {ps : List Paragraph} {docs region region' : List SourceLine}
    (h : OpensFence above ps docs) (hregion : ∀ l ∈ region, Annotations.isFence l.doc = false)
    (hregion' : ∀ l ∈ region', Annotations.isFence l.doc = false) {p p' : Paragraph} (hp : p.Similar p')
    : Entry.SameTags
        (Entry.ofDocs false false (Paragraph.block { p with docs := docs ++ region ++ p.docs }).docs)
        (Entry.ofDocs false false (Paragraph.block { p' with docs := docs ++ region' ++ p'.docs }).docs) := by
  simp only [Paragraph.block, List.map_append, List.append_assoc]
  apply Entry.sameTags_region
  · rw [List.map_map]
    exact h.fenced
  · exact List.forall_mem_map.2 hregion
  · exact List.forall_mem_map.2 hregion'
  · exact hp.docs

/--
Can lines stand in fenced code? They are documentation, but no fence, and comments may stand between them.
-/
structure IsFenced (ls : List (List Char)) : Prop where
  closing : ls.foldl closingAfter none = none
  lines (number : Nat) : ∀ l ∈ outsideLines none number ls, Paragraph.MayStandFenced l

theorem isFenced_of_dashes {ls : List (List Char)}
    (h : ∀ raw ∈ ls, ['-', '-', '-'] <+: strip raw ∧ isFenceLine (Paragraph.dropSpace ((strip raw).drop 3)) = false)
    : IsFenced ls := by
  have hordinary : ∀ raw ∈ ls, longComment? (strip raw) = none := by
    intro raw hraw
    obtain ⟨rest, hrest⟩ := (h raw hraw).1
    rw [← hrest]
    rfl
  constructor
  · induction ls with
    | nil => rfl
    | cons raw ls ih =>
      rw [List.foldl_cons, closingAfter_ordinary (hordinary raw (by simp))]
      exact ih (fun raw hraw => h raw (by simp [hraw])) fun raw hraw => hordinary raw (by simp [hraw])
  · intro number
    induction ls generalizing number with
    | nil => simp [outsideLines]
    | cons raw ls ih =>
      rw [outsideLines_ordinary (hordinary raw (by simp)), List.forall_mem_cons]
      refine ⟨?_, ih (fun raw hraw => h raw (by simp [hraw])) (fun raw hraw => hordinary raw (by simp [hraw])) _⟩
      obtain ⟨hdashes, hfence⟩ := h raw (by simp)
      have hdoc : (⟨number, raw⟩ : SourceLine).isDoc = true := List.isPrefixOf_iff_prefix.2 hdashes
      rw [Paragraph.MayStandFenced, if_pos hdoc]
      change isFenceLine (SourceLine.doc ⟨number, raw⟩).text = false
      rw [Paragraph.text_doc hdoc]
      exact hfence

namespace File

variable {f : File} {source source' : String}

theorem exists_redescribe_of_sameTags {b b' : Block}
    (htags : Entry.SameTags (Entry.ofDocs false false b.docs) (Entry.ofDocs false false b'.docs))
    (hstatement : b.statement = b'.statement) (h : addBlock {} b = .ok f)
    : ∃ description, addBlock {} b' = .ok (f.redescribe description) := by
  obtain ⟨a, ha, hsettles⟩ := addBlock_eq_ok_iff.1 h
  obtain ⟨a', ha', hagree⟩ := Annotations.exists_foldlM_of_sameTags htags (.refl {}) ha
  obtain ⟨description, hsettles'⟩ := hsettles.exists_redescribe hagree
  exact ⟨description, addBlock_eq_ok_iff.2 ⟨a', ha', hstatement ▸ hsettles'⟩⟩

/--
Other lines in the place of fenced ones are read as well, and change at most the description of what the paragraph
with the fenced code documents.
-/
theorem parse_of_fenced {above region region' below : List (List Char)} {ps : List Paragraph} {docs : List SourceLine}
    (hsource : lines source.toList = above ++ (region ++ below))
    (hsource' : lines source'.toList = above ++ (region' ++ below)) (hopens : OpensFence above ps docs)
    (hregion : IsFenced region) (hregion' : IsFenced region') (hf : parse source = .ok f)
    : ∃ p qs before own after description,
        Paragraph.ofSource source = ps ++ p :: qs ∧ docs <+: p.docs ∧ Paragraph.declare ps = .ok before ∧
        Paragraph.declare [p] = .ok own ∧ Paragraph.declare qs = .ok after ∧ f = before.append (own.append after) ∧
        parse source' = .ok (before.append ((own.redescribe description).append after)) := by
  have hclosing : ∀ {ls}, IsFenced ls → (above ++ (ls ++ below)).foldl closingAfter none
      = below.foldl closingAfter none := by
    intro ls hls
    rw [List.foldl_append, List.foldl_append, hopens.closing, hls.closing]
  have hparagraphs : ∀ {ls}, IsFenced ls → Paragraph.ofLines (outsideLines none 1 (above ++ (ls ++ below)))
      = ps ++ Paragraph.prepend (docs ++ (outsideLines none (1 + above.length) ls).filter (·.isDoc))
          (Paragraph.ofLines (outsideLines none (1 + above.length + ls.length) below)) := by
    intro ls hls
    rw [outsideLines_append, hopens.closing, outsideLines_append, hls.closing, Paragraph.ofLines_append hopens.pending,
      Paragraph.ofLines_fenced (hls.lines _), Paragraph.prepend_prepend]
  -- The paragraph that goes on below the fenced lines, and the same paragraph below the other ones.
  obtain ⟨hend, hdeclare⟩ := parse_eq_ok_iff.1 hf
  have hofSource : Paragraph.ofSource source = _ := congrArg (Paragraph.ofLines ∘ outsideLines none 1) hsource
  rw [Function.comp_apply, hparagraphs hregion] at hofSource
  have hresembles := Paragraph.resembles_ofLines
    (reformats_numbers none (1 + above.length + region.length) (1 + above.length + region'.length) below)
  obtain ⟨p, qs, hbelow⟩ := List.exists_cons_of_ne_nil
    (Paragraph.ofLines_ne_nil (outsideLines none (1 + above.length + region.length) below))
  rw [hbelow] at hresembles hofSource
  obtain ⟨p', qs', hbelow', hp, hqs⟩ := hresembles.exists_cons
  rw [hofSource] at hdeclare
  obtain ⟨before, rest, hbefore, hrest, rfl⟩ := Paragraph.declare_append_eq_ok_iff.1 hdeclare
  obtain ⟨own, after, hown, hafter, rfl⟩ := Paragraph.declare_cons_eq_ok_iff.1 hrest
  have htags := hopens.sameTags (Paragraph.isFence_filter (hregion.lines (1 + above.length)))
    (Paragraph.isFence_filter (hregion'.lines (1 + above.length))) hp
  obtain ⟨description, hown'⟩ := exists_redescribe_of_sameTags htags hp.statement hown
  refine ⟨_, qs, before, own, after, description, hofSource, ?_, hbefore, ?_, hafter, rfl, ?_⟩
  · exact (List.prefix_append _ _).trans (List.prefix_append _ _)
  · exact Paragraph.declare_cons_eq_ok_iff.2 ⟨own, {}, hown, rfl, own.append_empty.symm⟩
  · rw [parse_eq_ok_iff, hsource', hclosing hregion', ← hclosing hregion, ← hsource]
    refine ⟨hend, ?_⟩
    rw [Paragraph.ofSource, hsource', hparagraphs hregion', hbelow']
    exact Paragraph.declare_append_eq_ok_iff.2
      ⟨before, _, hbefore, Paragraph.declare_cons_eq_ok_iff.2 ⟨_, after, hown', hqs after hafter, rfl⟩, rfl⟩

/-! ### A function with an example in its documentation -/

def exampleText : String :=
  "--- Digs.\n--- ```\n--- dig()\n--- ```\nfunction dig() end\n"

def brokenExampleText : String :=
  "--- Digs.\n--- ```\n--- @param\n---@dig\n--- | (\n--- ```\nfunction dig() end\n"

theorem parse_of_fenced_dig
    : ∃ f description, parse exampleText = .ok f ∧ f.functions.map (·.name) = ["dig"] ∧
        parse brokenExampleText = .ok (f.redescribe description) := by
  let line := String.toList
  have hsource : lines exampleText.toList
      = [line "--- Digs.", line "--- ```"] ++ ([line "--- dig()"] ++ [line "--- ```", line "function dig() end"]) :=
    rfl
  have hsource' : lines brokenExampleText.toList
      = [line "--- Digs.", line "--- ```"] ++ ([line "--- @param", line "---@dig", line "--- | ("] ++
          [line "--- ```", line "function dig() end"]) :=
    rfl
  have hopens : OpensFence [line "--- Digs.", line "--- ```"] [] [⟨1, line "--- Digs."⟩, ⟨2, line "--- ```"⟩] :=
    ⟨rfl, rfl, rfl⟩
  have hregion : IsFenced [line "--- dig()"] := isFenced_of_dashes (by decide)
  have hregion' : IsFenced [line "--- @param", line "---@dig", line "--- | ("] := isFenced_of_dashes (by decide)
  have hf : parse exampleText
      = .ok { functions := [{ name := "dig", description := some "Digs.\n```\ndig()\n```" }] } :=
    rfl
  obtain ⟨p, qs, before, own, after, description, hparagraphs, -, hbefore, -, hafter, hown, hparse⟩ :=
    parse_of_fenced hsource hsource' hopens hregion hregion' hf
  obtain rfl : qs = [⟨[], none⟩] := (List.cons.inj hparagraphs).2.symm
  obtain rfl : {} = before := Except.ok.inj hbefore
  obtain rfl : {} = after := Except.ok.inj hafter
  rw [empty_append, append_empty] at hown hparse
  exact ⟨_, description, hf, rfl, hown ▸ hparse⟩

end File

end LuaTypes.Declaration
