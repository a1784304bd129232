import LuaTypes.Declaration.Parser
import LuaTypes.Proofs.Declaration.Layout
import LuaTypes.Proofs.Declaration.Tags

/-!
Documentation that has been written: what its lines, taken one after the other, declare.
-/

namespace LuaTypes.Declaration

open Text

def tagText (tag text : String) : List Char :=
  '@' :: (tag.toList ++ if text.isEmpty then [] else ' ' :: text.toList)

theorem tagLine_eq (tag text : String) : tagLine tag text = String.ofList (docLine (tagText tag text)) := by
  rw [← String.toList_inj, String.toList_ofList, tagLine]
  split <;> simp [docLine, tagText, *]

namespace Annotations

variable {a b c : Annotations} {doc : DocLine} {docs : List DocLine}

theorem ofDocs_tag {line : List Char} (h : stripLeft doc.text = '@' :: line) (o : Bool)
    : ofDocs a false o (doc :: docs) =
        match a.addTag doc (String.ofList (splitWord line).1) (splitWord line).2 with
        | .error e => .error e
        | .ok a => ofDocs a false (String.ofList (splitWord line).1 = "alias") docs := by
  rw [ofDocs, isFence_eq_false h (by decide), h]
  rfl

theorem ofDocs_member {line : List Char} (h : stripLeft doc.text = '|' :: line)
    : ofDocs a false true (doc :: docs) =
        match a.addMember doc (stripLeft line) with
        | .error e => .error e
        | .ok a => ofDocs a false true docs := by
  rw [ofDocs, isFence_eq_false h (by decide), h]
  rfl

theorem ofDocs_addProse {fenced : Bool}
    (h : (fenced != isFenceLine doc.text) = false → (stripLeft doc.text).head? ≠ some '@')
    : ofDocs a fenced false (doc :: docs) = ofDocs (a.addProse doc) (fenced != isFenceLine doc.text) false docs := by
  rw [ofDocs]
  change (if (fenced != isFenceLine doc.text) = true then _ else _) = _
  split
  · rfl
  next hopen =>
    have hhead := h (by simpa using hopen)
    split
    next heq => exact absurd (by rw [heq]; rfl) hhead
    next => rfl
    next => rfl

/--
Do lines with these texts lead from the annotations `a` to `b`? `o` and `p` tell whether an alias is open
before them and after them. Only lines that a function may have change the place of its first tag.
-/
def Leads (functional : Bool) (texts : List (List Char)) (a : Annotations) (o : Bool) (b : Annotations) (p : Bool)
    : Prop :=
  ∀ docs rest place, docs.map DocLine.text = texts → ∃ place', (functional = false → place' = place) ∧
    ofDocs { a with functionTag := place } false o (docs ++ rest)
      = ofDocs { b with functionTag := place' } false p rest

variable {functional o p q : Bool} {texts texts' : List (List Char)}

theorem Leads.append (h : Leads functional texts a o b p) (h' : Leads functional texts' b p c q)
    : Leads functional (texts ++ texts') a o c q := by
  intro docs rest place hdocs
  obtain ⟨docs, docs', rfl, hdocs, hdocs'⟩ := List.map_eq_append_iff.1 hdocs
  obtain ⟨place₁, hplace₁, h₁⟩ := h docs (docs' ++ rest) place hdocs
  obtain ⟨place₂, hplace₂, h₂⟩ := h' docs' rest place₁ hdocs'
  refine ⟨place₂, fun hfunctional => (hplace₂ hfunctional).trans (hplace₁ hfunctional), ?_⟩
  rw [List.append_assoc, h₁, h₂]

theorem Leads.nil : Leads functional [] a o a o := by
  intro docs rest place hdocs
  rw [List.map_eq_nil_iff.1 hdocs]
  exact ⟨place, fun _ => rfl, rfl⟩

theorem Leads.each {α : Type} {text : α → List Char} (state : List α → Annotations) {xs : List α}
    (h : ∀ x ∈ xs, ∀ ys, Leads functional [text x] (state ys) o (state (ys ++ [x])) o) (ys : List α)
    : Leads functional (xs.map text) (state ys) o (state (ys ++ xs)) o := by
  induction xs generalizing ys with
  | nil => simpa using Leads.nil
  | cons x xs ih =>
    have htail := ih (fun y hy => h y (by simp [hy])) (ys ++ [x])
    rw [List.append_assoc, List.singleton_append] at htail
    exact (h x (by simp) ys).append htail

theorem splitWord_tagText {tag text : String} (htag : IsWord tag.toList) (htext : text = "" ∨ IsPhrase text.toList)
    : ∃ line, tagText tag text = '@' :: line ∧ splitWord line = (tag.toList, text.toList) := by
  refine ⟨_, rfl, ?_⟩
  cases htext with
  | inl htext =>
    rw [htext]
    simpa using splitWord_of_isWord htag
  | inr htext =>
    rw [isEmpty_eq_false_of_isPhrase htext, if_neg Bool.false_ne_true]
    exact splitWord_append htag htext.toTrimmed

theorem exists_noteTag (a : Annotations) (doc : DocLine) (tag : String) (place : Option Position)
    : ∃ place', (functionTags.contains tag = false → place' = place) ∧
        { a with functionTag := place }.noteTag doc tag = { a with functionTag := place' } := by
  unfold noteTag
  split
  next h =>
    rw [Bool.and_eq_true] at h
    refine ⟨some doc.position, fun hnot => ?_, rfl⟩
    rw [h.1] at hnot
    cases hnot
  next => exact ⟨place, fun _ => rfl, rfl⟩

theorem leads_tag {tag text : String} (htag : IsWord tag.toList) (htext : text = "" ∨ IsPhrase text.toList)
    (hfunctional : functional = false → functionTags.contains tag = false)
    (h : ∀ doc place, { a with functionTag := place }.addDeclared doc tag text.toList
        = .ok { b with functionTag := place })
    : Leads functional [tagText tag text] a o b (tag = "alias") := by
  intro docs rest place hdocs
  obtain ⟨doc, rfl, hdoc⟩ := List.map_eq_singleton_iff.1 hdocs
  obtain ⟨line, hline, hsplit⟩ := splitWord_tagText htag htext
  have hleft : stripLeft doc.text = '@' :: line := by
    rw [hdoc, hline]
    exact stripLeft_of_head (by rintro _ ⟨⟩; rfl)
  obtain ⟨place', hplace, hnoted⟩ := exists_noteTag a doc tag place
  refine ⟨place', fun hnot => hplace (hfunctional hnot), ?_⟩
  rw [List.singleton_append, ofDocs_tag hleft, hsplit]
  dsimp only
  rw [String.ofList_toList, addTag, hnoted, h]

theorem leads_member {line : List Char} (hline : IsPhrase line)
    (h : ∀ doc place, { a with functionTag := place }.addMember doc line = .ok { b with functionTag := place })
    : Leads functional ['|' :: ' ' :: line] a true b true := by
  intro docs rest place hdocs
  obtain ⟨doc, rfl, hdoc⟩ := List.map_eq_singleton_iff.1 hdocs
  have hleft : stripLeft doc.text = '|' :: ' ' :: line := by
    rw [hdoc]
    exact stripLeft_of_head (by rintro _ ⟨⟩; rfl)
  refine ⟨place, fun _ => rfl, ?_⟩
  rw [List.singleton_append, ofDocs_member hleft, stripLeft_cons_blank rfl, hline.stripLeft_eq, h]

theorem ofDocs_prose {lines : List (List Char)} {fenced : Bool} (hdocs : docs.map DocLine.text = lines)
    (htags : NoTags fenced lines) (rest : List DocLine)
    : ofDocs a fenced false (docs ++ rest)
        = ofDocs { a with prose := a.prose ++ lines } (fenceAfter fenced lines) false rest := by
  induction docs generalizing a fenced lines with
  | nil =>
    rw [← hdocs, List.map_nil, List.append_nil]
    rfl
  | cons doc docs ih =>
    rw [← hdocs, List.map_cons] at htags ⊢
    have htail := @ih (a.addProse doc) _ _ rfl htags.2
    rw [addProse, List.append_assoc, List.singleton_append] at htail
    rw [List.cons_append, ofDocs_addProse htags.1, addProse, htail]
    rfl

theorem leads_prose {lines : List (List Char)} (htags : NoTags false lines) (hclosed : fenceAfter false lines = false)
    : Leads functional lines a false { a with prose := a.prose ++ lines } false := by
  intro docs rest place hdocs
  refine ⟨place, fun _ => rfl, ?_⟩
  rw [ofDocs_prose hdocs htags, hclosed]

theorem Leads.ofDocs_eq (h : Leads false texts a o b p) (hdocs : docs.map DocLine.text = texts)
    (ha : a.functionTag = none) (hb : b.functionTag = none)
    : ofDocs a false o docs = .ok b := by
  obtain ⟨place, hplace, hleads⟩ := h docs [] none hdocs
  obtain rfl := hplace rfl
  cases a
  cases b
  cases ha
  cases hb
  rwa [List.append_nil] at hleads

end Annotations

/-! ### Descriptions -/

def proseTexts : Option String → List (List Char)
  | none => []
  | some d => proseOf d

theorem proseLines_eq (description : Option String)
    : proseLines description = (proseTexts description).map fun text => String.ofList (docLine text) := by
  cases description with
  | none => rfl
  | some d =>
    apply List.map_congr_left
    intro line _
    rw [← String.toList_inj, String.toList_ofList]
    unfold docLine
    cases h : line.isEmpty <;> simp

theorem join_proseOf (d : String) : join "\n" ((proseOf d).map String.ofList) = d := by
  rw [proseOf, splitAtEach_eq_splitOn, ← String.toList_inj, join, String.toList_intercalate, List.map_map]
  have : String.toList ∘ String.ofList = id := by
    funext l
    simp
  rw [this, List.map_id]
  exact List.intercalate_splitOn _

namespace Annotations

variable {a : Annotations}

theorem description?_of_isProse {d : String} (h : IsProse (proseOf d)) {after : List (List Char)}
    (hafter : ∀ line ∈ after, line.isEmpty = true) (hprose : a.prose = proseOf d ++ after)
    : a.description? = some d := by
  have hfirst : (proseOf d ++ after).dropWhile (·.isEmpty) = proseOf d ++ after := by
    obtain ⟨line, lines, hlines⟩ := List.exists_cons_of_ne_nil h.ne_nil
    have hline : line.isEmpty = false := by
      rw [← Bool.not_eq_true, List.isEmpty_iff]
      rintro rfl
      exact h.head (by rw [hlines]; rfl)
    rw [hlines, List.cons_append, List.dropWhile_cons_of_neg (by simp [hline])]
  have hlast : (proseOf d ++ after).reverse.dropWhile (·.isEmpty) = (proseOf d).reverse := by
    rw [List.reverse_append, List.dropWhile_append_of_pos fun line hline => hafter line (List.mem_reverse.1 hline)]
    obtain ⟨line, lines, hlines⟩ := List.exists_cons_of_ne_nil (List.reverse_ne_nil_iff.2 h.ne_nil)
    have hline : line.isEmpty = false := by
      rw [← Bool.not_eq_true, List.isEmpty_iff]
      rintro rfl
      apply h.last
      rw [← List.head?_reverse, hlines]
      rfl
    rw [hlines, List.dropWhile_cons_of_neg (by simp [hline])]
  unfold description?
  dsimp only
  rw [hprose, hfirst, hlast, List.reverse_reverse, List.isEmpty_eq_false_iff.2 h.ne_nil, if_neg Bool.false_ne_true,
    join_proseOf]

theorem description?_proseTexts {description : Option String} (h : ∀ d, description = some d → IsProse (proseOf d))
    (hprose : a.prose = proseTexts description)
    : a.description? = description := by
  cases description with
  | none =>
    unfold description?
    rw [hprose]
    rfl
  | some d =>
    apply description?_of_isProse (h d rfl) (List.forall_mem_nil _)
    rw [hprose, proseTexts, List.append_nil]

end Annotations

/--
Are lines no tags, and is no fenced code open after them, so that tags can follow them?
-/
structure StandsAbove (lines : List (List Char)) : Prop where
  noTags : NoTags false lines
  closed : fenceAfter false lines = false

theorem leads_proseTexts {functional : Bool} {description : Option String}
    (h : ∀ d, description = some d → StandsAbove (proseOf d))
    : Annotations.Leads functional (proseTexts description) {} false { prose := proseTexts description } false := by
  have htexts : StandsAbove (proseTexts description) := by
    cases description with
    | none => exact ⟨trivial, rfl⟩
    | some d => exact h d rfl
  exact Annotations.leads_prose htexts.noTags htexts.closed

/-! ### Aliases -/

namespace Alias

def docs (a : Alias) : List (List Char) :=
  proseTexts a.description ++ tagText "alias" a.text :: a.members.map fun m => '|' :: ' ' :: m.text

structure IsSettled (a : Alias) : Prop where
  base : ∀ t, a.base = some t → Declaration.IsSettled t
  members : ∀ m ∈ a.members, Declaration.IsSettled m.type
  description : ∀ d, a.description = some d → StandsAbove (proseOf d)

variable {a : Alias} {docs : List DocLine}

theorem leads_tagText (h : a.Readable) (hs : a.IsSettled) (lines : List (List Char))
    : Annotations.Leads false [tagText "alias" a.text] { prose := lines } false
        { prose := lines, aliases := [{ name := a.name, base := a.base }] } true := by
  apply Annotations.leads_tag (by decide) (.inr (a.isPhrase_text h hs.base)) fun _ => rfl
  intro doc place
  unfold Annotations.addDeclared
  dsimp only
  rw [parseAlias_text h hs.base]
  rfl

theorem leads_members (h : a.Readable) (hs : a.IsSettled) (lines : List (List Char))
    : Annotations.Leads false (a.members.map fun m => '|' :: ' ' :: m.text)
        { prose := lines, aliases := [{ name := a.name, base := a.base }] } true
        { prose := lines, aliases := [{ name := a.name, base := a.base, members := a.members }] } true := by
  let state (ms : List AliasMember) : Annotations :=
    { prose := lines, aliases := [{ name := a.name, base := a.base, members := ms }] }
  refine Annotations.Leads.each state ?_ []
  intro m hm ms
  apply Annotations.leads_member (m.isPhrase_text (h.members m hm) (hs.members m hm))
  intro doc place
  unfold Annotations.addMember
  rw [parseAliasMember_text (h.members m hm) (hs.members m hm)]
  rfl

theorem ofDocs_eq (h : a.Readable) (hs : a.IsSettled) (hdocs : docs.map DocLine.text = a.docs)
    : Annotations.ofDocs {} false false docs
        = .ok { prose := proseTexts a.description, aliases := [{ a with description := none }] } := by
  have hprose := @leads_proseTexts false a.description hs.description
  have hleads := hprose.append ((leads_tagText h hs _).append (leads_members h hs _))
  exact hleads.ofDocs_eq hdocs rfl rfl

end Alias

/-! ### Classes -/

namespace ClassType

def docs (c : ClassType) : List (List Char) :=
  proseTexts c.description ++ tagText "class" c.text :: c.fields.map fun f => tagText "field" f.text

structure IsSettled (c : ClassType) : Prop where
  fields : ∀ f ∈ c.fields, f.IsSettled
  description : ∀ d, c.description = some d → StandsAbove (proseOf d)

variable {c : ClassType} {docs : List DocLine}

theorem leads_tagText (h : c.Readable) (lines : List (List Char))
    : Annotations.Leads false [tagText "class" c.text] { prose := lines } false
        { prose := lines, classes := [{ name := c.name, parents := c.parents }] } false := by
  apply Annotations.leads_tag (by decide) (.inr (c.isPhrase_text h)) fun _ => rfl
  intro doc place
  unfold Annotations.addDeclared
  dsimp only
  rw [parseClass_text h]
  rfl

theorem leads_fields (h : c.Readable) (hs : c.IsSettled) (lines : List (List Char))
    : Annotations.Leads false (c.fields.map fun f => tagText "field" f.text)
        { prose := lines, classes := [{ name := c.name, parents := c.parents }] } false
        { prose := lines, classes := [{ name := c.name, parents := c.parents, fields := c.fields }] } false := by
  let state (fs : List Field) : Annotations :=
    { prose := lines, classes := [{ name := c.name, parents := c.parents, fields := fs }] }
  refine Annotations.Leads.each state ?_ []
  intro f hf fs
  have hphrase := f.isPhrase_text (h.fields f hf) (hs.fields f hf)
  apply Annotations.leads_tag (by decide) (.inr hphrase) fun _ => rfl
  intro doc place
  unfold Annotations.addDeclared
  dsimp only
  rw [parseField_text (h.fields f hf) (hs.fields f hf)]
  rfl

theorem ofDocs_eq (h : c.Readable) (hs : c.IsSettled) (hdocs : docs.map DocLine.text = c.docs)
    : Annotations.ofDocs {} false false docs
        = .ok { prose := proseTexts c.description, classes := [{ c with description := none }] } := by
  have hprose := @leads_proseTexts false c.description hs.description
  have hleads := hprose.append ((leads_tagText h _).append (leads_fields h hs _))
  exact hleads.ofDocs_eq hdocs rfl rfl

end ClassType

/-! ### Functions -/

namespace Function

def tagTexts (f : Function) : List (List Char) :=
  (if f.deprecated then [tagText "deprecated" (f.deprecationReason.getD "")] else []) ++
    (f.links.map (fun l => tagText "see" l.text) ++
      ((if f.isAsync then [tagText "async" ""] else []) ++
        ((if f.nodiscard then [tagText "nodiscard" ""] else []) ++
          (f.params.map (fun p => tagText "param" p.text) ++ f.returns.map fun r => tagText "return" r.text))))

def proseAbove (f : Function) : List (List Char) :=
  proseTexts f.description ++ if (proseTexts f.description).isEmpty || f.tagTexts.isEmpty then [] else [[]]

def docs (f : Function) : List (List Char) :=
  f.proseAbove ++ f.tagTexts

structure IsSettled (f : Function) : Prop where
  params : ∀ p ∈ f.params, Declaration.IsSettled p.type
  returns : ∀ r ∈ f.returns, Declaration.IsSettled r.type
  links : ∀ l ∈ f.links, ∀ d, l.description = some d → ¬ IsMarked d.toList
  closed : f.tagTexts ≠ [] → ∀ d, f.description = some d → fenceAfter false (proseOf d) = false

def annotations (f : Function) (place : Option Position) : Annotations :=
  { prose := f.proseAbove, params := f.params, returns := f.returns, links := f.links, deprecated := f.deprecated,
    deprecationReason := f.deprecationReason, nodiscard := f.nodiscard, isAsync := f.isAsync, functionTag := place }

variable {f : Function} {docs : List DocLine} (a : Annotations)

open Annotations

theorem leads_deprecated (h : f.Readable)
    : Leads true (if f.deprecated then [tagText "deprecated" (f.deprecationReason.getD "")] else [])
        { a with deprecated := false, deprecationReason := none } false
        { a with deprecated := f.deprecated, deprecationReason := f.deprecationReason } false := by
  cases hdeprecated : f.deprecated with
  | false =>
    rw [h.deprecated hdeprecated]
    exact .nil
  | true =>
    have hreason : f.deprecationReason.getD "" = "" ∨ IsPhrase (f.deprecationReason.getD "").toList := by
      cases hreason : f.deprecationReason with
      | none => exact .inl rfl
      | some d => exact .inr (h.deprecationReason d hreason)
    have hback : nonEmpty? (f.deprecationReason.getD "").toList = f.deprecationReason := by
      cases hreason : f.deprecationReason with
      | none => rfl
      | some d => exact nonEmpty?_toList (h.deprecationReason d hreason)
    rw [if_pos rfl]
    apply leads_tag (by decide) hreason (by simp)
    intro doc place
    unfold addDeclared
    dsimp only
    rw [hback]
    rfl

theorem leads_links (h : f.Readable) (hs : f.IsSettled)
    : Leads true (f.links.map fun l => tagText "see" l.text) { a with links := [] } false { a with links := f.links }
        false := by
  refine Leads.each (fun ls => { a with links := ls }) ?_ []
  intro l hl ls
  apply leads_tag (by decide) (.inr (l.isPhrase_text (h.links l hl))) (by simp)
  intro doc place
  unfold addDeclared
  dsimp only
  rw [parseLink_text (h.links l hl) (hs.links l hl)]
  rfl

theorem leads_async (isAsync : Bool)
    : Leads true (if isAsync then [tagText "async" ""] else []) { a with isAsync := false } false
        { a with isAsync := isAsync } false := by
  cases isAsync with
  | false => exact .nil
  | true => exact leads_tag (by decide) (.inl rfl) (by simp) fun _ _ => rfl

theorem leads_nodiscard (nodiscard : Bool)
    : Leads true (if nodiscard then [tagText "nodiscard" ""] else []) { a with nodiscard := false } false
        { a with nodiscard := nodiscard } false := by
  cases nodiscard with
  | false => exact .nil
  | true => exact leads_tag (by decide) (.inl rfl) (by simp) fun _ _ => rfl

theorem leads_params (h : f.Readable) (hs : f.IsSettled)
    : Leads true (f.params.map fun p => tagText "param" p.text) { a with params := [] } false
        { a with params := f.params } false := by
  refine Leads.each (fun ps => { a with params := ps }) ?_ []
  intro p hp ps
  apply leads_tag (by decide) (.inr (p.isPhrase_text (h.params p hp) (hs.params p hp))) (by simp)
  intro doc place
  unfold addDeclared
  dsimp only
  rw [parseParam_text (h.params p hp) (hs.params p hp)]
  rfl

theorem leads_returns (h : f.Readable) (hs : f.IsSettled)
    : Leads true (f.returns.map fun r => tagText "return" r.text) { a with returns := [] } false
        { a with returns := f.returns } false := by
  refine Leads.each (fun rs => { a with returns := rs }) ?_ []
  intro r hr rs
  apply leads_tag (by decide) (.inr (r.isPhrase_text (h.returns r hr) (hs.returns r hr))) (by simp)
  intro doc place
  unfold addDeclared
  dsimp only
  rw [parseReturn_text (h.returns r hr) (hs.returns r hr)]
  rfl

theorem leads_tagTexts (h : f.Readable) (hs : f.IsSettled)
    : Leads true f.tagTexts { prose := f.proseAbove } false (f.annotations none) false := by
  let a₁ : Annotations :=
    { prose := f.proseAbove, deprecated := f.deprecated, deprecationReason := f.deprecationReason }
  let a₂ : Annotations := { a₁ with links := f.links }
  let a₃ : Annotations := { a₂ with isAsync := f.isAsync }
  let a₄ : Annotations := { a₃ with nodiscard := f.nodiscard }
  let a₅ : Annotations := { a₄ with params := f.params }
  have hresults := (leads_params a₄ h hs).append (leads_returns a₅ h hs)
  have hflags := (leads_async a₂ f.isAsync).append ((leads_nodiscard a₃ f.nodiscard).append hresults)
  exact (leads_deprecated { prose := f.proseAbove } h).append ((leads_links a₁ h hs).append hflags)

theorem noTags_proseAbove (h : f.Readable) : NoTags false f.proseAbove := by
  have hprose : NoTags false (proseTexts f.description) := by
    cases hd : f.description with
    | none => trivial
    | some d => exact (h.description d hd).2
  rw [proseAbove, noTags_append]
  refine ⟨hprose, ?_⟩
  split <;> simp [NoTags, stripLeft]

theorem closed_proseAbove (hs : f.IsSettled) (hne : f.tagTexts ≠ []) : fenceAfter false f.proseAbove = false := by
  have hprose : fenceAfter false (proseTexts f.description) = false := by
    cases hd : f.description with
    | none => rfl
    | some d => exact hs.closed hne d hd
  rw [proseAbove, fenceAfter_append, hprose]
  split <;> rfl

theorem description?_annotations (h : f.Readable) (place : Option Position)
    : (f.annotations place).description? = f.description := by
  cases hd : f.description with
  | none =>
    apply @description?_proseTexts _ none (by simp)
    simp [annotations, proseAbove, hd, proseTexts]
  | some d =>
    have hprose : (f.annotations place).prose
        = proseOf d ++ if (proseOf d).isEmpty || f.tagTexts.isEmpty then [] else [[]] := by
      rw [annotations, proseAbove, hd, proseTexts]
    apply description?_of_isProse (h.description d hd).1 _ hprose
    split <;> simp

theorem exists_ofDocs_eq (h : f.Readable) (hs : f.IsSettled) (hdocs : docs.map DocLine.text = f.docs)
    : ∃ place, ofDocs {} false false docs = .ok (f.annotations place) := by
  obtain ⟨above, tags, rfl, habove, htags⟩ := List.map_eq_append_iff.1 hdocs
  obtain ⟨place, -, hleads⟩ := leads_tagTexts h hs tags [] none htags
  rw [List.append_nil] at hleads
  refine ⟨place, ?_⟩
  rw [ofDocs_prose habove (noTags_proseAbove h)]
  by_cases hnil : tags = []
  · -- Without tags the code may stay open, since nothing is read after it.
    rw [hnil] at hleads ⊢
    exact hleads
  · have hne : f.tagTexts ≠ [] := by
      rintro hempty
      rw [hempty, List.map_eq_nil_iff] at htags
      exact hnil htags
    rw [closed_proseAbove hs hne]
    exact hleads

end Function

end LuaTypes.Declaration
