import LuaTypes.Proofs.Declaration.Canonical
import LuaTypes.Proofs.Declaration.Paragraphs
import LuaTypes.Proofs.Declaration.Roles

/-!
No annotation is lost, doubled or moved: what a file declares are the values of its tag lines in their order, and a
function has just the tags of its own block.
-/

namespace LuaTypes.Declaration

open Text

abbrev ValueLine : Type :=
  DocLine × List Char

def Collects {α : Type} (read : DocLine → List Char → Except Error α) (lines : List ValueLine) (xs : List α) : Prop :=
  List.Forall₂ (fun l x => read l.1 l.2 = .ok x) lines xs

def ClassType.header (c : ClassType) : ClassType :=
  { name := c.name, parents := c.parents }

def Alias.header (x : Alias) : Alias :=
  { x with members := [] }

namespace Paragraph

def entries (p : Paragraph) : List Entry :=
  Entry.ofDocs false false (p.docs.map (·.doc))

def tagged (word : String) (p : Paragraph) : List ValueLine :=
  p.entries.filterMap (Entry.tagged? word)

def members (p : Paragraph) : List ValueLine :=
  p.entries.filterMap Entry.member?

def function? (p : Paragraph) : Option (List Char × List String) :=
  match p.block.statement.bind Statement.parse? with
  | some (.function name params) => some (name, params)
  | _ => none

/--
The prose that describes the first alias of the paragraph. A function or a class would take it.
-/
def aliasProse? (p : Paragraph) : Option String :=
  if p.function?.isSome || ! (p.tagged "class").isEmpty then none
  else ({ prose := p.entries.filterMap Entry.prose? } : Annotations).description?

def withProse (prose : Option String) : List ValueLine → List (ValueLine × Option String)
  | [] => []
  | l :: ls => (l, prose) :: ls.map (·, none)

def aliasLines (p : Paragraph) : List (ValueLine × Option String) :=
  withProse p.aliasProse? (p.tagged "alias")

/--
Is this the function below the paragraph, with the marks that the paragraph has tags for?
-/
structure Documents (p : Paragraph) (fn : Function) : Prop where
  function : ∃ name, p.function? = some (name, fn.signature) ∧
    splitFunctionName name = (fn.owner, fn.name, fn.isMethod)
  deprecated : fn.deprecated = true ↔ p.tagged "deprecated" ≠ []
  nodiscard : fn.nodiscard = true ↔ p.tagged "nodiscard" ≠ []
  isAsync : fn.isAsync = true ↔ p.tagged "async" ≠ []

/--
Does an alias come from a line? Prose takes the place of the description on the line.
-/
def Names (l : ValueLine × Option String) (x : Alias) : Prop :=
  ∃ y, parseAlias l.1.1 l.1.2 = .ok y ∧ x.header = { y with description := l.2.or y.description }

/--
Does a file have each value of the paragraphs once and in its place?
-/
structure Conserve (ps : List Paragraph) (f : File) : Prop where
  params : Collects parseParam (ps.flatMap (tagged "param")) (f.functions.flatMap (·.params))
  returns : Collects parseReturn (ps.flatMap (tagged "return")) (f.functions.flatMap (·.returns))
  links : Collects parseLink (ps.flatMap (tagged "see")) (f.functions.flatMap (·.links))
  classes : Collects parseClass (ps.flatMap (tagged "class")) (f.classes.map (·.header))
  fields : Collects parseField (ps.flatMap (tagged "field")) (f.classes.flatMap (·.fields))
  aliases : List.Forall₂ Names (ps.flatMap aliasLines) f.aliases
  members : Collects parseAliasMember (ps.flatMap members) (f.aliases.flatMap (·.members))
  functions : List.Forall₂ Documents (ps.filter (·.function?.isSome)) f.functions

end Paragraph

/-! ### Lists of which the last value or the first one changes -/

section

variable {α β : Type} {u : α → α} {xs : List α}

theorem map_updateLast {g : α → β} (h : ∀ x, g (u x) = g x) (xs : List α) : (updateLast u xs).map g = xs.map g := by
  fun_induction updateLast u xs with
  | case1 => rfl
  | case2 x => simp [h]
  | case3 x y ys ih => rw [List.map_cons, ih, List.map_cons, List.map_cons, List.map_cons]

theorem flatMap_updateLast_concat {g : α → List β} {y : β} (h : ∀ x, g (u x) = g x ++ [y]) (hne : xs ≠ [])
    : (updateLast u xs).flatMap g = xs.flatMap g ++ [y] := by
  fun_induction updateLast u xs with
  | case1 => exact absurd rfl hne
  | case2 x => simp [h]
  | case3 x z zs ih =>
    rw [List.flatMap_cons, ih (by simp), ← List.append_assoc, ← List.flatMap_cons]

theorem updateLast_ne_nil (hne : xs ≠ []) : updateLast u xs ≠ [] := by
  fun_induction updateLast u xs with
  | case1 => exact absurd rfl hne
  | case2 x => simp
  | case3 x y ys ih => simp

theorem flatMap_updateFirst {g : α → List β} (h : ∀ x, g (u x) = g x) (xs : List α)
    : (updateFirst u xs).flatMap g = xs.flatMap g := by
  cases xs with
  | nil => rfl
  | cons x xs => rw [updateFirst, List.flatMap_cons, h, List.flatMap_cons]

end

/-! ### Single values -/

theorem header_of_parseClass {doc : DocLine} {text : List Char} {c : ClassType} (h : parseClass doc text = .ok c)
    : c.header = c ∧ c.fields = [] := by
  unfold parseClass at h
  dsimp only at h
  split at h
  · cases h
  · cases h
    exact ⟨rfl, rfl⟩

theorem members_of_parseAlias {doc : DocLine} {text : List Char} {x : Alias} (h : parseAlias doc text = .ok x)
    : x.members = [] := by
  unfold parseAlias at h
  dsimp only at h
  split at h
  · cases h
  · split at h
    · cases h
      rfl
    · obtain ⟨r, -, hx⟩ := bind_eq_ok_iff.1 h
      cases hx
      rfl

theorem Alias.header_of_members {x : Alias} (h : x.members = []) : x.header = x := by
  rw [header, ← h]

/-! ### Lines -/

namespace Annotations

variable {a b : Annotations} {e : Entry} {doc : DocLine} {role : Role} {word : String}

theorem Adds.exists_params (h : Adds a e.doc e.role b)
    : ∃ xs, b.params = a.params ++ xs ∧ Collects parseParam (e.tagged? "param").toList xs := by
  obtain ⟨doc, role⟩ := e
  cases h with
  | param hp => exact ⟨[_], rfl, .cons hp .nil⟩
  | _ => exact ⟨[], (List.append_nil _).symm, .nil⟩

theorem Adds.exists_returns (h : Adds a e.doc e.role b)
    : ∃ xs, b.returns = a.returns ++ xs ∧ Collects parseReturn (e.tagged? "return").toList xs := by
  obtain ⟨doc, role⟩ := e
  cases h with
  | returned hr => exact ⟨[_], rfl, .cons hr .nil⟩
  | _ => exact ⟨[], (List.append_nil _).symm, .nil⟩

theorem Adds.exists_links (h : Adds a e.doc e.role b)
    : ∃ xs, b.links = a.links ++ xs ∧ Collects parseLink (e.tagged? "see").toList xs := by
  obtain ⟨doc, role⟩ := e
  cases h with
  | link hl => exact ⟨[_], rfl, .cons hl .nil⟩
  | _ => exact ⟨[], (List.append_nil _).symm, .nil⟩

theorem Adds.exists_classes (h : Adds a e.doc e.role b)
    : ∃ xs, b.classes.map (·.header) = a.classes.map (·.header) ++ xs ∧
        Collects parseClass (e.tagged? "class").toList xs := by
  obtain ⟨doc, role⟩ := e
  cases h with
  | classType hc =>
    exact ⟨[_], List.map_append, .cons (hc.trans (congrArg Except.ok (header_of_parseClass hc).1.symm)) .nil⟩
  | field =>
    refine ⟨[], ?_, .nil⟩
    rw [List.append_nil]
    apply map_updateLast
    exact fun _ => rfl
  | _ => exact ⟨[], (List.append_nil _).symm, .nil⟩

theorem Adds.exists_fields (h : Adds a e.doc e.role b)
    : ∃ xs, b.classes.flatMap (·.fields) = a.classes.flatMap (·.fields) ++ xs ∧
        Collects parseField (e.tagged? "field").toList xs := by
  obtain ⟨doc, role⟩ := e
  cases h with
  | classType hc => exact ⟨[], by simp [(header_of_parseClass hc).2], .nil⟩
  | field hne hf => exact ⟨[_], flatMap_updateLast_concat (fun _ => rfl) hne, .cons hf .nil⟩
  | _ => exact ⟨[], (List.append_nil _).symm, .nil⟩

theorem Adds.exists_aliases (h : Adds a e.doc e.role b)
    : ∃ xs, b.aliases.map (·.header) = a.aliases.map (·.header) ++ xs ∧
        Collects parseAlias (e.tagged? "alias").toList xs := by
  obtain ⟨doc, role⟩ := e
  cases h with
  | aliased hx =>
    have hheader := Alias.header_of_members (members_of_parseAlias hx)
    exact ⟨[_], List.map_append, .cons (hx.trans (congrArg Except.ok hheader.symm)) .nil⟩
  | member =>
    refine ⟨[], ?_, .nil⟩
    rw [List.append_nil]
    apply map_updateLast
    exact fun _ => rfl
  | _ => exact ⟨[], (List.append_nil _).symm, .nil⟩

theorem Adds.exists_members (h : Adds a e.doc e.role b) (hopen : e.member? ≠ none → a.aliases ≠ [])
    : ∃ xs, b.aliases.flatMap (·.members) = a.aliases.flatMap (·.members) ++ xs ∧
        Collects parseAliasMember e.member?.toList xs := by
  obtain ⟨doc, role⟩ := e
  cases h with
  | aliased hx => exact ⟨[], by simp [members_of_parseAlias hx], .nil⟩
  | member hm =>
    exact ⟨[_], flatMap_updateLast_concat (fun _ => rfl) (hopen (by simp [Entry.member?])), .cons hm .nil⟩
  | _ => exact ⟨[], (List.append_nil _).symm, .nil⟩

theorem Adds.deprecated_eq (h : Adds a e.doc e.role b)
    : b.deprecated = (a.deprecated || (e.tagged? "deprecated").isSome) := by
  obtain ⟨doc, role⟩ := e
  cases h with
  | deprecated => exact (Bool.or_true _).symm
  | _ => exact (Bool.or_false _).symm

theorem Adds.nodiscard_eq (h : Adds a e.doc e.role b)
    : b.nodiscard = (a.nodiscard || (e.tagged? "nodiscard").isSome) := by
  obtain ⟨doc, role⟩ := e
  cases h with
  | nodiscard => exact (Bool.or_true _).symm
  | _ => exact (Bool.or_false _).symm

theorem Adds.isAsync_eq (h : Adds a e.doc e.role b)
    : b.isAsync = (a.isAsync || (e.tagged? "async").isSome) := by
  obtain ⟨doc, role⟩ := e
  cases h with
  | async => exact (Bool.or_true _).symm
  | _ => exact (Bool.or_false _).symm

def NotesTags (a : Annotations) : Prop :=
  a.functionTag = none → a.params = [] ∧ a.returns = [] ∧ a.links = []

theorem Adds.notesTags (h : Adds a e.doc e.role b) (ha : a.NotesTags) : b.NotesTags := by
  obtain ⟨doc, role⟩ := e
  have hnote : (a.note doc).functionTag ≠ none := by simp [note]
  cases h with
  | param | returned | deprecated | nodiscard | async | link => exact fun hnone => absurd hnone hnote
  | _ => exact ha

theorem map_classes_describe {β : Type} {g : ClassType → β} (h : ∀ c d, g { c with description := d } = g c)
    (a : Annotations) (description : Option String)
    : (a.describe description).classes.map g = a.classes.map g := by
  unfold describe
  cases description with
  | none => rfl
  | some d =>
    dsimp only
    split
    · rfl
    · exact map_updateLast (fun c => h c _) _

theorem aliases_describe (a : Annotations) (description : Option String)
    : (a.describe description).aliases =
        (if a.classes.isEmpty then description else none).elim a.aliases fun d => describeFirst (some d) a.aliases := by
  rw [describe_eq]
  cases a.classes.isEmpty <;> rfl

/-! ### Blocks -/

variable {es : List Entry} {docs : List DocLine} {fenced openAlias : Bool}

theorem Adds.aliases_ne_nil {text : List Char} (h : Adds a doc (Role.ofText fenced openAlias text) b)
    (hopen : openAlias = true → a.aliases ≠ [])
    (hopens : (Role.ofText fenced openAlias text).opensAlias openAlias = true)
    : b.aliases ≠ [] := by
  generalize Role.ofText fenced openAlias text = role at h hopens
  cases h with
  | prose => exact hopen hopens
  | member => exact updateLast_ne_nil (hopen hopens)
  | aliased => simp
  | _ => cases hopens

theorem openAlias_of_member? {text : List Char}
    (h : Entry.member? ⟨doc, Role.ofText fenced openAlias text⟩ ≠ none)
    : openAlias = true := by
  unfold Role.ofText at h
  split at h
  · exact absurd rfl h
  · split at h
    · exact absurd rfl h
    · split at h
      next hopen => exact hopen
      next => exact absurd rfl h
    · exact absurd rfl h

theorem collects_of_foldlM {α : Type} {read : DocLine → List Char → Except Error α} {line? : Entry → Option ValueLine}
    {values : Annotations → List α}
    (hstep : ∀ {a e b}, Adds a e.doc e.role b → (e.member? ≠ none → a.aliases ≠ []) →
      ∃ xs, values b = values a ++ xs ∧ Collects read (line? e).toList xs)
    (h : (Entry.ofDocs fenced openAlias docs).foldlM add a = .ok b) (hopen : openAlias = true → a.aliases ≠ [])
    : ∃ xs, values b = values a ++ xs ∧ Collects read ((Entry.ofDocs fenced openAlias docs).filterMap line?) xs := by
  induction docs generalizing a fenced openAlias with
  | nil =>
    cases h
    exact ⟨[], (List.append_nil _).symm, .nil⟩
  | cons doc docs ih =>
    rw [Entry.ofDocs, List.foldlM_cons] at h
    obtain ⟨c, hc, hb⟩ := bind_eq_ok_iff.1 h
    rw [add_eq_ok_iff] at hc
    obtain ⟨xs, hxs, hread⟩ := hstep hc fun hmember => hopen (openAlias_of_member? hmember)
    obtain ⟨ys, hys, hreads⟩ := ih hb (hc.aliases_ne_nil hopen)
    refine ⟨xs ++ ys, by rw [hys, hxs, List.append_assoc], ?_⟩
    rw [Entry.ofDocs, List.filterMap_cons]
    have happend := List.rel_append hread hreads
    generalize line? _ = l at happend ⊢
    cases l <;> exact happend

theorem flag_of_foldlM {flag : Annotations → Bool} {line? : Entry → Option ValueLine}
    (hstep : ∀ {a e b}, Adds a e.doc e.role b → flag b = (flag a || (line? e).isSome))
    (h : es.foldlM add a = .ok b)
    : flag b = true ↔ flag a = true ∨ es.filterMap line? ≠ [] := by
  induction es generalizing a with
  | nil =>
    cases h
    simp
  | cons e es ih =>
    rw [List.foldlM_cons] at h
    obtain ⟨c, hc, hb⟩ := bind_eq_ok_iff.1 h
    rw [ih hb, hstep (add_eq_ok_iff.1 hc), List.filterMap_cons]
    cases line? e <;> simp

theorem notesTags_of_foldlM (h : es.foldlM add a = .ok b) (ha : a.NotesTags) : b.NotesTags := by
  induction es generalizing a with
  | nil =>
    cases h
    exact ha
  | cons e es ih =>
    rw [List.foldlM_cons] at h
    obtain ⟨c, hc, hb⟩ := bind_eq_ok_iff.1 h
    exact ih hb ((add_eq_ok_iff.1 hc).notesTags ha)

end Annotations

namespace Paragraph

variable {p : Paragraph} {ps : List Paragraph} {a : Annotations} {f g : File}

structure Gathers (p : Paragraph) (a : Annotations) : Prop where
  prose : a.prose = p.entries.filterMap Entry.prose?
  params : Collects parseParam (p.tagged "param") a.params
  returns : Collects parseReturn (p.tagged "return") a.returns
  links : Collects parseLink (p.tagged "see") a.links
  classes : Collects parseClass (p.tagged "class") (a.classes.map (·.header))
  fields : Collects parseField (p.tagged "field") (a.classes.flatMap (·.fields))
  aliases : Collects parseAlias (p.tagged "alias") (a.aliases.map (·.header))
  members : Collects parseAliasMember p.members (a.aliases.flatMap (·.members))
  deprecated : a.deprecated = true ↔ p.tagged "deprecated" ≠ []
  nodiscard : a.nodiscard = true ↔ p.tagged "nodiscard" ≠ []
  isAsync : a.isAsync = true ↔ p.tagged "async" ≠ []
  notesTags : a.NotesTags

theorem gathers_of_foldlM (h : p.entries.foldlM Annotations.add {} = .ok a) : p.Gathers a := by
  have hlist {α : Type} {read : DocLine → List Char → Except Error α} {line? : Entry → Option ValueLine}
      {values : Annotations → List α} (hnil : values {} = [])
      (hstep : ∀ {a e b}, Annotations.Adds a e.doc e.role b → (e.member? ≠ none → a.aliases ≠ []) →
        ∃ xs, values b = values a ++ xs ∧ Collects read (line? e).toList xs)
      : Collects read (p.entries.filterMap line?) (values a) := by
    obtain ⟨xs, hxs, hread⟩ := Annotations.collects_of_foldlM hstep h (by simp)
    rw [hxs, hnil]
    exact hread
  have hflag {flag : Annotations → Bool} {word : String} (hfalse : flag {} = false)
      (hstep : ∀ {a b} {e : Entry}, Annotations.Adds a e.doc e.role b → flag b = (flag a || (e.tagged? word).isSome))
      : flag a = true ↔ p.tagged word ≠ [] := by
    rw [Annotations.flag_of_foldlM hstep h, hfalse]
    simp [tagged]
  exact {
    prose := Annotations.prose_of_foldlM h
    params := hlist rfl fun h _ => h.exists_params
    returns := hlist rfl fun h _ => h.exists_returns
    links := hlist rfl fun h _ => h.exists_links
    classes := hlist rfl fun h _ => h.exists_classes
    fields := hlist rfl fun h _ => h.exists_fields
    aliases := hlist rfl fun h _ => h.exists_aliases
    members := hlist rfl fun h hopen => h.exists_members hopen
    deprecated := hflag rfl fun h => h.deprecated_eq
    nodiscard := hflag rfl fun h => h.nodiscard_eq
    isAsync := hflag rfl fun h => h.isAsync_eq
    notesTags := Annotations.notesTags_of_foldlM h fun _ => ⟨rfl, rfl, rfl⟩ }

theorem names_header {l : ValueLine} {x : Alias} (h : parseAlias l.1 l.2 = .ok x.header) (prose : Option String)
    : Names (l, prose) { x with description := prose.or x.description } :=
  ⟨x.header, h, rfl⟩

theorem names_withProse {ls : List ValueLine} {xs : List Alias} (h : Collects parseAlias ls (xs.map (·.header)))
    (prose : Option String)
    : List.Forall₂ Names (withProse prose ls)
        (prose.elim xs fun d => describeFirst (some d) xs) := by
  cases xs with
  | nil =>
    cases h
    cases prose <;> exact .nil
  | cons x xs =>
    rw [List.map_cons] at h
    cases h with
    | @cons l _ ls _ hx hxs =>
      have hothers : List.Forall₂ Names (ls.map (·, none)) xs := by
        rw [List.forall₂_map_left_iff]
        rw [List.forall₂_map_right_iff] at hxs
        exact hxs.imp fun _ _ hy => names_header hy none
      cases prose with
      | none => exact .cons (names_header hx none) hothers
      | some d => exact .cons (names_header hx (some d)) hothers

namespace Gathers

variable (h : p.Gathers a)

include h

theorem isEmpty_classes : a.classes.isEmpty = (p.tagged "class").isEmpty := by
  have hlength := List.Forall₂.length_eq h.classes
  rw [List.length_map] at hlength
  rw [Bool.eq_iff_iff, List.isEmpty_iff_length_eq_zero, List.isEmpty_iff_length_eq_zero, hlength]

theorem aliasProse?_eq (hfunction : p.function? = none)
    : p.aliasProse? = if a.classes.isEmpty then a.description? else none := by
  have hdescription : ({ prose := p.entries.filterMap Entry.prose? } : Annotations).description? = a.description? := by
    unfold Annotations.description?
    rw [h.prose]
  rw [aliasProse?, hfunction, hdescription, ← h.isEmpty_classes]
  cases a.classes.isEmpty <;> rfl

theorem conserve_describe (htag : a.functionTag = none) (hfunction : p.function? = none) (hfunctions : f.functions = [])
    (hclasses : f.classes = (a.describe a.description?).classes)
    (haliases : f.aliases = (a.describe a.description?).aliases)
    : Conserve [p] f := by
  obtain ⟨hparams, hreturns, hlinks⟩ := h.notesTags htag
  have hheaders : f.classes.map (·.header) = a.classes.map (·.header) := by
    rw [hclasses]
    exact a.map_classes_describe (fun _ _ => rfl) _
  have hfields : f.classes.flatMap (·.fields) = a.classes.flatMap (·.fields) := by
    rw [hclasses, List.flatMap_def, a.map_classes_describe (fun _ _ => rfl), ← List.flatMap_def]
  have hmembers : f.aliases.flatMap (·.members) = a.aliases.flatMap (·.members) := by
    rw [haliases, Annotations.aliases_describe]
    generalize (if a.classes.isEmpty then a.description? else none) = prose
    cases prose with
    | none => rfl
    | some d =>
      apply flatMap_updateFirst
      exact fun _ => rfl
  have hnames : List.Forall₂ Names p.aliasLines f.aliases := by
    rw [haliases, Annotations.aliases_describe, aliasLines, h.aliasProse?_eq hfunction]
    exact names_withProse h.aliases _
  have hnone : [p].filter (·.function?.isSome) = [] := by simp [hfunction]
  constructor <;> simp only [List.flatMap_singleton, hfunctions, List.flatMap_nil, hheaders, hfields, hmembers, hnone]
  · exact hparams ▸ h.params
  · exact hreturns ▸ h.returns
  · exact hlinks ▸ h.links
  · exact h.classes
  · exact h.fields
  · exact hnames
  · exact h.members
  · exact .nil

theorem conserve_function {name : List Char} {signature : List String}
    (hfunction : p.function? = some (name, signature)) (hfunctions : f.functions = [a.function name signature])
    (hclasses : f.classes = a.classes) (haliases : f.aliases = a.aliases)
    : Conserve [p] f := by
  have hnames : List.Forall₂ Names p.aliasLines a.aliases := by
    have hprose : p.aliasProse? = none := by rw [aliasProse?, hfunction]; rfl
    rw [aliasLines, hprose]
    exact names_withProse h.aliases none
  have hdocuments : p.Documents (a.function name signature) :=
    ⟨⟨name, hfunction, rfl⟩, h.deprecated, h.nodiscard, h.isAsync⟩
  have hone : [p].filter (·.function?.isSome) = [p] := by simp [hfunction]
  constructor <;> simp only [List.flatMap_singleton, hfunctions, hclasses, haliases, hone]
  · exact h.params
  · exact h.returns
  · exact h.links
  · exact h.classes
  · exact h.fields
  · exact hnames
  · exact h.members
  · exact .cons hdocuments .nil

end Gathers

theorem conserve_of_addBlock (h : File.addBlock {} p.block = .ok f) : Conserve [p] f := by
  obtain ⟨a, ha, hsettles⟩ := File.addBlock_eq_ok_iff.1 h
  have hgathers : p.Gathers a := gathers_of_foldlM ha
  generalize hstatement : p.block.statement = statement at hsettles
  cases hsettles with
  | function hparse =>
    apply hgathers.conserve_function _ rfl rfl rfl
    rw [function?, hstatement, Option.bind_some, hparse]
  | detached htag =>
    apply hgathers.conserve_describe htag _ rfl rfl rfl
    rw [function?, hstatement]
    rfl
  | table htag hparse =>
    apply hgathers.conserve_describe htag _ rfl rfl rfl
    rw [function?, hstatement, Option.bind_some, hparse]
  | moduleReturn htag hparse =>
    apply hgathers.conserve_describe htag _ rfl rfl rfl
    rw [function?, hstatement, Option.bind_some, hparse]

/-! ### Files -/

theorem Conserve.append {qs : List Paragraph} (h : Conserve ps f) (h' : Conserve qs g)
    : Conserve (ps ++ qs) (f.append g) := by
  constructor <;> simp only [File.append, List.flatMap_append, List.map_append, List.filter_append]
  · exact List.rel_append h.params h'.params
  · exact List.rel_append h.returns h'.returns
  · exact List.rel_append h.links h'.links
  · exact List.rel_append h.classes h'.classes
  · exact List.rel_append h.fields h'.fields
  · exact List.rel_append h.aliases h'.aliases
  · exact List.rel_append h.members h'.members
  · exact List.rel_append h.functions h'.functions

theorem conserve_of_declare (h : declare ps = .ok f) : Conserve ps f := by
  induction ps generalizing f with
  | nil =>
    cases h
    exact ⟨.nil, .nil, .nil, .nil, .nil, .nil, .nil, .nil⟩
  | cons p ps ih =>
    obtain ⟨g, g', hg, hg', rfl⟩ := declare_cons_eq_ok_iff.1 h
    exact (conserve_of_addBlock hg).append (ih hg')

end Paragraph

namespace File

variable {f : File} {source : String}

/--
What a file declares are the values of its lines, each once and in its place.
-/
theorem conserve_of_parse (h : parse source = .ok f) : Paragraph.Conserve (Paragraph.ofSource source) f :=
  Paragraph.conserve_of_declare (parse_eq_ok_iff.1 h).2

theorem conserve_turtle
    : parse turtleText = .ok turtle ∧ Paragraph.Conserve (Paragraph.ofSource turtleText) turtle :=
  ⟨parse_turtleText, conserve_of_parse parse_turtleText⟩

def describedTwice : String :=
  "--- X.\n--- @alias X a b\n--- \x60\x60\x60\n--- | c\n--- \x60\x60\x60\n"

theorem parse_describedTwice
    : parse describedTwice
        = .ok {
            aliases := [{
              name := "X", base := some (.named "a"), description := some "X.\n\x60\x60\x60\n| c\n\x60\x60\x60" }] } := by
  decide +kernel

theorem not_conserve_describedTwice
    : ∃ f, parse describedTwice = .ok f ∧
        ¬ Collects parseAlias ((Paragraph.ofSource describedTwice).flatMap (Paragraph.tagged "alias"))
          (f.aliases.map (·.header)) ∧
        (Paragraph.ofSource describedTwice).map (·.block.docs.map fun doc => String.ofList doc.text)
          = [["X.", "@alias X a b", "\x60\x60\x60", "| c", "\x60\x60\x60"]] ∧
        f.aliases.flatMap (·.members) = [] := by
  have hlines : (Paragraph.ofSource describedTwice).flatMap (Paragraph.tagged "alias")
      = [(⟨⟨2, 5⟩, "@alias X a b".toList⟩, "X a b".toList)] := by
    decide +kernel
  have hline (doc : DocLine) : parseAlias doc "X a b".toList
      = .ok { name := "X", base := some (.named "a"), description := some "b" } := by
    rfl
  refine ⟨_, parse_describedTwice, ?_, by decide +kernel, rfl⟩
  rw [hlines]
  rintro (⟨⟩ | ⟨h, -⟩)
  rw [hline, Except.ok.injEq] at h
  exact absurd (congrArg Alias.description h) (by decide)

end File

end LuaTypes.Declaration
