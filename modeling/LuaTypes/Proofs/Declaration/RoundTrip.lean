import LuaTypes.Proofs.Declaration.Blocks
import LuaTypes.Proofs.Declaration.Writes

/-!
Reading of a written file. The blocks are found again and add the declarations one by one, so that the
file comes back, with its tables in the order in which they are written.
-/

namespace LuaTypes.Declaration.File

open Text

/-! ### Blocks that build a file -/

/--
Do the blocks, one after the other, make the file `g` of `f`?
-/
inductive Builds : List Written → File → File → Prop where
  | nil {f : File} : Builds [] f f
  | cons {w : Written} {ws : List Written} {f g k : File} : (∀ b, w.Matches b → f.addBlock b = .ok g) →
      Builds ws g k → Builds (w :: ws) f k

variable {f g k : File} {ws vs : List Written}

theorem Builds.append (h : Builds ws f g) (h' : Builds vs g k) : Builds (ws ++ vs) f k := by
  induction h with
  | nil => exact h'
  | cons hw _ ih => exact .cons hw (ih h')

theorem Builds.each {α : Type} {written : α → Written} (state : List α → File) {xs : List α}
    (h : ∀ x ∈ xs, ∀ ys b, (written x).Matches b → (state ys).addBlock b = .ok (state (ys ++ [x]))) (ys : List α)
    : Builds (xs.map written) (state ys) (state (ys ++ xs)) := by
  induction xs generalizing ys with
  | nil => simpa using Builds.nil
  | cons x xs ih =>
    have htail := ih (fun y hy => h y (by simp [hy])) (ys ++ [x])
    rw [List.append_assoc, List.singleton_append] at htail
    exact .cons (h x (by simp) ys) htail

theorem Builds.addBlocks_eq (h : Builds ws f g) {bs : List Block} (hbs : List.Forall₂ Written.Matches ws bs)
    : f.addBlocks bs = .ok g := by
  induction h generalizing bs with
  | nil =>
    cases hbs
    rfl
  | cons hw _ ih =>
    cases hbs with
    | cons hb hbs =>
      rw [addBlocks, hw _ hb]
      exact ih hbs

/-! ### Files -/

def tableOf? (namespaces : List Namespace) (named : List String) (c : ClassType) : Option String :=
  if named.contains c.name then none else Namespace.boundTo? namespaces c.name

def writtenClasses (namespaces : List Namespace) (named : List String) : List ClassType → List Written
  | [] => []
  | c :: cs => .ofClass c (tableOf? namespaces named c) :: writtenClasses namespaces (c.name :: named) cs

def classTables (namespaces : List Namespace) (named : List String) : List ClassType → List Namespace
  | [] => []
  | c :: cs =>
    ((tableOf? namespaces named c).map fun name => { name, className := some c.name }).toList ++
      classTables namespaces (c.name :: named) cs

def freeTables (f : File) : List Namespace :=
  f.namespaces.filter (isFree f.classes)

def tables (f : File) : List Namespace :=
  classTables f.namespaces [] f.classes ++ f.freeTables.map fun ns => { name := ns.name }

def written (f : File) : List Written :=
  (f.marker.map Written.ofMarker).toList ++ f.aliases.map Written.ofAlias ++
    writtenClasses f.namespaces [] f.classes ++ f.freeTables.map (fun ns => Written.ofTable ns.name) ++
    f.functions.map Written.ofFunction ++ (f.moduleReturn.map Written.ofReturn).toList

/-! ### Lines -/

theorem classBlocks_eq (namespaces : List Namespace) (named : List String) (cs : List ClassType)
    : classBlocks namespaces named cs = (writtenClasses namespaces named cs).map Written.lines := by
  induction cs generalizing named with
  | nil => rfl
  | cons c cs ih =>
    rw [classBlocks, writtenClasses, List.map_cons, Written.lines_ofClass, ← ih]
    rfl

theorem blocks_eq (h : f.Readable) : f.blocks = f.written.map Written.lines := by
  have haliases : f.aliases.map Alias.renderLines = (f.aliases.map Written.ofAlias).map Written.lines := by
    rw [List.map_map]
    exact List.map_congr_left fun a ha => (Written.lines_ofAlias (h.aliases a ha)).symm
  have hfunctions : f.functions.map Function.renderLines = (f.functions.map Written.ofFunction).map Written.lines := by
    rw [List.map_map]
    exact List.map_congr_left fun fn _ => (Written.lines_ofFunction fn).symm
  have htables : f.freeTables.map (fun ns => [Namespace.render ns.name])
      = (f.freeTables.map fun ns => Written.ofTable ns.name).map Written.lines := by
    rw [List.map_map]
    exact List.map_congr_left fun ns _ => (Written.lines_ofTable ns.name).symm
  have hmarker : (f.marker.map fun text => [tagLine "meta" text]).toList
      = (f.marker.map Written.ofMarker).toList.map Written.lines := by
    cases f.marker with
    | none => rfl
    | some text => exact congrArg (fun ls => [ls]) (Written.lines_ofMarker text).symm
  have hreturn : (f.moduleReturn.map fun name => ["return " ++ name]).toList
      = (f.moduleReturn.map Written.ofReturn).toList.map Written.lines := by
    cases f.moduleReturn with
    | none => rfl
    | some name => exact congrArg (fun ls => [ls]) (Written.lines_ofReturn name).symm
  rw [blocks, written, haliases, hfunctions, hmarker, hreturn, classBlocks_eq]
  simp only [List.map_append]
  rw [← htables]
  rfl

/-! ### Conditions -/

inductive WritesAbove (f : File) : String → Prop where
  | ofAlias {a : Alias} {d : String} : a ∈ f.aliases → a.description = some d → WritesAbove f d
  | ofClass {c : ClassType} {d : String} : c ∈ f.classes → c.description = some d → WritesAbove f d
  | ofFunction {fn : Function} {d : String} : fn ∈ f.functions → fn.tagLines ≠ [] → fn.description = some d →
      WritesAbove f d

/--
Is each type canonical, does no description hide or hold a tag, and has no link a mark before its
description? Then all that is written is read back.
-/
structure IsSettled (f : File) : Prop where
  types : ∀ t, f.Writes t → t.Canonical true
  descriptions : ∀ d, f.WritesAbove d → StandsAbove (proseOf d)
  links : ∀ fn ∈ f.functions, ∀ l ∈ fn.links, ∀ d, l.description = some d → ¬ IsMarked d.toList

theorem Readable.isType (h : f.Readable) {t : TypeExpr} (ht : f.Writes t) : IsType t := by
  cases ht with
  | base ha hb => exact (h.aliases _ ha).base _ hb
  | member ha hm => exact ((h.aliases _ ha).members _ hm).type
  | key hc hf hkey =>
    obtain ⟨hnone, -⟩ | ⟨⟨key, hsome, hkey'⟩, -⟩ := ((h.classes _ hc).fields _ hf).keyed
    · rw [hnone] at hkey
      cases hkey
    · rw [hsome] at hkey
      cases hkey
      exact hkey'
  | field hc hf => exact ((h.classes _ hc).fields _ hf).type
  | param hf hp => exact ((h.functions _ hf).params _ hp).type
  | result hf hr => exact ((h.functions _ hf).returns _ hr).type

theorem IsSettled.type (hs : f.IsSettled) (h : f.Readable) {t : TypeExpr} (ht : f.Writes t)
    : Declaration.IsSettled t :=
  ⟨h.isType ht, hs.types t ht⟩

theorem IsSettled.alias (hs : f.IsSettled) (h : f.Readable) {a : Alias} (ha : a ∈ f.aliases) : a.IsSettled where
  base := fun _ ht => hs.type h (.base ha ht)
  members := fun _ hm => hs.type h (.member ha hm)
  description := fun _ hd => hs.descriptions _ (.ofAlias ha hd)

theorem IsSettled.classType (hs : f.IsSettled) (h : f.Readable) {c : ClassType} (hc : c ∈ f.classes)
    : c.IsSettled where
  fields := fun _ hf => ⟨hs.type h (.field hc hf), fun _ hkey => hs.type h (.key hc hf hkey)⟩
  description := fun _ hd => hs.descriptions _ (.ofClass hc hd)

theorem IsSettled.function (hs : f.IsSettled) (h : f.Readable) {fn : Function} (hfn : fn ∈ f.functions)
    : fn.IsSettled where
  params := fun _ hp => hs.type h (.param hfn hp)
  returns := fun _ hr => hs.type h (.result hfn hr)
  links := hs.links fn hfn
  closed := by
    intro hne d hd
    refine (hs.descriptions _ (.ofFunction hfn ?_ hd)).closed
    rw [← Written.map_line_tagTexts]
    simpa using hne

theorem isDottedName_of_tableOf? (h : f.Readable) {named : List String} {c : ClassType} {name : String}
    (hname : tableOf? f.namespaces named c = some name)
    : IsDottedName name.toList := by
  unfold tableOf? Namespace.boundTo? at hname
  split at hname
  · cases hname
  · obtain ⟨ns, hns, rfl⟩ := Option.map_eq_some_iff.1 hname
    exact h.namespaces ns (by simpa using List.mem_of_find?_eq_some hns)

/-! ### Reading -/

theorem legible_writtenClasses (h : f.Readable) (hs : f.IsSettled) {cs : List ClassType}
    (hcs : ∀ c ∈ cs, c ∈ f.classes) (named : List String)
    : ∀ w ∈ writtenClasses f.namespaces named cs, w.Legible := by
  induction cs generalizing named with
  | nil => simp [writtenClasses]
  | cons c cs ih =>
    have hc := hcs c (by simp)
    rw [writtenClasses, List.forall_mem_cons]
    constructor
    · exact Written.legible_ofClass (h.classes c hc) (hs.classType h hc) fun _ => isDottedName_of_tableOf? h
    · exact ih (fun d hd => hcs d (by simp [hd])) (c.name :: named)

theorem legible_written (h : f.Readable) (hs : f.IsSettled) : ∀ w ∈ f.written, w.Legible := by
  unfold written
  simp only [List.forall_mem_append, List.forall_mem_map, Option.mem_toList, Option.map_eq_some_iff]
  refine ⟨⟨⟨⟨⟨?marker, ?aliases⟩, ?classes⟩, ?tables⟩, ?functions⟩, ?moduleReturn⟩
  case marker =>
    rintro _ ⟨text, htext, rfl⟩
    exact Written.legible_ofMarker (isPhrase_of_trimmed (h.marker text htext))
  case aliases => exact fun a ha => Written.legible_ofAlias (h.aliases a ha) (hs.alias h ha)
  case classes => exact legible_writtenClasses h hs (fun _ hc => hc) []
  case tables => exact fun ns hns => Written.legible_ofTable (h.namespaces ns (List.mem_of_mem_filter hns))
  case functions => exact fun fn hfn => Written.legible_ofFunction (h.functions fn hfn) (hs.function h hfn)
  case moduleReturn =>
    rintro _ ⟨name, hname, rfl⟩
    exact Written.legible_ofReturn (h.moduleReturn name hname)

theorem builds_marker (h : f.Readable) (g : File)
    : Builds (f.marker.map Written.ofMarker).toList { g with marker := none } { g with marker := f.marker } := by
  cases hmarker : f.marker with
  | none => exact .nil
  | some text => exact .cons (fun _ => addBlock_ofMarker (isPhrase_of_trimmed (h.marker text hmarker))) .nil

theorem builds_aliases (h : f.Readable) (hs : f.IsSettled) (g : File)
    : Builds (f.aliases.map Written.ofAlias) { g with aliases := [] } { g with aliases := f.aliases } := by
  refine Builds.each (fun xs => { g with aliases := xs }) ?_ []
  exact fun a ha _ _ => addBlock_ofAlias (h.aliases a ha) (hs.alias h ha)

theorem builds_classes (h : f.Readable) (hs : f.IsSettled) {cs : List ClassType} (hcs : ∀ c ∈ cs, c ∈ f.classes)
    (named : List String) (g : File)
    : Builds (writtenClasses f.namespaces named cs) g { g with
        classes := g.classes ++ cs
        namespaces := g.namespaces ++ classTables f.namespaces named cs } := by
  induction cs generalizing named g with
  | nil =>
    rw [classTables, List.append_nil, List.append_nil]
    exact .nil
  | cons c cs ih =>
    have hc := hcs c (by simp)
    have htable : ∀ name, tableOf? f.namespaces named c = some name → IsDottedName name.toList :=
      fun _ => isDottedName_of_tableOf? h
    have htail := ih (fun d hd => hcs d (by simp [hd])) (c.name :: named) { g with
      classes := g.classes ++ [c]
      namespaces := g.namespaces ++
        ((tableOf? f.namespaces named c).map fun name => { name, className := some c.name }).toList }
    refine .cons (fun _ hb => addBlock_ofClass (h.classes c hc) (hs.classType h hc) htable hb) ?_
    simpa [classTables] using htail

theorem builds_tables (h : f.Readable) (g : File)
    : Builds (f.freeTables.map fun ns => Written.ofTable ns.name) g
        { g with namespaces := g.namespaces ++ f.freeTables.map fun ns => { name := ns.name } } := by
  let state (xs : List Namespace) : File :=
    { g with namespaces := g.namespaces ++ xs.map fun ns => { name := ns.name } }
  have hbuilds : Builds (f.freeTables.map fun ns => Written.ofTable ns.name) (state [])
      (state ([] ++ f.freeTables)) := by
    apply Builds.each state
    intro ns hns xs b hb
    rw [addBlock_ofTable (h.namespaces ns (List.mem_of_mem_filter hns)) hb]
    simp [state]
  simpa [state] using hbuilds

theorem builds_functions (h : f.Readable) (hs : f.IsSettled) (g : File)
    : Builds (f.functions.map Written.ofFunction) { g with functions := [] } { g with functions := f.functions } := by
  refine Builds.each (fun xs => { g with functions := xs }) ?_ []
  exact fun fn hfn _ _ => addBlock_ofFunction (h.functions fn hfn) (hs.function h hfn)

theorem builds_moduleReturn (h : f.Readable) (g : File)
    : Builds (f.moduleReturn.map Written.ofReturn).toList { g with moduleReturn := none }
        { g with moduleReturn := f.moduleReturn } := by
  cases hname : f.moduleReturn with
  | none => exact .nil
  | some name => exact .cons (fun _ => addBlock_ofReturn (h.moduleReturn name hname)) .nil

theorem builds_written (h : f.Readable) (hs : f.IsSettled)
    : Builds f.written {} { f with namespaces := f.tables } := by
  let f₁ : File := { marker := f.marker }
  let f₂ : File := { f₁ with aliases := f.aliases }
  let f₃ : File := { f₂ with classes := f.classes, namespaces := classTables f.namespaces [] f.classes }
  let f₄ : File := { f₃ with namespaces := f.tables }
  let f₅ : File := { f₄ with functions := f.functions }
  have hdeclared := ((builds_marker h {}).append (builds_aliases h hs f₁)).append
    (builds_classes h hs (fun _ hc => hc) [] f₂)
  exact ((hdeclared.append (builds_tables h f₃)).append (builds_functions h hs f₄)).append (builds_moduleReturn h f₅)

theorem parse_render_tables (h : f.Readable) (hs : f.IsSettled)
    : parse f.render = .ok { f with namespaces := f.tables } := by
  have hlegible := legible_written h hs
  have hlines : lines f.render.toList = layout (f.written.map Written.lines) := by
    rw [render, blocks_eq h, toList_join_blocks, lines_endLines]
    · apply oneLine_of_mem_layout
      rw [List.forall_mem_map]
      exact fun w hw => (hlegible w hw).oneLine
    · rw [List.forall_mem_map]
      exact fun w hw => (hlegible w hw).lines_ne_nil
  obtain ⟨bs, hbs, hmatches⟩ := Block.ofLines_layout hlegible 1
  unfold parse
  rw [hlines, hbs]
  dsimp only [bind, Except.bind]
  rw [(builds_written h hs).addBlocks_eq hmatches]
  rfl

end LuaTypes.Declaration.File
