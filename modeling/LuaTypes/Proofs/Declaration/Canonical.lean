import LuaTypes.Proofs.Declaration.RoundTrip

/-!
Files that come back as they are when they are written and read: those in canonical form, and those that
have been read and hold nothing that is lost in writing.
-/

namespace LuaTypes.Declaration.File

open Text

variable {f : File}

/-! ### The order of tables -/

/--
Are the tables of classes first, in the order of the classes and one for a class at most?
-/
def InOrder (f : File) : Prop :=
  ∃ typed free, f.namespaces = typed ++ free ∧
    (typed.map (·.className)).Sublist (f.classes.map fun c => some c.name) ∧
    ∀ ns ∈ free, ns.className = none

def ofClass (namespaces : List Namespace) (name : String) : List Namespace :=
  namespaces.filter fun ns => ns.className = some name

theorem boundTo?_eq (namespaces : List Namespace) (name : String)
    : Namespace.boundTo? namespaces name = (ofClass namespaces name).getLast?.map (·.name) := by
  rw [Namespace.boundTo?, ofClass, ← List.head?_reverse, ← List.filter_reverse, List.head?_filter]

theorem ofClass_eq_nil {namespaces : List Namespace} {name : String}
    (h : some name ∉ namespaces.map (·.className))
    : ofClass namespaces name = [] := by
  rw [ofClass, List.filter_eq_nil_iff]
  intro ns hns hname
  rw [decide_eq_true_eq] at hname
  exact h (hname ▸ List.mem_map_of_mem hns)

theorem classTables_eq {namespaces typed : List Namespace} {cs : List ClassType} (hnodup : (cs.map (·.name)).Nodup)
    (horder : (typed.map (·.className)).Sublist (cs.map fun c => some c.name)) {named : List String}
    (hnamed : ∀ c ∈ cs, c.name ∉ named) (hclasses : ∀ c ∈ cs, ofClass namespaces c.name = ofClass typed c.name)
    : classTables namespaces named cs = typed := by
  induction cs generalizing typed named with
  | nil =>
    rw [List.map_nil, List.sublist_nil, List.map_eq_nil_iff] at horder
    rw [horder]
    rfl
  | cons c cs ih =>
    rw [List.map_cons, List.nodup_cons] at hnodup
    have hnotMem : some c.name ∉ cs.map fun c => some c.name := by
      intro hmem
      obtain ⟨d, hd, hname⟩ := List.mem_map.1 hmem
      exact hnodup.1 (Option.some.inj hname ▸ List.mem_map_of_mem hd)
    have hrest : ∀ d ∈ cs, d.name ∉ c.name :: named := by
      intro d hd hmem
      rw [List.mem_cons] at hmem
      obtain hname | hmem := hmem
      · exact hnodup.1 (hname ▸ List.mem_map_of_mem hd)
      · exact hnamed d (by simp [hd]) hmem
    have htable : tableOf? namespaces named c = (ofClass typed c.name).getLast?.map (·.name) := by
      rw [tableOf?, if_neg (by simpa using hnamed c (by simp)), boundTo?_eq, hclasses c (by simp)]
    rw [classTables, htable]
    generalize hnames : typed.map (·.className) = names at horder
    rw [List.map_cons] at horder
    cases horder with
    | cons _ horder =>
      rw [← hnames] at horder
      rw [ofClass_eq_nil fun hmem => hnotMem (horder.subset hmem)]
      exact ih hnodup.2 horder hrest fun d hd => hclasses d (by simp [hd])
    | cons_cons _ horder =>
      obtain ⟨ns, typed, rfl, hname, rfl⟩ := List.map_eq_cons_iff.1 hnames
      have htyped : ofClass (ns :: typed) c.name = [ns] := by
        have hnil := ofClass_eq_nil fun hmem => hnotMem (horder.subset hmem)
        rw [ofClass] at hnil ⊢
        rw [List.filter_cons_of_pos (by simpa using hname), hnil]
      have htail := ih hnodup.2 horder hrest fun d hd => by
        have hne : ns.className ≠ some d.name := by
          rw [hname]
          exact fun heq => hnotMem (heq ▸ List.mem_map_of_mem hd)
        rw [hclasses d (by simp [hd]), ofClass, List.filter_cons_of_neg (by simpa using hne), ofClass]
      obtain ⟨name, className⟩ := ns
      cases hname
      rw [htyped, htail]
      rfl

theorem tables_eq (hnodup : (f.classes.map (·.name)).Nodup) (h : f.InOrder) : f.tables = f.namespaces := by
  obtain ⟨typed, free, hnamespaces, horder, hfree⟩ := h
  have hclassNames : ∀ ns ∈ typed, isFree f.classes ns = false := by
    intro ns hns
    obtain ⟨c, hc, hname⟩ := List.mem_map.1 (horder.subset (List.mem_map_of_mem hns))
    rw [isFree, ← hname]
    simpa using ⟨c, hc, rfl⟩
  have hfreeTables : f.freeTables = free := by
    have htyped : typed.filter (isFree f.classes) = [] := by
      simpa [List.filter_eq_nil_iff] using hclassNames
    have hnone : free.filter (isFree f.classes) = free := by
      rw [List.filter_eq_self]
      exact fun ns hns => by rw [isFree, hfree ns hns]
    rw [freeTables, hnamespaces, List.filter_append, htyped, hnone, List.nil_append]
  have hunnamed : free.map (fun ns => { name := ns.name }) = free := by
    rw [List.map_congr_left (g := id), List.map_id]
    intro ns hns
    obtain ⟨name, className⟩ := ns
    cases hfree _ hns
    rfl
  have hclasses : ∀ c ∈ f.classes, ofClass f.namespaces c.name = ofClass typed c.name := by
    intro c _
    have hnil : ofClass free c.name = [] := by
      apply ofClass_eq_nil
      intro hmem
      obtain ⟨ns, hns, hname⟩ := List.mem_map.1 hmem
      rw [hfree ns hns] at hname
      cases hname
    rw [ofClass] at hnil ⊢
    rw [hnamespaces, List.filter_append, hnil, List.append_nil, ofClass]
  rw [tables, classTables_eq hnodup horder (by simp) hclasses, hfreeTables, hunnamed, hnamespaces]

/-! ### Canonical files -/

structure IsCanonical (f : File) : Prop extends Readable f, IsSettled f where
  nodup : (f.classes.map (·.name)).Nodup
  inOrder : f.InOrder

/-! ### A canonical file -/

def turtle : File where
  namespaces := [{ name := "turtle", className := some "Turtle" }]
  classes := [{
    name := "Turtle"
    parents := ["Robot"]
    fields := [
      { name := some "fuel", type := .named "number", optional := true },
      { key := some (.named "number"), type := .named "string", description := some "By slot." }] }]
  functions := [{
    owner := some "turtle"
    name := "turn"
    isMethod := true
    signature := ["side"]
    params := [{ name := "side", type := .named "string", description := some "The side." }]
    returns := [{ type := .named "number", name := some "angle" }]
    description := some "Turns." }]

def turtleText : String :=
  "--- @class Turtle : Robot\n--- @field fuel? number\n--- @field [number] string # By slot.\nturtle = \x7b\x7d\n\n" ++
    "--- Turns.\n---\n--- @param side string # The side.\n--- @return number angle\nfunction turtle:turn(side) end\n"

theorem render_turtle : turtle.render = turtleText := by
  decide +kernel

theorem isSettled_of_writes_turtle {t : TypeExpr} (h : turtle.Writes t) : Declaration.IsSettled t := by
  have hnamed : ∀ name, TypeExpr.IsTypeName name → Declaration.IsSettled (.named name) :=
    fun _ hname => ⟨.named hname, .named hname⟩
  have hnumber := hnamed "number" ⟨⟨⟨_, _, rfl, rfl, rfl, rfl⟩, rfl⟩, by decide, by decide⟩
  have hstring := hnamed "string" ⟨⟨⟨_, _, rfl, rfl, rfl, rfl⟩, rfl⟩, by decide, by decide⟩
  cases h with
  | base ha => cases ha
  | member ha => cases ha
  | key hc hf hkey =>
    cases List.mem_singleton.1 hc
    obtain rfl | rfl := List.mem_pair.1 hf
    · cases hkey
    · cases hkey
      exact hnumber
  | field hc hf =>
    cases List.mem_singleton.1 hc
    obtain rfl | rfl := List.mem_pair.1 hf
    · exact hnumber
    · exact hstring
  | param hfn hp =>
    cases List.mem_singleton.1 hfn
    cases List.mem_singleton.1 hp
    exact hstring
  | result hfn hr =>
    cases List.mem_singleton.1 hfn
    cases List.mem_singleton.1 hr
    exact hnumber

theorem isDescription_some {d : String} (h : IsPhrase d.toList) : IsDescription (some d) := by
  rintro _ ⟨⟩
  exact h

theorem readable_turtle_classes : ∀ c ∈ turtle.classes, c.Readable := by
  intro c hc
  have htypes := fun t => @isSettled_of_writes_turtle t
  have hmem := hc
  cases List.mem_singleton.1 hc
  refine { name := by decide, no_colon := by decide, parents := by decide, description := by simp, fields := ?_ }
  intro f hf
  have htype := (htypes _ (.field hmem hf)).type
  have hkey := fun t ht => (htypes t (.key hmem hf ht)).type
  obtain rfl | rfl := List.mem_pair.1 hf
  · exact ⟨.inl ⟨rfl, _, rfl, .inr ⟨⟨_, _, rfl, rfl⟩, List.all_eq_true.1 (by decide +kernel)⟩⟩, htype, isDescription_none⟩
  · exact ⟨.inr ⟨⟨_, rfl, hkey _ rfl⟩, rfl, rfl⟩, htype, isDescription_some (by decide)⟩

theorem readable_turtle_functions : ∀ fn ∈ turtle.functions, fn.Readable := by
  intro fn hfn
  have htypes := fun t => @isSettled_of_writes_turtle t
  have hmem := hfn
  cases List.mem_singleton.1 hfn
  constructor
  case name => exact ⟨"turtle:turn".toList, ⟨⟨_, _, rfl, rfl⟩, List.all_eq_true.1 (by decide +kernel)⟩, rfl⟩
  case signature => decide
  case params =>
    intro p hp
    have htype := (htypes _ (.param hmem hp)).type
    cases List.mem_singleton.1 hp
    exact ⟨.inr ⟨⟨_, _, rfl, rfl⟩, List.all_eq_true.1 (by decide +kernel)⟩, htype, isDescription_some (by decide)⟩
  case returns =>
    intro r hr
    have htype := (htypes _ (.result hmem hr)).type
    cases List.mem_singleton.1 hr
    refine ⟨htype, ?_, isDescription_none⟩
    rintro _ ⟨⟩
    exact ⟨by decide +kernel, rfl⟩
  case links => simp
  case description =>
    rintro _ ⟨⟩
    exact ⟨⟨by decide, by decide, by decide, by decide, by decide⟩, by decide⟩
  case deprecationReason => exact isDescription_none
  case deprecated => exact fun _ => rfl

theorem readable_turtle : turtle.Readable where
  marker := by simp [turtle]
  namespaces := by
    intro ns hns
    cases List.mem_singleton.1 hns
    exact ⟨⟨_, _, rfl, rfl⟩, List.all_eq_true.1 (by decide +kernel)⟩
  classNames := by
    intro ns hns name hname
    cases List.mem_singleton.1 hns
    cases hname
    exact ⟨_, List.mem_singleton_self _, rfl⟩
  classes := readable_turtle_classes
  aliases := by simp [turtle]
  functions := readable_turtle_functions
  moduleReturn := by simp [turtle]

theorem isSettled_turtle : turtle.IsSettled where
  types := fun _ ht => (isSettled_of_writes_turtle ht).canonical
  descriptions := by
    intro d hd
    cases hd with
    | ofAlias ha => cases ha
    | ofClass hc hd =>
      cases List.mem_singleton.1 hc
      cases hd
    | ofFunction hfn _ hd =>
      cases List.mem_singleton.1 hfn
      cases hd
      exact ⟨by decide, by decide⟩
  links := by
    intro fn hfn l hl
    cases List.mem_singleton.1 hfn
    cases hl

theorem isCanonical_turtle : turtle.IsCanonical where
  toReadable := readable_turtle
  toIsSettled := isSettled_turtle
  nodup := by decide
  inOrder := ⟨turtle.namespaces, [], rfl, .refl _, by simp⟩

/--
Canonical files are written faithfully.
-/
theorem parse_render (h : f.IsCanonical) : parse f.render = .ok f := by
  rw [parse_render_tables h.toReadable h.toIsSettled, tables_eq h.nodup h.inOrder]

theorem parse_render_turtle : turtle.IsCanonical ∧ parse turtle.render = .ok turtle :=
  ⟨isCanonical_turtle, parse_render isCanonical_turtle⟩

/-! ### Files that have been read -/

/--
A file that has been read comes back from its canonical text, its tables in the order of writing.
-/
theorem parse_render_of_parse {source : String} (h : parse source = .ok f) (hs : f.IsSettled)
    : parse f.render = .ok { f with namespaces := f.tables } ∧ (parse f.render = .ok f ↔ f.tables = f.namespaces) := by
  have hread := parse_render_tables (readable_of_parse h) hs
  refine ⟨hread, ?_⟩
  rw [hread, Except.ok.injEq]
  constructor
  · intro heq
    exact congrArg namespaces heq
  · intro htables
    rw [htables]

theorem parse_turtleText : parse turtleText = .ok turtle := by
  rw [← render_turtle, parse_render_tables readable_turtle isSettled_turtle]
  rfl

theorem parse_render_of_parse_turtle
    : parse turtleText = .ok turtle ∧ turtle.IsSettled ∧ turtle.tables = turtle.namespaces ∧
        parse turtle.render = .ok turtle :=
  ⟨parse_turtleText, isSettled_turtle, rfl, (parse_render_of_parse parse_turtleText isSettled_turtle).2.2 rfl⟩

theorem not_parse_render_choice
    : ∃ f, parse "--- @alias X a | fun(): b, c\n" = .ok f ∧ f.render = "--- @alias X a | (fun(): b, c)\n" ∧
        ∀ g, parse f.render ≠ .ok g := by
  have hread : (parse "--- @alias X a | fun(): b, c\n").toOption.map render
      = some "--- @alias X a | (fun(): b, c)\n" := by
    decide +kernel
  have hagain : (parse "--- @alias X a | (fun(): b, c)\n").isOk = false := by
    decide +kernel
  cases hparse : parse "--- @alias X a | fun(): b, c\n" with
  | error e =>
    rw [hparse] at hread
    cases hread
  | ok f =>
    rw [hparse] at hread
    have htext := Option.some.inj hread
    refine ⟨f, rfl, htext, ?_⟩
    intro g hg
    rw [htext] at hg
    rw [hg] at hagain
    cases hagain

end LuaTypes.Declaration.File
