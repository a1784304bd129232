import LuaTypes.Declaration.Parser
import LuaTypes.Proofs.TypeExpr.Places
import LuaTypes.Proofs.Validation.TypeText

/-!
Unions that have an alternative twice. There is one warning for each place of such a union in a corpus, but for the
places in key types: those of the fields of classes are left out, and so are those of tables.
-/

namespace LuaTypes

namespace TypeExpr

def union? : TypeExpr → Option (List TypeExpr)
  | .union members => some members
  | _ => none

theorem union?_eq_some_iff {t : TypeExpr} {members : List TypeExpr} : t.union? = some members ↔ t = .union members := by
  cases t <;> simp [union?]

def unionAt? (t : TypeExpr) (way : List Step) : Option (List TypeExpr) :=
  if way.any (·.isKey) then none else (t.at? way).bind union?

theorem unionAt?_nil (t : TypeExpr) : t.unionAt? [] = t.union? := by
  rfl

theorem unionAt?_cons (t : TypeExpr) (s : Step) (way : List Step)
    : t.unionAt? (s :: way) = (t.child? s).bind fun u => u.unionAt? way := by
  unfold unionAt? child?
  rw [List.any_cons, at?]
  cases s.isKey with
  | true => rfl
  | false =>
    rw [Bool.false_or, if_neg Bool.false_ne_true]
    cases t.step? s with
    | none => simp
    | some u => rfl

end TypeExpr

namespace Validation

open Declaration TypeExpr

/-! ### Unions of a type -/

theorem unionsOfList_eq_flatMap (ts : List TypeExpr) : unionsOfList ts = ts.flatMap unions := by
  induction ts with
  | nil => rfl
  | cons t ts ih => rw [unionsOfList, ih, List.flatMap_cons]

theorem unionsOfParams_eq_flatMap (ps : List (TypeExpr.Param TypeExpr))
    : unionsOfParams ps = (ps.filterMap (·.type)).flatMap unions := by
  induction ps with
  | nil => rfl
  | cons p ps ih =>
    obtain ⟨name, type, isOptional⟩ := p
    cases type with
    | none => simp [unionsOfParams, unionsOfOption, ih]
    | some t => simp [unionsOfParams, unionsOfOption, ih]

theorem unionsOfFields_eq_flatMap (fs : List (TypeExpr.Field TypeExpr))
    : unionsOfFields fs = (fs.map (·.type)).flatMap unions := by
  induction fs with
  | nil => rfl
  | cons f fs ih => rw [unionsOfFields, ih, List.map_cons, List.flatMap_cons]

theorem unions_eq (t : TypeExpr) : unions t = t.union?.toList ++ t.children.flatMap unions := by
  cases t with
  | named | literal | vararg => rfl
  | union members => simp [unions, union?, children, unionsOfList_eq_flatMap]
  | optional inner => simp [unions, union?, children]
  | array element => simp [unions, union?, children]
  | generic name args => simp [unions, union?, children, unionsOfList_eq_flatMap]
  | function params returns isAsync =>
    simp [unions, union?, children, unionsOfList_eq_flatMap, unionsOfParams_eq_flatMap]
  | table fields => simp only [unions, union?, children, unionsOfFields_eq_flatMap, Option.toList_none, List.nil_append]

theorem lists_unions (t : TypeExpr) : Lists t.unionAt? (unions t) := by
  induction t using induction_on_step with
  | h t ih =>
    have hchildren : ∀ u ∈ t.children, Lists u.unionAt? (unions u) := by
      intro u hu
      obtain ⟨s, hs⟩ := exists_step?_of_mem_children hu
      exact ih s u hs
    have hbelow : Lists (fun way : List Step => match way with
        | [] => none
        | s :: way => (t.child? s).bind (·.unionAt? way)) (t.children.flatMap unions) := by
      apply (lists_children t).flatMap (g := List.cons) (fun _ _ _ _ h => List.cons.inj h) hchildren
      intro way members
      cases way <;> simp [Option.bind_eq_some_iff]
    have hself : Lists (fun way : List Step => match way with
        | [] => t.union?
        | _ :: _ => none) t.union?.toList := by
      apply (Lists.ofOption t.union?).image (f := fun _ => []) (fun _ _ _ => rfl)
      intro way members
      cases way <;> simp
    rw [unions_eq]
    apply hself.append hbelow
    · intro way members
      cases way <;> simp [unionAt?_nil, unionAt?_cons]
    · intro way members members'
      cases way <;> simp

/-! ### Places in a corpus -/

/--
Where a type is written in a file. Fields are counted within their classes, parameters and results within their
functions.
-/
inductive Slot where
  | alias (i : Nat)
  | key (i j : Nat)
  | field (i j : Nat)
  | param (i j : Nat)
  | result (i j : Nat)
  deriving DecidableEq

def Slot.isKey : Slot → Bool
  | .key .. => true
  | _ => false

def slot? (f : File) : Slot → Option (Owner × TypeExpr)
  | .alias i => f.aliases[i]?.map fun a => (⟨.alias, a.name⟩, a.type)
  | .key i j => f.classes[i]?.bind fun c => (c.fields[j]?.bind (·.key)).map (⟨.classType, c.name⟩, ·)
  | .field i j => f.classes[i]?.bind fun c => c.fields[j]?.map fun field => (⟨.classType, c.name⟩, field.type)
  | .param i j => f.functions[i]?.bind fun fn => fn.params[j]?.map fun p => (⟨.function, fn.qualifiedName⟩, p.type)
  | .result i j => f.functions[i]?.bind fun fn => fn.returns[j]?.map fun r => (⟨.function, fn.qualifiedName⟩, r.type)

structure Place where
  file : Nat
  slot : Slot
  way : List Step
  deriving DecidableEq

def Place.isKeyed (p : Place) : Bool :=
  p.slot.isKey || p.way.any (·.isKey)

def at? (corpus : Corpus) (p : Place) : Option (Owner × TypeExpr) :=
  corpus.files[p.file]?.bind fun m => (slot? m.2 p.slot).bind fun o => (o.2.at? p.way).map (o.1, ·)

theorem lists_aliases (f : File)
    : Lists (fun s : Slot => match s with | .alias i => slot? f (.alias i) | _ => none)
        (f.aliases.map fun a => (⟨.alias, a.name⟩, a.type)) := by
  apply ((Lists.indexed f.aliases).map _).image (f := Slot.alias) (fun _ _ h => Slot.alias.inj h)
  intro s o
  cases s <;> simp [slot?]

theorem lists_fields (f : File)
    : Lists (fun s : Slot => match s with | .field i j => slot? f (.field i j) | _ => none)
        (f.classes.flatMap fun c => c.fields.map fun field => (⟨.classType, c.name⟩, field.type)) := by
  apply (Lists.indexed f.classes).flatMap (g := Slot.field) (fun _ _ _ _ h => Slot.field.inj h)
    fun c _ => (Lists.indexed c.fields).map _
  intro s o
  cases s <;> simp [slot?, Option.bind_eq_some_iff]

theorem lists_params_and_returns (fn : Function)
    : Lists (Sum.elim (fun j : Nat => fn.params[j]?.map (·.type)) fun j : Nat => fn.returns[j]?.map (·.type))
        (fn.params.map (·.type) ++ fn.returns.map (·.type)) := by
  have hparams : Lists (Sum.elim (fun j : Nat => fn.params[j]?.map (·.type)) fun _ : Nat => none)
      (fn.params.map (·.type)) := by
    apply ((Lists.indexed fn.params).map (·.type)).image Sum.inl_injective
    rintro (j | j) t <;> simp
  have hreturns : Lists (Sum.elim (fun _ : Nat => none) fun j : Nat => fn.returns[j]?.map (·.type))
      (fn.returns.map (·.type)) := by
    apply ((Lists.indexed fn.returns).map (·.type)).image Sum.inr_injective
    rintro (j | j) t <;> simp
  apply hparams.append hreturns
  · rintro (j | j) t <;> simp
  · rintro (j | j) t u <;> simp

theorem lists_functions (f : File)
    : Lists (fun s : Slot => match s with
        | .param i j => slot? f (.param i j)
        | .result i j => slot? f (.result i j)
        | _ => none)
      (f.functions.flatMap fun fn =>
        (fn.params.map (·.type) ++ fn.returns.map (·.type)).map fun t => (⟨.function, fn.qualifiedName⟩, t)) := by
  have hinj : Function.Injective2 fun i => Sum.elim (Slot.param i) (Slot.result i) := by
    rintro i i' (j | j) (j' | j') h <;> simp_all
  apply (Lists.indexed f.functions).flatMap hinj fun fn _ => (lists_params_and_returns fn).map _
  intro s o
  cases s <;> simp [slot?, Option.bind_eq_some_iff]

theorem lists_typesOf (f : File) : Lists (fun s : Slot => if s.isKey then none else slot? f s) (typesOf f) := by
  have hfields : Lists (fun s : Slot => match s with
        | .alias i => slot? f (.alias i)
        | .field i j => slot? f (.field i j)
        | _ => none)
      (f.aliases.map (fun a => (⟨.alias, a.name⟩, a.type)) ++
        f.classes.flatMap fun c => c.fields.map fun field => (⟨.classType, c.name⟩, field.type)) := by
    apply (lists_aliases f).append (lists_fields f)
    · intro s o
      cases s <;> simp
    · intro s o o'
      cases s <;> simp
  apply hfields.append (lists_functions f)
  · intro s o
    cases s <;> simp [Slot.isKey]
  · intro s o o'
    cases s <;> simp

/-! ### Unions of a corpus -/

def ownedUnions (corpus : Corpus) : List (Owner × List TypeExpr) :=
  corpus.files.flatMap fun m => (typesOf m.2).flatMap fun o => (unions o.2).map (o.1, ·)

theorem unionAt_eq (corpus : Corpus) (i : Nat) (s : Slot) (way : List Step)
    : (if Place.isKeyed ⟨i, s, way⟩ then none
        else (at? corpus ⟨i, s, way⟩).bind fun o => o.2.union?.map (o.1, ·))
        = corpus.files[i]?.bind fun m => if s.isKey then none else (slot? m.2 s).bind fun o =>
          (o.2.unionAt? way).map (o.1, ·) := by
  simp only [Place.isKeyed, at?, unionAt?]
  generalize way.any (·.isKey) = w
  cases corpus.files[i]? with
  | none => simp
  | some m =>
    simp only [Option.bind_some]
    cases slot? m.2 s with
    | none => simp
    | some o =>
      simp only [Option.bind_some]
      cases o.2.at? way <;> cases s.isKey <;> cases w <;> simp

theorem lists_ownedUnions (corpus : Corpus)
    : Lists (fun p : Place => if p.isKeyed then none else (at? corpus p).bind fun o => o.2.union?.map (o.1, ·))
        (ownedUnions corpus) := by
  have hfile : ∀ f : File, Lists
      (fun k : Slot × List Step => if k.1.isKey then none else (slot? f k.1).bind fun o =>
        (o.2.unionAt? k.2).map (o.1, ·))
      ((typesOf f).flatMap fun o => (unions o.2).map (o.1, ·)) := by
    intro f
    apply (lists_typesOf f).flatMap (g := Prod.mk) (fun _ _ _ _ h => Prod.mk.inj h)
      fun o _ => (lists_unions o.2).map (o.1, ·)
    rintro ⟨s, way⟩ u
    cases hs : s.isKey <;> simp [Option.bind_eq_some_iff, hs]
  apply (Lists.indexed corpus.files).flatMap (g := fun i k => Place.mk i k.1 k.2) ?_ fun m _ => hfile m.2
  · rintro ⟨i, s, way⟩ u
    rw [unionAt_eq]
    constructor
    · intro h
      obtain ⟨m, hm, hu⟩ := Option.bind_eq_some_iff.1 h
      exact ⟨i, (s, way), m, rfl, hm, hu⟩
    · rintro ⟨i', ⟨s', way'⟩, m, h, hm, hu⟩
      cases h
      exact Option.bind_eq_some_iff.2 ⟨m, hm, hu⟩
  · rintro i i' ⟨s, way⟩ ⟨s', way'⟩ h
    simpa using h

theorem hasRepetition_iff {xs : List String} : hasRepetition xs = true ↔ ¬ xs.Nodup := by
  induction xs with
  | nil => simp [hasRepetition]
  | cons x xs ih =>
    rw [hasRepetition, Bool.or_eq_true, ih, List.contains_iff_mem, List.nodup_cons, not_and_or, not_not]

section

variable [Dump]

theorem flatMap_unionWarnings (corpus : Corpus)
    : (corpus.files.flatMap fun m => (typesOf m.2).flatMap fun o => unionWarnings o.1 o.2)
        = ((ownedUnions corpus).filter fun o => hasRepetition (o.2.map Dump.typeText)).map fun o =>
          .repeatedUnionMember o.1 := by
  simp only [ownedUnions, unionWarnings, List.filter_flatMap, List.map_flatMap, List.filter_map, List.map_map]
  rfl

theorem nodup_map_typeText [LawfulDump] {members : List TypeExpr}
    : (members.map Dump.typeText).Nodup ↔ (members.map blurred).Nodup := by
  unfold List.Nodup
  rw [List.pairwise_map, List.pairwise_map]
  simp only [ne_eq, typeText_eq_iff_blurred]

theorem count_warnings (corpus : Corpus) (owner : Owner)
    : (warnings corpus).count (.repeatedUnionMember owner)
        = (ownedUnions corpus).countP fun o => o.1 = owner ∧ hasRepetition (o.2.map Dump.typeText) = true := by
  have hfunctions : (.repeatedUnionMember owner) ∉ corpus.functions.flatMap functionWarnings := by
    intro h
    obtain ⟨f, -, h⟩ := List.mem_flatMap.1 h
    simp [functionWarnings] at h
  have hlinks : (.repeatedUnionMember owner) ∉ corpus.files.flatMap fun m =>
      (linksOf m.2).flatMap fun l => linkWarnings (SymbolTable.ofCorpus corpus) l.1 l.2 := by
    intro h
    obtain ⟨m, -, h⟩ := List.mem_flatMap.1 h
    obtain ⟨l, -, h⟩ := List.mem_flatMap.1 h
    simp [linkWarnings] at h
  unfold warnings
  dsimp only
  rw [List.count_append, List.count_append, List.count_eq_zero_of_not_mem hfunctions,
    List.count_eq_zero_of_not_mem hlinks, flatMap_unionWarnings, Nat.zero_add, Nat.add_zero, List.count,
    List.countP_map, List.countP_filter]
  apply List.countP_congr
  intro o _
  simp

/--
Of each owner there are as many warnings as there are places of a union that has an alternative twice, outside of key
types. Alternatives count as one that differ only in numbers that are not finite.
-/
theorem encard_repeated_unions [LawfulDump] (corpus : Corpus) (owner : Owner)
    : {p : Place | p.isKeyed = false ∧ ∃ members, at? corpus p = some (owner, .union members) ∧
          ¬ (members.map blurred).Nodup}.encard
        = (warnings corpus).count (.repeatedUnionMember owner) := by
  have hcount := (lists_ownedUnions corpus).encard_setOf fun o => o.1 = owner ∧ hasRepetition (o.2.map Dump.typeText) = true
  rw [count_warnings, ← hcount]
  congr 1
  ext p
  have hunion : ∀ o : Owner × List TypeExpr,
      (if p.isKeyed then none else (at? corpus p).bind fun o => o.2.union?.map (o.1, ·)) = some o ↔
        p.isKeyed = false ∧ at? corpus p = some (o.1, .union o.2) := by
    rintro ⟨owner, members⟩
    cases p.isKeyed with
    | true => simp
    | false => simp [Option.bind_eq_some_iff, union?_eq_some_iff]
  simp only [Set.mem_ofPred_eq, hunion, decide_eq_true_eq, hasRepetition_iff, nodup_map_typeText, Prod.exists]
  constructor
  · rintro ⟨hkeyed, members, hat, hrepeats⟩
    exact ⟨owner, members, ⟨hkeyed, hat⟩, rfl, hrepeats⟩
  · rintro ⟨_, members, ⟨hkeyed, hat⟩, rfl, hrepeats⟩
    exact ⟨hkeyed, members, hat, hrepeats⟩

end

def doubledAlias : Alias :=
  { name := "A", base := some (.union [.named "string", .named "string"]) }

theorem encard_repeated_unions_doubledAlias
    : {p : Place | p.isKeyed = false ∧ ∃ members,
          at? ⟨[("a", { aliases := [doubledAlias] })]⟩ p = some (⟨.alias, "A"⟩, .union members) ∧
            ¬ (members.map blurred).Nodup}.encard
        = 1 :=
  (encard_repeated_unions ⟨[("a", { aliases := [doubledAlias] })]⟩ ⟨.alias, "A"⟩).trans (by decide)

/-! ### A key type -/

def keyedClass : ClassType where
  name := "C"
  fields := [{ key := some (.union [.named "string", .named "string"]), type := .named "number" }]

def keyedClassText : String :=
  "--- @class C\n--- @field [string | string] number\n"

theorem not_warned_keyedClass
    : File.parse keyedClassText = .ok { classes := [keyedClass] } ∧
        (∃ p members, at? ⟨[("a", { classes := [keyedClass] })]⟩ p = some (⟨.classType, "C"⟩, .union members) ∧
          ¬ members.Nodup) ∧
        warnings ⟨[("a", { classes := [keyedClass] })]⟩ = [] := by
  refine ⟨by decide +kernel, ?_, by rfl⟩
  refine ⟨⟨0, .key 0 0, []⟩, [.named "string", .named "string"], rfl, ?_⟩
  simp

end Validation

end LuaTypes
