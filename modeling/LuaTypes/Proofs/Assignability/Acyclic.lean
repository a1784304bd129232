import Mathlib.Logic.Relation
import LuaTypes.Proofs.Assignability.Rules
import LuaTypes.Proofs.TypeExpr.Mentions

/-!
Acyclic aliases. Where no alias leads back to itself and the two sides make use of different aliases, it
does not matter which aliases are being expanded: none of them comes up again.
-/

namespace LuaTypes

namespace SymbolTable

open TypeExpr Relation

variable {table : SymbolTable} {expanding expanding' : List String} {s t u : TypeExpr}
  {name other : String}

def Refers (table : SymbolTable) (name other : String) : Prop :=
  ∃ t, table.expandAlias? name = some t ∧ Occurs (.named other) t

/--
No alias reaches itself through the names in its definition.
-/
def Acyclic (table : SymbolTable) : Prop :=
  ∀ name, ¬ TransGen table.Refers name name

theorem Acyclic.of_rank (rank : String → Nat)
    (h : ∀ a ∈ table.aliases, ∀ other ∈ a.type.namedReferences, rank other < rank a.name)
    : table.Acyclic := by
  have hstep : ∀ {name other}, table.Refers name other → rank other < rank name := by
    rintro name other ⟨t, ht, hother⟩
    obtain ⟨a, ha, rfl⟩ := Option.map_eq_some_iff.1 ht
    have hname : a.name = name := by simpa using List.find?_some ha
    rw [← hname]
    exact h a (List.mem_of_find?_eq_some ha) other (mem_namedReferences_iff.2 (.inl hother))
  have hpath : ∀ {name other}, TransGen table.Refers name other → rank other < rank name := by
    intro name other hpath
    induction hpath with
    | single h => exact hstep h
    | tail _ h ih => exact Nat.lt_trans (hstep h) ih
  exact fun name hloop => Nat.lt_irrefl _ (hpath hloop)

def AliasFree (table : SymbolTable) (t : TypeExpr) : Prop :=
  ∀ name, Occurs (.named name) t → table.expandAlias? name = none

theorem AliasFree.of_occurs (h : table.AliasFree u) (hocc : ∀ v, Occurs v t → Occurs v u) : table.AliasFree t :=
  fun name hname => h name (hocc _ hname)

/--
Does the type mention the alias `name`, or an alias that leads to it?
-/
def Uses (table : SymbolTable) (t : TypeExpr) (name : String) : Prop :=
  (table.expandAlias? name).isSome ∧ ∃ other, Occurs (.named other) t ∧ ReflTransGen table.Refers other name

theorem Uses.of_occurs (h : table.Uses t name) (hocc : ∀ v, Occurs v t → Occurs v u) : table.Uses u name := by
  obtain ⟨halias, other, hother, hpath⟩ := h
  exact ⟨halias, other, hocc _ hother, hpath⟩

theorem uses_named (hu : table.expandAlias? name = some u) : table.Uses (.named name) name := by
  refine ⟨by rw [hu]; rfl, name, .refl, .refl⟩

theorem Uses.named_of_definition (hu : table.expandAlias? name = some u) (h : table.Uses u other)
    : table.Uses (.named name) other := by
  obtain ⟨halias, next, hnext, hpath⟩ := h
  exact ⟨halias, name, .refl, .head ⟨u, hu, hnext⟩ hpath⟩

theorem Acyclic.not_uses (h : table.Acyclic) (hu : table.expandAlias? name = some u)
    : ¬ table.Uses u name := by
  rintro ⟨-, next, hnext, hpath⟩
  exact h name (.head' ⟨u, hu, hnext⟩ hpath)

theorem aliasFree_nil (hnil : table.expandAlias? "nil" = none) : table.AliasFree .nil := by
  rintro name ⟨⟩
  exact hnil

theorem AliasFree.not_uses (h : table.AliasFree t) : ¬ table.Uses t name := by
  rintro ⟨halias, next, hnext, hpath⟩
  cases hpath.cases_head with
  | inl heq => rw [← heq, h next hnext] at halias; cases halias
  | inr hstep =>
    obtain ⟨-, ⟨u, hu, -⟩, -⟩ := hstep
    rw [h next hnext] at hu
    cases hu

/-! ### Guards -/

def Clear (table : SymbolTable) (expanding : List String) (t : TypeExpr) : Prop :=
  ∀ name ∈ expanding, ¬ table.Uses t name

theorem clear_nil : table.Clear [] t := by
  simp [Clear]

namespace Clear

theorem of_occurs (h : table.Clear expanding u) (hocc : ∀ v, Occurs v t → Occurs v u)
    : table.Clear expanding t :=
  fun name hname huses => h name hname (huses.of_occurs hocc)

theorem cons (h : table.Clear expanding t) (hname : ¬ table.Uses t name) : table.Clear (name :: expanding) t := by
  simpa [Clear] using ⟨hname, h⟩

theorem definition (h : table.Clear expanding (.named name)) (hacyclic : table.Acyclic)
    (hu : table.expandAlias? name = some u)
    : table.Clear (name :: expanding) u := by
  apply cons _ (hacyclic.not_uses hu)
  exact fun other hother huses => h other hother (huses.named_of_definition hu)

theorem notMem (h : table.Clear expanding (.named name)) (hu : table.expandAlias? name = some u)
    : name ∉ expanding :=
  fun hname => h name hname (uses_named hu)

theorem expansion?_eq_none_iff (h : table.Clear expanding t)
    : table.expansion? expanding t = none ↔ ∀ name, t = .named name → table.expandAlias? name = none := by
  constructor
  · rintro hnone name rfl
    cases hu : table.expandAlias? name with
    | none => rfl
    | some u =>
      rw [expansion?_eq_some_iff.2 ⟨rfl, h.notMem hu, hu⟩] at hnone
      cases hnone
  · intro hall
    cases hexp : table.expansion? expanding t with
    | none => rfl
    | some r =>
      obtain ⟨rfl, -, hu⟩ := expansion?_eq_some_iff.1 (show _ = some (r.1, r.2) from hexp)
      rw [hall _ rfl] at hu
      cases hu

theorem expansion?_congr (h : table.Clear expanding t) (h' : table.Clear expanding' t)
    (hnone : table.expansion? expanding t = none)
    : table.expansion? expanding' t = none :=
  h'.expansion?_eq_none_iff.2 (h.expansion?_eq_none_iff.1 hnone)

end Clear

def Apart (table : SymbolTable) (s t : TypeExpr) : Prop :=
  ∀ name, table.Uses s name → ¬ table.Uses t name

namespace Apart

theorem symm (h : table.Apart s t) : table.Apart t s :=
  fun name ht hs => h name hs ht

theorem left (h : table.Apart s t) (hocc : ∀ v, Occurs v u → Occurs v s) : table.Apart u t :=
  fun name huses => h name (huses.of_occurs hocc)

theorem right (h : table.Apart s t) (hocc : ∀ v, Occurs v u → Occurs v t) : table.Apart s u :=
  fun name hs huses => h name hs (huses.of_occurs hocc)

theorem definition_left (h : table.Apart (.named name) t) (hu : table.expandAlias? name = some u)
    : table.Apart u t :=
  fun other huses => h other (huses.named_of_definition hu)

theorem definition_right (h : table.Apart s (.named name)) (hu : table.expandAlias? name = some u)
    : table.Apart s u :=
  (h.symm.definition_left hu).symm

theorem of_aliasFree (ht : table.AliasFree t) : table.Apart s t :=
  fun _ _ huses => ht.not_uses huses

theorem nil_left (hnil : table.expandAlias? "nil" = none) : table.Apart .nil t :=
  (of_aliasFree (aliasFree_nil hnil)).symm

end Apart

/--
Do the aliases that are being expanded have no part in the comparison?
-/
structure Unguarded (table : SymbolTable) (expanding : List String) (s t : TypeExpr) : Prop where
  apart : table.Apart s t
  source : table.Clear expanding s
  target : table.Clear expanding t

namespace Unguarded

variable {s' t' : TypeExpr}

theorem left (h : table.Unguarded expanding s t) (hocc : ∀ v, Occurs v s' → Occurs v s)
    : table.Unguarded expanding s' t :=
  ⟨h.apart.left hocc, h.source.of_occurs hocc, h.target⟩

theorem right (h : table.Unguarded expanding s t) (hocc : ∀ v, Occurs v t' → Occurs v t)
    : table.Unguarded expanding s t' :=
  ⟨h.apart.right hocc, h.source, h.target.of_occurs hocc⟩

theorem member_left {members : List TypeExpr} (h : table.Unguarded expanding (.union members) t) (hs : s ∈ members)
    : table.Unguarded expanding s t :=
  h.left fun _ hv => .member hs hv

theorem member_right {members : List TypeExpr} (h : table.Unguarded expanding s (.union members)) (ht : t ∈ members)
    : table.Unguarded expanding s t :=
  h.right fun _ hv => .member ht hv

theorem inner_left (h : table.Unguarded expanding (.optional s) t) : table.Unguarded expanding s t :=
  h.left fun _ hv => .inner hv

theorem inner_right (h : table.Unguarded expanding s (.optional t)) : table.Unguarded expanding s t :=
  h.right fun _ hv => .inner hv

theorem elements (h : table.Unguarded expanding (.array s) (.array t)) : table.Unguarded expanding s t :=
  (h.left fun _ hv => .element hv).right fun _ hv => .element hv

theorem nil_left (h : table.Unguarded expanding s t) (hnil : table.expandAlias? "nil" = none)
    : table.Unguarded expanding .nil t :=
  ⟨.nil_left hnil, fun _ _ => (aliasFree_nil hnil).not_uses, h.target⟩

theorem definition_right (h : table.Unguarded expanding s (.named name)) (hacyclic : table.Acyclic)
    (hu : table.expandAlias? name = some u)
    : table.Unguarded (name :: expanding) s u :=
  ⟨h.apart.definition_right hu, h.source.cons (h.apart.symm name (uses_named hu)), h.target.definition hacyclic hu⟩

theorem definition_left (h : table.Unguarded expanding (.named name) t) (hacyclic : table.Acyclic)
    (hu : table.expandAlias? name = some u)
    : table.Unguarded (name :: expanding) u t :=
  ⟨h.apart.definition_left hu, h.source.definition hacyclic hu, h.target.cons (h.apart name (uses_named hu))⟩

end Unguarded

theorem accepts_congr (hacyclic : table.Acyclic) (hnil : table.expandAlias? "nil" = none)
    (h : table.Unguarded expanding s t) (h' : table.Unguarded expanding' s t)
    : table.accepts expanding s t = table.accepts expanding' s t := by
  -- An expanded alias has no part in what is left of the types, so it stays free on both sides.
  induction expanding, s, t using accepts_induction table generalizing expanding' with
  | top htop => rw [accepts_of_isTop htop, accepts_of_isTop htop]
  | unionSource ih =>
    rw [accepts_union_left, accepts_union_left]
    apply all_congr_of_mem
    intro s hs
    rw [ih s hs (h.member_left hs) (h'.member_left hs)]
  | optionalSource ihnil ih =>
    rw [accepts_optional_left, accepts_optional_left, ihnil (h.nil_left hnil) (h'.nil_left hnil),
      ih h.inner_left h'.inner_left]
  | unionTarget hs htop ih =>
    rw [accepts_union_right hs htop, accepts_union_right hs htop]
    apply any_congr_of_mem
    intro t ht
    rw [ih t ht (h.member_right ht) (h'.member_right ht)]
  | optionalTarget hs ih =>
    rw [accepts_optional_right hs, accepts_optional_right hs, ih h.inner_right h'.inner_right]
  | expandTarget hs _ htop hname hu ih =>
    rw [accepts_of_expansion_right hs htop (expansion?_eq_some_iff.2 ⟨rfl, hname, hu⟩),
      accepts_of_expansion_right hs htop (expansion?_eq_some_iff.2 ⟨rfl, h'.target.notMem hu, hu⟩),
      ih (h.definition_right hacyclic hu) (h'.definition_right hacyclic hu)]
  | expandSource ht _ htop hnone hname hu ih =>
    have hnone' := h.target.expansion?_congr h'.target hnone
    rw [accepts_of_expansion_left ht htop hnone (expansion?_eq_some_iff.2 ⟨rfl, hname, hu⟩),
      accepts_of_expansion_left ht htop hnone' (expansion?_eq_some_iff.2 ⟨rfl, h'.source.notMem hu, hu⟩),
      ih (h.definition_left hacyclic hu) (h'.definition_left hacyclic hu)]
  | array ih => rw [accepts_array, accepts_array, ih h.elements h'.elements]
  | bare hbare =>
    have hbare' : table.Bare expanding' _ _ :=
      { hbare with
        source_none := h.source.expansion?_congr h'.source hbare.source_none
        target_none := h.target.expansion?_congr h'.target hbare.target_none }
    rw [hbare.accepts_eq, hbare'.accepts_eq]

end SymbolTable

end LuaTypes
