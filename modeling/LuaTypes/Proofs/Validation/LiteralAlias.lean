import Mathlib.Data.List.Basic
import LuaTypes.Declaration.Parser
import LuaTypes.Validation

/-!
Aliases of literals. One without alternatives, and one that has an alternative twice, is an error. But an alias with a
union among its alternatives counts as one of types, even if all that the unions hold are literals.
-/

namespace LuaTypes

open Declaration

namespace TypeExpr

mutual

def alternatives : TypeExpr → List TypeExpr
  | .union members => listAlternatives members
  | t => [t]

def listAlternatives : List TypeExpr → List TypeExpr
  | [] => []
  | t :: ts => t.alternatives ++ listAlternatives ts

end

theorem listAlternatives_eq_flatMap (ts : List TypeExpr) : listAlternatives ts = ts.flatMap alternatives := by
  induction ts with
  | nil => rfl
  | cons t ts ih => rw [listAlternatives, ih, List.flatMap_cons]

def IsUnion : TypeExpr → Prop
  | .union _ => True
  | _ => False

theorem alternatives_of_not_isUnion {t : TypeExpr} (h : ¬ t.IsUnion) : t.alternatives = [t] := by
  cases t with
  | union => exact absurd trivial h
  | _ => rfl

theorem listAlternatives_of_not_isUnion {ts : List TypeExpr} (h : ∀ t ∈ ts, ¬ t.IsUnion)
    : listAlternatives ts = ts := by
  induction ts with
  | nil => rfl
  | cons t ts ih =>
    rw [listAlternatives, alternatives_of_not_isUnion (h t (by simp)), ih fun u hu => h u (by simp [hu])]
    rfl

end TypeExpr

inductive Literal.Same : Literal → Literal → Prop where
  | string {s} : Same (.string s) (.string s)
  | integer {n} : Same (.integer n) (.integer n)
  | float {x y} : (x == y) = true → Same (.float x) (.float y)
  | notANumber {x y} : x.isNaN = true → y.isNaN = true → Same (.float x) (.float y)
  | boolean {b} : Same (.boolean b) (.boolean b)

namespace Declaration.Alias

def alternatives (a : Alias) : List TypeExpr :=
  (a.base.toList ++ a.members.map (·.type)).flatMap TypeExpr.alternatives

/--
Is no union among the members of the type?
-/
def IsFlat (a : Alias) : Prop :=
  ∀ members, a.type = .union members → ∀ t ∈ members, ¬ t.IsUnion

/--
Are all alternatives literals, and either there is none or one of them is there twice?
-/
def IsFaulty (a : Alias) : Prop :=
  ∃ values : List Literal, a.alternatives = values.map .literal ∧
    (values = [] ∨ ¬ values.Pairwise fun v w => ¬ w.Same v)

theorem alternatives_type (a : Alias) : a.type.alternatives = a.alternatives := by
  unfold type alternatives
  split
  next t h => rw [h, List.flatMap_cons, List.flatMap_nil, List.append_nil]
  next => rw [TypeExpr.alternatives, TypeExpr.listAlternatives_eq_flatMap]

theorem mapM_literal?_eq_some_iff {ts : List TypeExpr} {values : List Literal}
    : ts.mapM literal? = some values ↔ ts = values.map .literal := by
  induction ts generalizing values with
  | nil => cases values <;> simp
  | cons t ts ih =>
    rw [List.mapM_cons]
    cases t with
    | literal v =>
      change ((ts.mapM literal?).bind fun vs => some (v :: vs)) = some values ↔ _
      rw [Option.bind_eq_some_iff]
      cases values with
      | nil => simp
      | cons w values => simpa [ih] using and_comm
    | _ => cases values <;> simp [literal?]

theorem literalValues?_eq_some_iff {a : Alias} {values : List Literal}
    : a.literalValues? = some values ↔ a.IsFlat ∧ a.alternatives = values.map .literal := by
  have hliteral : ∀ t ∈ values.map TypeExpr.literal, ¬ t.IsUnion := by
    intro t ht
    obtain ⟨v, -, rfl⟩ := List.mem_map.1 ht
    exact id
  rw [← alternatives_type]
  unfold literalValues? IsFlat
  cases htype : a.type with
  | union members =>
    simp only [mapM_literal?_eq_some_iff, TypeExpr.union.injEq, forall_eq', TypeExpr.alternatives]
    constructor
    · rintro rfl
      exact ⟨hliteral, TypeExpr.listAlternatives_of_not_isUnion hliteral⟩
    · rintro ⟨hflat, halternatives⟩
      rw [← halternatives, TypeExpr.listAlternatives_of_not_isUnion hflat]
  | _ => simp only [mapM_literal?_eq_some_iff, TypeExpr.alternatives, reduceCtorEq, false_implies, implies_true,
      true_and]

end Declaration.Alias

namespace Validation

theorem sameLiteral_iff {v w : Literal} : sameLiteral v w = true ↔ v.Same w := by
  constructor
  · intro h
    cases v <;> cases w <;> simp only [sameLiteral, decide_eq_true_eq, Bool.or_eq_true, Bool.and_eq_true,
      reduceCtorEq] at h
    case string.string => exact h ▸ .string
    case integer.integer => exact h ▸ .integer
    case float.float => exact h.elim .float fun h => .notANumber h.1 h.2
    case boolean.boolean => exact h ▸ .boolean
  · intro h
    cases h with
    | float h => simp [sameLiteral, h]
    | notANumber hx hy => simp only [sameLiteral, hx, hy, Bool.and_self, Bool.or_true]
    | _ => simp [sameLiteral]

theorem repeatedLiterals_eq_nil_iff {before values : List Literal}
    : repeatedLiterals before values = [] ↔
        (∀ v ∈ before, ∀ w ∈ values, ¬ w.Same v) ∧ values.Pairwise fun v w => ¬ w.Same v := by
  induction values generalizing before with
  | nil => simp [repeatedLiterals]
  | cons w values ih =>
    rw [repeatedLiterals]
    split
    next h =>
      obtain ⟨v, hv, hsame⟩ := List.any_eq_true.1 h
      simp only [reduceCtorEq, false_iff]
      rintro ⟨hbefore, -⟩
      exact hbefore v hv w (by simp) (sameLiteral_iff.1 hsame)
    next h =>
      have hnew : ∀ v ∈ before, ¬ w.Same v := by
        intro v hv hsame
        exact h (List.any_eq_true.2 ⟨v, hv, sameLiteral_iff.2 hsame⟩)
      rw [ih, List.pairwise_cons]
      simp only [List.mem_append, List.mem_cons]
      grind

def Error.aliasName? : Error → Option String
  | .emptyAlias name => some name
  | .repeatedLiterals name _ => some name
  | _ => none

theorem aliasName?_of_mem_functionErrors {f : Function} {e : Error} (h : e ∈ functionErrors f)
    : e.aliasName? = none := by
  have horder : ∀ {function earlier ps}, e ∈ optionalOrder function earlier ps → e.aliasName? = none := by
    intro function earlier ps
    fun_induction optionalOrder function earlier ps with grind [Error.aliasName?]
  rw [functionErrors, List.mem_append] at h
  rcases h with h | h
  · exact horder h
  · unfold variadicPosition at h
    split at h
    · rw [List.mem_singleton.1 h]
      rfl
    · cases h

theorem filterMap_aliasErrors (a : Alias) [Decidable (a.IsFlat ∧ a.IsFaulty)]
    : (aliasErrors a).filterMap Error.aliasName? = if a.IsFlat ∧ a.IsFaulty then [a.name] else [] := by
  unfold aliasErrors
  -- `literalValues?` answers for flat aliases of literals only; no other is ever reported.
  cases hvalues : a.literalValues? with
  | none =>
    rw [if_neg]
    · rfl
    · rintro ⟨hflat, values, halternatives, -⟩
      rw [Alias.literalValues?_eq_some_iff.2 ⟨hflat, halternatives⟩] at hvalues
      cases hvalues
  | some values =>
    obtain ⟨hflat, halternatives⟩ := Alias.literalValues?_eq_some_iff.1 hvalues
    have hfaulty : a.IsFaulty ↔ values = [] ∨ ¬ values.Pairwise fun v w => ¬ w.Same v := by
      unfold Alias.IsFaulty
      constructor
      · rintro ⟨values', halternatives', h⟩
        rw [halternatives] at halternatives'
        rwa [(List.map_inj_right fun _ _ => TypeExpr.literal.inj).1 halternatives']
      · exact fun h => ⟨values, halternatives, h⟩
    cases values with
    | nil =>
      rw [if_pos ⟨hflat, hfaulty.2 (.inl rfl)⟩]
      rfl
    | cons v values =>
      have hnil := @repeatedLiterals_eq_nil_iff [] (v :: values)
      simp only [List.not_mem_nil, false_implies, implies_true, true_and] at hnil
      cases hrepeated : repeatedLiterals [] (v :: values) with
      | nil =>
        rw [if_neg]
        · simp [hrepeated]
        · rintro ⟨-, h⟩
          exact (hfaulty.1 h).elim (by simp) fun h => h (hnil.1 hrepeated)
      | cons w rest =>
        have hpairwise : ¬ (v :: values).Pairwise fun v w => ¬ w.Same v := by
          intro h
          rw [hnil.2 h] at hrepeated
          cases hrepeated
        rw [if_pos ⟨hflat, hfaulty.2 (.inr hpairwise)⟩]
        simp [hrepeated, List.eraseDups_cons, Error.aliasName?]

open scoped Classical in
/--
The errors about aliases are one for each alias that is faulty and has no union within its union, in the order of the
aliases.
-/
theorem filterMap_aliasName?_errors (corpus : Corpus)
    : (errors corpus).filterMap Error.aliasName? =
        (corpus.aliases.filter fun a => a.IsFlat ∧ a.IsFaulty).map (·.name) := by
  have hfunctions : ∀ f : Function, (functionErrors f).filterMap Error.aliasName? = [] := by
    intro f
    rw [List.filterMap_eq_nil_iff]
    exact fun e he => aliasName?_of_mem_functionErrors he
  have haliases : ∀ aliases : List Alias, (aliases.flatMap aliasErrors).filterMap Error.aliasName? =
      (aliases.filter fun a => a.IsFlat ∧ a.IsFaulty).map (·.name) := by
    intro aliases
    induction aliases with
    | nil => rfl
    | cons a aliases ih =>
      rw [List.flatMap_cons, List.filterMap_append, ih, filterMap_aliasErrors, List.filter_cons]
      split <;> simp [*]
  unfold errors Corpus.aliases
  induction corpus.files with
  | nil => rfl
  | cons m files ih =>
    simp only [List.flatMap_cons, List.filterMap_append, List.filter_append, List.map_append, ih, haliases,
      List.filterMap_flatMap, hfunctions]
    simp

/-! ### A literal in both parts of an alias -/

def splitSide : Alias where
  name := "side"
  base := some (.union [.literal (.string "left"), .literal (.string "right")])
  members := [{ type := .literal (.string "left") }]

def splitSideText : String :=
  "--- @alias side \"left\" | \"right\"\n--- | \"left\"\n"

theorem not_reported_splitSide
    : File.parse splitSideText = .ok { aliases := [splitSide] } ∧ splitSide.IsFaulty ∧
        errors ⟨[("side", { aliases := [splitSide] })]⟩ = [] := by
  refine ⟨by decide +kernel, ?_, by rfl⟩
  refine ⟨[.string "left", .string "right", .string "left"], rfl, .inr ?_⟩
  intro h
  rw [List.pairwise_cons] at h
  exact h.1 (.string "left") (by simp) .string

end Validation

end LuaTypes
