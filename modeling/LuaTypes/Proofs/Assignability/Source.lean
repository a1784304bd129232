import LuaTypes.Proofs.Assignability.Acyclic
import LuaTypes.Proofs.Assignability.Reflexive

/-!
Aliases as sources. The alternatives of the target are tried before an alias is replaced by its definition,
so one of them has to take all that the alias stands for. Then the definition fits too, but not the other
way round: it may fit one alternative with one of its members and another with the next.
-/

namespace LuaTypes

namespace SymbolTable

open TypeExpr

def Final (table : SymbolTable) (t : TypeExpr) : Prop :=
  t.isTop = true ∨ t.isChoice = false ∧ ∀ name, t = .named name → table.expandAlias? name = none

variable {table : SymbolTable} {expanding expanding' : List String} {s t u : TypeExpr} {name : String}

theorem Final.not_choice (h : table.Final t) : t.isChoice = false := by
  cases h with
  | inl htop => cases t <;> first | rfl | cases htop
  | inr h => exact h.1

theorem Leads.eq_of_final (h : table.Leads expanding u t) (ht : t.isChoice = false)
    (hnone : ∀ name, t = .named name → table.expandAlias? name = none)
    : u = t := by
  cases h with
  | refl => rfl
  | member => cases ht
  | inner => cases ht
  | definition _ hv => rw [hnone _ rfl] at hv; cases hv

theorem Apart.leads (h : table.Apart s t) (hleads : table.Leads expanding u t) : table.Apart s u := by
  induction hleads with
  | refl => exact h
  | member ht _ ih => exact ih (h.right fun _ hv => .member ht hv)
  | inner _ ih => exact ih (h.right fun _ hv => .inner hv)
  | definition _ ht _ ih => exact ih (h.definition_right ht)

theorem accepts_iff_of_final (hacyclic : table.Acyclic) (hnil : table.expandAlias? "nil" = none)
    (h : table.Unguarded expanding s t) (ht : t.isChoice = false)
    (hnone : ∀ name, t = .named name → table.expandAlias? name = none)
    : table.accepts expanding s t = true ↔
        ∃ u, table.Leads [] u t ∧ table.Final u ∧ table.assignable s u = true := by
  rw [accepts_congr hacyclic hnil h ⟨h.apart, clear_nil, clear_nil⟩]
  constructor
  · exact fun haccepts => ⟨t, .refl, .inr ⟨ht, hnone⟩, haccepts⟩
  · rintro ⟨u, hleads, -, haccepts⟩
    cases hleads.eq_of_final ht hnone
    exact haccepts

theorem accepts_iff_exists_final (hacyclic : table.Acyclic) (hnil : table.expandAlias? "nil" = none)
    (hs : s.isChoice = false) (hstop : s.isTop = false) (hsnil : s.isNil = false)
    (h : table.Unguarded expanding s t)
    : table.accepts expanding s t = true ↔
        ∃ u, table.Leads [] u t ∧ table.Final u ∧ table.assignable s u = true := by
  -- Only the target is taken apart: each rule is one step of the way to `u`.
  induction expanding, s, t using accepts_induction table with
  | top htop =>
    rw [hstop, Bool.false_or] at htop
    rw [accepts_of_isTop_right htop, eq_self, true_iff]
    exact ⟨_, .refl, .inl htop, accepts_of_isTop_right htop⟩
  | unionSource => cases hs
  | optionalSource => cases hs
  | unionTarget _ _ ih =>
    rw [accepts_union_right hs hstop, List.any_eq_true]
    constructor
    · rintro ⟨t, ht, haccepts⟩
      obtain ⟨u, hleads, hu⟩ := (ih t ht hs hstop hsnil (h.member_right ht)).1 haccepts
      exact ⟨u, .member ht hleads, hu⟩
    · rintro ⟨u, hleads, hu⟩
      cases hleads with
      | refl => cases hu.1.not_choice
      | @member t _ ht hleads => exact ⟨t, ht, (ih t ht hs hstop hsnil (h.member_right ht)).2 ⟨u, hleads, hu⟩⟩
  | optionalTarget _ ih =>
    rw [accepts_optional_right hs, hsnil, Bool.false_or, ih hs hstop hsnil h.inner_right]
    constructor
    · exact fun ⟨u, hleads, hu⟩ => ⟨u, .inner hleads, hu⟩
    · rintro ⟨u, hleads, hu⟩
      cases hleads with
      | refl => cases hu.1.not_choice
      | inner hleads => exact ⟨u, hleads, hu⟩
  | expandTarget _ _ htop hname ht ih =>
    rw [accepts_of_expansion_right hs htop (expansion?_eq_some_iff.2 ⟨rfl, hname, ht⟩),
      ih hs hstop hsnil (h.definition_right hacyclic ht)]
    constructor
    · exact fun ⟨u, hleads, hu⟩ => ⟨u, .definition (by simp) ht hleads, hu⟩
    · rintro ⟨u, hleads, hfinal, hu⟩
      cases hleads with
      | refl =>
        cases hfinal with
        | inl hutop => rw [htop] at hutop; cases hutop
        | inr hnone => rw [hnone.2 _ rfl] at ht; cases ht
      | definition _ ht' hleads =>
        rw [ht] at ht'
        cases ht'
        exact ⟨u, hleads, hfinal, hu⟩
  | expandSource ht _ _ hnone =>
    exact accepts_iff_of_final hacyclic hnil h ht (h.target.expansion?_eq_none_iff.1 hnone)
  | array => exact accepts_iff_of_final hacyclic hnil h rfl (by simp)
  | bare hbare =>
    exact accepts_iff_of_final hacyclic hnil h hbare.target (h.target.expansion?_eq_none_iff.1 hbare.target_none)

/-! ### Larger targets -/

theorem apart_of_choice (hnil : table.expandAlias? "nil" = none) (h : table.Apart s t) (hu : Choice u s)
    : table.Apart u t := by
  induction hu with
  | refl => exact h
  | member hs _ ih => exact ih (h.left fun _ hv => .member hs hv)
  | nil => exact .nil_left hnil
  | inner _ ih => exact ih (h.left fun _ hv => .inner hv)

theorem assignable_of_leads_single (hacyclic : table.Acyclic) (hnil : table.expandAlias? "nil" = none)
    (hs : s.isChoice = false) (h : table.Apart s t) (hleads : table.Leads [] u t)
    (hu : table.assignable s u = true)
    : table.assignable s t = true := by
  by_cases hstop : s.isTop = true
  · exact accepts_of_isTop_left hstop
  rw [Bool.not_eq_true] at hstop
  induction hleads with
  | refl => exact hu
  | @member t _ ht _ ih =>
    rw [assignable, accepts_union_right hs hstop, List.any_eq_true]
    exact ⟨t, ht, ih (h.right fun _ hv => .member ht hv)⟩
  | inner _ ih =>
    rw [assignable, accepts_optional_right hs, Bool.or_eq_true]
    exact .inr (ih (h.right fun _ hv => .inner hv))
  | @definition name t _ ht _ ih =>
    by_cases htop : (TypeExpr.named name).isTop = true
    · exact accepts_of_isTop_right htop
    rw [Bool.not_eq_true] at htop
    have hexp : table.expansion? [] (.named name) = some (name, t) :=
      expansion?_eq_some_iff.2 ⟨rfl, by simp, ht⟩
    have hunguarded : table.Unguarded [] s t := ⟨h.definition_right ht, clear_nil, clear_nil⟩
    have hguarded := (⟨h, clear_nil, clear_nil⟩ : table.Unguarded [] s _).definition_right hacyclic ht
    rw [assignable, accepts_of_expansion_right hs htop hexp, accepts_congr hacyclic hnil hguarded hunguarded]
    exact ih (h.definition_right ht)

theorem assignable_of_leads (hacyclic : table.Acyclic) (hnil : table.expandAlias? "nil" = none)
    (h : table.Apart s t) (hleads : table.Leads [] u t) (hu : table.assignable s u = true)
    : table.assignable s t = true := by
  rw [assignable, accepts_iff_forall_choice] at hu ⊢
  exact fun a ha => assignable_of_leads_single hacyclic hnil ha.isChoice_eq_false (apart_of_choice hnil h ha) hleads (hu a ha)

/-! ### Definitions -/

theorem assignable_named_of_final (hacyclic : table.Acyclic) (hnil : table.expandAlias? "nil" = none)
    (htop : (TypeExpr.named name).isTop = false) (hu : table.expandAlias? name = some u)
    (h : table.Apart (.named name) t) (ht : table.Final t)
    : table.assignable (.named name) t = table.assignable u t := by
  cases ht with
  | inl htop => rw [assignable, accepts_of_isTop_right htop, assignable, accepts_of_isTop_right htop]
  | inr ht =>
    have hunguarded : table.Unguarded [] u t := ⟨h.definition_left hu, clear_nil, clear_nil⟩
    have hguarded : table.Unguarded [] (.named name) t := ⟨h, clear_nil, clear_nil⟩
    rw [assignable, accepts_of_expansion_left ht.1 htop (clear_nil.expansion?_eq_none_iff.2 ht.2)
      (expansion?_eq_some_iff.2 ⟨rfl, by simp, hu⟩)]
    exact accepts_congr hacyclic hnil (hguarded.definition_left hacyclic hu) hunguarded

/--
An alias fits a target with other aliases exactly if its definition fits one of the alternatives of the
target. Then the definition fits the target, and conversely if it is no alternative itself.
-/
theorem assignable_alias (hacyclic : table.Acyclic) (hnil : table.expandAlias? "nil" = none)
    (htop : (TypeExpr.named name).isTop = false) (hu : table.expandAlias? name = some u)
    (h : table.Apart (.named name) t)
    : (table.assignable (.named name) t = true ↔
          ∃ v, table.Leads [] v t ∧ table.Final v ∧ table.assignable u v = true) ∧
      (table.assignable (.named name) t = true → table.assignable u t = true) ∧
      (u.isChoice = false → u.isTop = false → u.isNil = false →
        table.assignable (.named name) t = table.assignable u t) := by
  have hname : (TypeExpr.named name).isNil = false := by
    have : name ≠ "nil" := by
      rintro rfl
      rw [hnil] at hu
      cases hu
    simp [isNil, this]
  have hiff : table.assignable (.named name) t = true ↔
      ∃ v, table.Leads [] v t ∧ table.Final v ∧ table.assignable u v = true := by
    rw [assignable, accepts_iff_exists_final hacyclic hnil rfl htop hname ⟨h, clear_nil, clear_nil⟩]
    apply exists_congr
    intro v
    apply and_congr_right
    intro hleads
    apply and_congr_right
    intro hv
    rw [assignable_named_of_final hacyclic hnil htop hu (h.leads hleads) hv]
  refine ⟨hiff, ?_, ?_⟩
  · rw [hiff]
    rintro ⟨v, hleads, -, hv⟩
    exact assignable_of_leads hacyclic hnil (h.definition_left hu) hleads hv
  · intro hchoice hutop hunil
    rw [Bool.eq_iff_iff, hiff]
    exact (accepts_iff_exists_final hacyclic hnil hchoice hutop hunil
      ⟨h.definition_left hu, clear_nil, clear_nil⟩).symm

def scalars : SymbolTable where
  aliases := [{ name := "text", base := some (.named "string") },
    { name := "scalar", base := some (.union [.named "string", .named "number"]) }]

theorem acyclic_scalars : scalars.Acyclic := by
  apply Acyclic.of_rank fun name => if name = "text" ∨ name = "scalar" then 1 else 0
  decide

theorem assignable_alias_text
    : scalars.Acyclic ∧ scalars.expandAlias? "nil" = none ∧ scalars.expandAlias? "text" = some (.named "string") ∧
      scalars.Apart (.named "text") (.union [.named "string", .named "number"]) ∧
      scalars.assignable (.named "text") (.union [.named "string", .named "number"])
        = scalars.assignable (.named "string") (.union [.named "string", .named "number"]) := by
  have hfree : scalars.AliasFree (.union [.named "string", .named "number"]) := by
    intro name hname
    obtain rfl | rfl : name = "string" ∨ name = "number" := by simpa using hname
    · rfl
    · rfl
  have hapart := Apart.of_aliasFree (s := .named "text") hfree
  exact ⟨acyclic_scalars, rfl, rfl, hapart, (assignable_alias acyclic_scalars rfl rfl rfl hapart).2.2 rfl rfl rfl⟩

theorem assignable_ne_alias_scalar
    : scalars.Acyclic ∧ scalars.expandAlias? "scalar" = some (.union [.named "string", .named "number"]) ∧
      scalars.assignable (.union [.named "string", .named "number"]) (.union [.named "string", .named "number"])
        = true ∧
      scalars.assignable (.named "scalar") (.union [.named "string", .named "number"]) = false := by
  refine ⟨acyclic_scalars, rfl, ?_, ?_⟩
  · cbv
  · cbv

end SymbolTable

end LuaTypes
