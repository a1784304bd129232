import LuaTypes.TypeExpr

/-!
Induction over type expressions. Types stand below other types in lists, behind parameters and behind
members of tables; the principle here gives the hypothesis for all of them at once.
-/

namespace LuaTypes.TypeExpr

section

variable {P : TypeExpr → Prop}
  (named : ∀ name, P (.named name))
  (literal : ∀ value, P (.literal value))
  (union : ∀ members, (∀ t ∈ members, P t) → P (.union members))
  (optional : ∀ inner, P inner → P (.optional inner))
  (array : ∀ element, P element → P (.array element))
  (generic : ∀ name args, (∀ t ∈ args, P t) → P (.generic name args))
  (function : ∀ (params : List (Param TypeExpr)) (returns : List TypeExpr) (isAsync : Bool),
    (∀ p ∈ params, ∀ t, p.type = some t → P t) → (∀ t ∈ returns, P t) →
      P (.function params returns isAsync))
  (table : ∀ fields : List (Field TypeExpr),
    (∀ f ∈ fields, (∀ t, f.key = some t → P t) ∧ P f.type) → P (.table fields))
  (vararg : P .vararg)

include named literal union optional array generic function table vararg

@[elab_as_elim, induction_eliminator]
theorem inductionOn (t : TypeExpr) : P t := by
  apply TypeExpr.rec (motive_1 := P) (motive_2 := fun ts => ∀ t ∈ ts, P t)
    (motive_3 := fun ps => ∀ p ∈ ps, ∀ t, p.type = some t → P t)
    (motive_4 := fun fs => ∀ f ∈ fs, (∀ t, f.key = some t → P t) ∧ P f.type)
    (motive_5 := fun p => ∀ t, p.type = some t → P t)
    (motive_6 := fun f => (∀ t, f.key = some t → P t) ∧ P f.type)
    (motive_7 := fun o => ∀ t, o = some t → P t)
  all_goals try assumption
  -- What is left are the lists, records and options between a type and those below it.
  all_goals grind

end

end LuaTypes.TypeExpr
