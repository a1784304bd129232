import LuaTypes.Json

/-!
Induction over JSON values, with the hypothesis for all items of an array and all members of an object.
-/

namespace LuaTypes.Json

variable {P : Json → Prop} (null : P .null) (boolean : ∀ b, P (.boolean b)) (integer : ∀ n, P (.integer n))
  (float : ∀ x, P (.float x)) (string : ∀ s, P (.string s)) (array : ∀ items, (∀ v ∈ items, P v) → P (.array items))
  (object : ∀ members, (∀ m ∈ members, P m.2) → P (.object members))

include null boolean integer float string array object

@[elab_as_elim, induction_eliminator]
theorem inductionOn (v : Json) : P v := by
  apply Json.rec (motive_1 := P) (motive_2 := fun vs => ∀ v ∈ vs, P v) (motive_3 := fun ms => ∀ m ∈ ms, P m.2)
    (motive_4 := fun m => P m.2)
  all_goals try assumption
  -- What is left are the lists, and the members as pairs.
  all_goals grind

end LuaTypes.Json
