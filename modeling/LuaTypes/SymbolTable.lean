import LuaTypes.Proofs.SymbolTable.Unseen

/-!
The ancestors of classes. A class may be its own ancestor, so the search for them keeps what it has seen.
-/

namespace LuaTypes.SymbolTable

variable (table : SymbolTable)

def ancestorsFrom (name : String) (seen : List String) : (queue : List String) → List String
  | [] => seen
  | parent :: queue =>
    if _h : parent ∈ seen ∨ parent = name then ancestorsFrom name seen queue
    else ancestorsFrom name (seen ++ [parent]) (queue ++ table.parents parent)
termination_by queue => (table.unseen seen, queue.length)
decreasing_by
  · exact Prod.Lex.right _ (by simp)
  · rw [not_or] at _h
    cases hc : table.class? parent with
    -- A name that is not declared has no parents, so the queue gets shorter; a declared class is seen from now
    -- on, which happens once.
    | none =>
      have hp : table.parents parent = [] := by simp [parents, hc]
      rw [hp]
      rcases Nat.lt_or_eq_of_le (table.unseen_append_le seen parent) with hlt | heq
      · exact Prod.Lex.left _ _ hlt
      · rw [heq]
        exact Prod.Lex.right _ (by simp)
    | some c => exact Prod.Lex.left _ _ (table.unseen_append_lt _h.1 hc)

def ancestors (name : String) : List String :=
  table.ancestorsFrom name [] (table.parents name)

end LuaTypes.SymbolTable
