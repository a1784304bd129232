import LuaTypes.SymbolTable.Lookup

/-!
What is left of a symbol table while names are used up: the classes that a search for ancestors has not seen
yet, and the aliases that may still be expanded. Both get fewer with each declared name.
-/

namespace LuaTypes

open Declaration

theorem countP_notContains_lt {α : Type} {name : α → String} {xs : List α} {x : α} {used used' : List String}
    (hx : x ∈ xs) (hmore : ∀ n ∈ used, n ∈ used') (hold : name x ∉ used) (hnew : name x ∈ used')
    : xs.countP (fun y => ! used'.contains (name y)) < xs.countP fun y => ! used.contains (name y) := by
  have hsplit := List.countP_eq_countP_filter_add xs (fun y => ! used.contains (name y))
    fun y => ! used'.contains (name y)
  have hkept : (xs.filter fun y => ! used'.contains (name y)).countP (fun y => ! used.contains (name y))
      = xs.countP fun y => ! used'.contains (name y) := by
    rw [List.countP_filter]
    apply List.countP_congr
    intro y _
    simpa using mt (hmore (name y))
  have hgone : 0 < (xs.filter fun y => ! ! used'.contains (name y)).countP fun y => ! used.contains (name y) := by
    rw [List.countP_pos_iff]
    exact ⟨x, by simpa using ⟨hx, hnew⟩, by simpa using hold⟩
  omega

namespace SymbolTable

variable (table : SymbolTable)

theorem unseen_append_le (seen : List String) (name : String) : table.unseen (seen ++ [name]) ≤ table.unseen seen := by
  apply List.countP_mono_left
  intro c _ hc
  simp only [List.contains_append, Bool.not_or, Bool.and_eq_true] at hc
  exact hc.1

theorem unseen_append_lt {seen : List String} {name : String} {c : ClassType} (hseen : name ∉ seen)
    (hc : table.class? name = some c)
    : table.unseen (seen ++ [name]) < table.unseen seen := by
  have hname : c.name = name := by simpa using List.find?_some hc
  apply countP_notContains_lt (List.mem_of_find?_eq_some hc)
  · exact fun n hn => List.mem_append_left _ hn
  · rwa [hname]
  · simp [hname]

theorem unexpanded_cons_lt {expanding : List String} {t : TypeExpr} {name : String} {u : TypeExpr}
    (h : table.expansion? expanding t = some (name, u))
    : table.unexpanded (name :: expanding) < table.unexpanded expanding := by
  cases t with
  | named n =>
    simp only [expansion?, expandAlias?, Option.map_map] at h
    split at h
    · cases h
    next hn =>
      obtain ⟨a, ha, heq⟩ := Option.map_eq_some_iff.1 h
      have hname : a.name = n := by simpa using List.find?_some ha
      simp only [Function.comp, Prod.mk.injEq] at heq
      obtain ⟨rfl, rfl⟩ := heq
      apply countP_notContains_lt (List.mem_of_find?_eq_some ha)
      · exact fun n hn => List.mem_cons_of_mem _ hn
      · simpa [hname] using hn
      · simp [hname]
  | _ => cases h

end SymbolTable

end LuaTypes
