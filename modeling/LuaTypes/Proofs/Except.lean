/-!
What a step in front of others has to do with the result of all of them.
-/

namespace LuaTypes

theorem bind_eq_ok_iff {ε α β : Type} {x : Except ε α} {k : α → Except ε β} {y : β}
    : x >>= k = .ok y ↔ ∃ z, x = .ok z ∧ k z = .ok y := by
  cases x with
  | error e => simp [bind, Except.bind]
  | ok z => simp [bind, Except.bind]

theorem bind_eq_error_iff {ε α β : Type} {x : Except ε α} {k : α → Except ε β} {e : ε}
    : x >>= k = .error e ↔ x = .error e ∨ ∃ z, x = .ok z ∧ k z = .error e := by
  cases x with
  | error e' => simp [bind, Except.bind]
  | ok z => simp [bind, Except.bind]

theorem eq_error_of_bind_pure {ε α β : Type} {x : Except ε α} {f : α → β} {e : ε}
    (h : (x >>= fun z => pure (f z)) = .error e)
    : x = .error e := by
  obtain h | ⟨_, -, h⟩ := bind_eq_error_iff.1 h
  · exact h
  · cases h

end LuaTypes
