import LuaTypes.Proofs.TypeExpr.Induction

/-!
Occurrences of types in types: in unions, behind parameters, among results and in tables, at any depth.
-/

namespace LuaTypes.TypeExpr

inductive Occurs (u : TypeExpr) : TypeExpr → Prop where
  | refl : Occurs u u
  | member {t members} : t ∈ members → Occurs u t → Occurs u (.union members)
  | inner {t} : Occurs u t → Occurs u (.optional t)
  | element {t} : Occurs u t → Occurs u (.array t)
  | argument {t name args} : t ∈ args → Occurs u t → Occurs u (.generic name args)
  | param {p : Param TypeExpr} {t params returns isAsync} : p ∈ params → p.type = some t → Occurs u t →
      Occurs u (.function params returns isAsync)
  | result {t params returns isAsync} : t ∈ returns → Occurs u t →
      Occurs u (.function params returns isAsync)
  | key {f : Field TypeExpr} {t fields} : f ∈ fields → f.key = some t → Occurs u t →
      Occurs u (.table fields)
  | value {f : Field TypeExpr} {fields} : f ∈ fields → Occurs u f.type → Occurs u (.table fields)

variable {u t : TypeExpr}

@[simp]
theorem occurs_named {name : String} : Occurs u (.named name) ↔ u = .named name := by
  constructor
  · intro h
    cases h
    rfl
  · rintro rfl
    exact .refl

@[simp]
theorem occurs_literal {value : Literal} : Occurs u (.literal value) ↔ u = .literal value := by
  constructor
  · intro h
    cases h
    rfl
  · rintro rfl
    exact .refl

@[simp]
theorem occurs_vararg : Occurs u .vararg ↔ u = .vararg := by
  constructor
  · intro h
    cases h
    rfl
  · rintro rfl
    exact .refl

@[simp]
theorem occurs_union {members : List TypeExpr}
    : Occurs u (.union members) ↔ u = .union members ∨ ∃ t ∈ members, Occurs u t := by
  constructor
  · intro h
    cases h with
    | refl => exact .inl rfl
    | member ht h => exact .inr ⟨_, ht, h⟩
  · rintro (rfl | ⟨t, ht, h⟩)
    · exact .refl
    · exact .member ht h

@[simp]
theorem occurs_optional : Occurs u (.optional t) ↔ u = .optional t ∨ Occurs u t := by
  constructor
  · intro h
    cases h with
    | refl => exact .inl rfl
    | inner h => exact .inr h
  · rintro (rfl | h)
    · exact .refl
    · exact .inner h

@[simp]
theorem occurs_array : Occurs u (.array t) ↔ u = .array t ∨ Occurs u t := by
  constructor
  · intro h
    cases h with
    | refl => exact .inl rfl
    | element h => exact .inr h
  · rintro (rfl | h)
    · exact .refl
    · exact .element h

@[simp]
theorem occurs_generic {name : String} {args : List TypeExpr}
    : Occurs u (.generic name args) ↔ u = .generic name args ∨ ∃ t ∈ args, Occurs u t := by
  constructor
  · intro h
    cases h with
    | refl => exact .inl rfl
    | argument ht h => exact .inr ⟨_, ht, h⟩
  · rintro (rfl | ⟨t, ht, h⟩)
    · exact .refl
    · exact .argument ht h

@[simp]
theorem occurs_function {params : List (Param TypeExpr)} {returns : List TypeExpr} {isAsync : Bool}
    : Occurs u (.function params returns isAsync) ↔ u = .function params returns isAsync ∨
        (∃ p ∈ params, ∃ t, p.type = some t ∧ Occurs u t) ∨ ∃ t ∈ returns, Occurs u t := by
  constructor
  · intro h
    cases h with
    | refl => exact .inl rfl
    | param hp ht h => exact .inr (.inl ⟨_, hp, _, ht, h⟩)
    | result ht h => exact .inr (.inr ⟨_, ht, h⟩)
  · rintro (rfl | ⟨p, hp, t, ht, h⟩ | ⟨t, ht, h⟩)
    · exact .refl
    · exact .param hp ht h
    · exact .result ht h

@[simp]
theorem occurs_table {fields : List (Field TypeExpr)}
    : Occurs u (.table fields) ↔ u = .table fields ∨
        ∃ f ∈ fields, (∃ t, f.key = some t ∧ Occurs u t) ∨ Occurs u f.type := by
  constructor
  · intro h
    cases h with
    | refl => exact .inl rfl
    | key hf ht h => exact .inr ⟨_, hf, .inl ⟨_, ht, h⟩⟩
    | value hf h => exact .inr ⟨_, hf, .inr h⟩
  · rintro (rfl | ⟨f, hf, ⟨t, ht, h⟩ | h⟩)
    · exact .refl
    · exact .key hf ht h
    · exact .value hf h

end LuaTypes.TypeExpr
