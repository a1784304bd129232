import LuaTypes.Artifact.Decode
import LuaTypes.Artifact.Encode
import LuaTypes.Proofs.TypeExpr.Occurs

/-!
Types are read back from the JSON values that describe them.
-/

namespace LuaTypes

namespace Json

variable {α : Type}

theorem mapM_map_eq_some {β : Type} {f : α → β} {g : β → Option α} {xs : List α}
    (h : ∀ x ∈ xs, g (f x) = some x)
    : (xs.map f).mapM g = some xs := by
  induction xs with
  | nil => rfl
  | cons x xs ih =>
    have hx := h x (by simp)
    have hxs := ih fun y hy => h y (by simp [hy])
    simp [List.mapM_cons, hx, hxs]

theorem list?_map {f : α → Json} {decode : Json → Option α} {xs : List α}
    (h : ∀ x ∈ xs, decode (f x) = some x)
    : list? decode (.array (xs.map f)) = some xs :=
  mapM_map_eq_some h

theorem nullable?_ofOption {f : α → Json} {decode : Json → Option α} {o : Option α}
    (hnull : ∀ x, f x ≠ .null) (h : ∀ x, o = some x → decode (f x) = some x)
    : nullable? decode (ofOption f o) = some o := by
  cases o with
  | none => rfl
  | some x =>
    rw [ofOption, nullable?, h x rfl]
    · rfl
    · exact hnull x

variable {decode : Json → Option α} {key k : String} {v : Json} {members : List (String × Json)}

@[simp]
theorem lookup?_cons_self : lookup? key ((key, v) :: members) = some v := by
  simp [lookup?]

@[simp]
theorem lookup?_cons_of_ne (h : k ≠ key) : lookup? key ((k, v) :: members) = lookup? key members := by
  simp [lookup?, h]

@[simp]
theorem required?_cons_self : required? decode key ((key, v) :: members) = decode v := by
  simp [required?]

@[simp]
theorem required?_cons_of_ne (h : k ≠ key)
    : required? decode key ((k, v) :: members) = required? decode key members := by
  simp [required?, h]

@[simp]
theorem defaulted?_cons_self {fallback : α}
    : defaulted? decode fallback key ((key, v) :: members) = decode v := by
  simp [defaulted?]

@[simp]
theorem defaulted?_cons_of_ne {fallback : α} (h : k ≠ key)
    : defaulted? decode fallback key ((k, v) :: members) = defaulted? decode fallback key members := by
  simp [defaulted?, h]

@[simp]
theorem string?_string (s : String) : string? (.string s) = some s :=
  rfl

@[simp]
theorem truth?_boolean (b : Bool) : truth? (.boolean b) = some b :=
  rfl

theorem depth_le_depthOfItems {v : Json} {items : List Json} (h : v ∈ items) : v.depth ≤ depthOfItems items := by
  induction items with
  | nil => cases h
  | cons w ws ih =>
    rw [depthOfItems]
    cases h with
    | head => omega
    | tail _ h =>
      have := ih h
      omega

end Json

open Json

theorem Literal.ofJson?_toJson (value : Literal) : Literal.ofJson? value.toJson = some value := by
  cases value <;> rfl

namespace TypeExpr

theorem listToJson_eq_map (ts : List TypeExpr) : listToJson ts = ts.map toJson := by
  induction ts with
  | nil => simp [listToJson]
  | cons t ts ih => simp [listToJson, ih]

theorem optionToJson_eq (o : Option TypeExpr) : optionToJson o = ofOption toJson o := by
  cases o <;> simp [optionToJson, ofOption]

def Param.toJson (p : Param TypeExpr) : Json :=
  .object [("name", .string p.name), ("type", ofOption TypeExpr.toJson p.type),
    ("optional", .boolean p.optional)]

def Field.toJson (f : Field TypeExpr) : Json :=
  .object [("name", ofOption .string f.name), ("key_type", ofOption TypeExpr.toJson f.key),
    ("type", f.type.toJson), ("optional", .boolean f.optional)]

theorem paramsToJson_eq_map (ps : List (Param TypeExpr)) : paramsToJson ps = ps.map Param.toJson := by
  induction ps with
  | nil => simp [paramsToJson]
  | cons p ps ih => simp [paramsToJson, Param.toJson, optionToJson_eq, ih]

theorem fieldsToJson_eq_map (fs : List (Field TypeExpr)) : fieldsToJson fs = fs.map Field.toJson := by
  induction fs with
  | nil => simp [fieldsToJson]
  | cons f fs ih => simp [fieldsToJson, Field.toJson, optionToJson_eq, ih]

theorem toJson_ne_null (t : TypeExpr) : t.toJson ≠ .null := by
  cases t <;> simp [toJson, kindObject]

def Decodes (t : TypeExpr) : Prop :=
  ∀ fuel, t.toJson.depth < fuel → decode fuel t.toJson = some t

theorem list?_decode {ts : List TypeExpr} (fuel : Nat) (ih : ∀ t ∈ ts, Decodes t)
    (h : depthOfItems (listToJson ts) < fuel)
    : list? (decode fuel) (.array (listToJson ts)) = some ts := by
  rw [listToJson_eq_map] at h ⊢
  apply list?_map
  intro t ht
  have := depth_le_depthOfItems (List.mem_map_of_mem (f := toJson) ht)
  exact ih t ht fuel (by omega)

theorem nullable?_decode {o : Option TypeExpr} (fuel : Nat) (ih : ∀ t, o = some t → Decodes t)
    (h : (ofOption toJson o).depth < fuel)
    : nullable? (decode fuel) (ofOption toJson o) = some o := by
  apply nullable?_ofOption toJson_ne_null
  rintro t rfl
  exact ih t rfl fuel h

theorem Param.ofJson?_toJson {p : Param TypeExpr} {fuel : Nat} (ih : ∀ t, p.type = some t → Decodes t)
    (h : (Param.toJson p).depth < fuel + 1)
    : Param.ofJson? (decode fuel) (Param.toJson p) = some p := by
  simp only [Param.toJson, depth, depthOfMembers] at h
  simp [Param.ofJson?, Param.toJson, object?,
    nullable?_decode fuel ih (by omega)]

theorem Field.ofJson?_toJson {f : Field TypeExpr} {fuel : Nat}
    (ih : (∀ t, f.key = some t → Decodes t) ∧ Decodes f.type) (h : (Field.toJson f).depth < fuel + 1)
    : Field.ofJson? (decode fuel) (Field.toJson f) = some f := by
  simp only [Field.toJson, depth, depthOfMembers] at h
  have hname : nullable? string? (ofOption .string f.name) = some f.name :=
    nullable?_ofOption (by simp) (by simp [string?])
  simp [Field.ofJson?, Field.toJson, object?, optionalText?, hname,
    nullable?_decode fuel ih.1 (by omega), ih.2 fuel (by omega)]

theorem Decodes.of_succ {t : TypeExpr}
    (h : ∀ fuel, t.toJson.depth ≤ fuel → decode (fuel + 1) t.toJson = some t)
    : Decodes t := by
  intro fuel hfuel
  obtain ⟨fuel, rfl⟩ := Nat.exists_eq_add_one_of_ne_zero (Nat.ne_of_gt (Nat.zero_lt_of_lt hfuel))
  exact h fuel (by omega)

theorem decodes (t : TypeExpr) : Decodes t := by
  apply Decodes.of_succ
  intro fuel h
  induction t generalizing fuel with
  | named name => simp [toJson, kindObject, decode, object?]
  | literal value =>
    simp [toJson, kindObject, decode, object?, Literal.ofJson?_toJson]
  | union members ih =>
    simp only [toJson, kindObject, depth, depthOfMembers] at h
    have hmembers := list?_decode fuel (fun t (ht : t ∈ members) => .of_succ (ih t ht)) (by omega)
    simp [toJson, kindObject, decode, object?, hmembers]
  | optional inner ih =>
    simp only [toJson, kindObject, depth, depthOfMembers] at h
    have hinner := Decodes.of_succ ih fuel (by omega)
    simp [toJson, kindObject, decode, object?, hinner]
  | array element ih =>
    simp only [toJson, kindObject, depth, depthOfMembers] at h
    have helement := Decodes.of_succ ih fuel (by omega)
    simp [toJson, kindObject, decode, object?, helement]
  | generic name args ih =>
    simp only [toJson, kindObject, depth, depthOfMembers] at h
    have hargs := list?_decode fuel (fun t (ht : t ∈ args) => .of_succ (ih t ht)) (by omega)
    simp [toJson, kindObject, decode, object?, hargs]
  | function params returns isAsync ihp ihr =>
    simp only [toJson, kindObject, depth, depthOfMembers] at h
    have hparams : list? (Param.ofJson? (decode fuel)) (.array (paramsToJson params)) = some params := by
      rw [paramsToJson_eq_map] at h ⊢
      apply list?_map
      intro p hp
      have := depth_le_depthOfItems (List.mem_map_of_mem (f := Param.toJson) hp)
      exact Param.ofJson?_toJson (fun t ht => .of_succ (ihp p hp t ht)) (by omega)
    have hreturns := list?_decode fuel (fun t (ht : t ∈ returns) => .of_succ (ihr t ht)) (by omega)
    simp [toJson, kindObject, decode, object?, hparams,
      hreturns]
  | table fields ih =>
    simp only [toJson, kindObject, depth, depthOfMembers] at h
    have hfields : list? (Field.ofJson? (decode fuel)) (.array (fieldsToJson fields)) = some fields := by
      rw [fieldsToJson_eq_map] at h ⊢
      apply list?_map
      intro f hf
      have := depth_le_depthOfItems (List.mem_map_of_mem (f := Field.toJson) hf)
      exact Field.ofJson?_toJson ⟨fun t ht => .of_succ ((ih f hf).1 t ht), .of_succ (ih f hf).2⟩ (by omega)
    simp [toJson, kindObject, decode, object?, hfields]
  | vararg => simp [toJson, kindObject, decode, object?]

@[simp]
theorem ofJson?_toJson (t : TypeExpr) : ofJson? t.toJson = some t :=
  decodes t _ (Nat.lt_succ_self _)

end TypeExpr

end LuaTypes
