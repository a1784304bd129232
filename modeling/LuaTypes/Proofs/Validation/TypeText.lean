import LuaTypes.Proofs.Artifact.TypeExpr
import LuaTypes.Proofs.Json.Injective
import LuaTypes.Validation

/-!
Alternatives of a union are compared by their stored form. Two of them count as one if they are the same type, but for
numbers that are not finite, all of which are alike.
-/

namespace LuaTypes

def Literal.blurred : Literal → Literal
  | .float x => .float (if x.isFinite then x else Decimal.notANumber)
  | value => value

namespace TypeExpr

mutual

def blurred : TypeExpr → TypeExpr
  | .named name => .named name
  | .literal value => .literal value.blurred
  | .union members => .union (listBlurred members)
  | .optional inner => .optional inner.blurred
  | .array element => .array element.blurred
  | .generic name args => .generic name (listBlurred args)
  | .function params returns isAsync => .function (paramsBlurred params) (listBlurred returns) isAsync
  | .table fields => .table (fieldsBlurred fields)
  | .vararg => .vararg

def listBlurred : List TypeExpr → List TypeExpr
  | [] => []
  | t :: ts => t.blurred :: listBlurred ts

def optionBlurred : Option TypeExpr → Option TypeExpr
  | none => none
  | some t => some t.blurred

def paramsBlurred : List (Param TypeExpr) → List (Param TypeExpr)
  | [] => []
  | ⟨name, type, isOptional⟩ :: ps => ⟨name, optionBlurred type, isOptional⟩ :: paramsBlurred ps

def fieldsBlurred : List (Field TypeExpr) → List (Field TypeExpr)
  | [] => []
  | ⟨name, key, type, isOptional⟩ :: fs =>
    ⟨name, optionBlurred key, type.blurred, isOptional⟩ :: fieldsBlurred fs

end

attribute [local simp] listBlurred optionBlurred paramsBlurred fieldsBlurred

theorem listBlurred_eq_map (ts : List TypeExpr) : listBlurred ts = ts.map blurred := by
  induction ts with
  | nil => rfl
  | cons t ts ih => rw [listBlurred, ih, List.map_cons]

theorem optionBlurred_eq_map (o : Option TypeExpr) : optionBlurred o = o.map blurred := by
  cases o <;> rfl

def Param.blurred (p : Param TypeExpr) : Param TypeExpr :=
  { p with type := p.type.map TypeExpr.blurred }

def Field.blurred (f : Field TypeExpr) : Field TypeExpr :=
  { f with key := f.key.map TypeExpr.blurred, type := f.type.blurred }

theorem paramsBlurred_eq_map (ps : List (Param TypeExpr)) : paramsBlurred ps = ps.map Param.blurred := by
  induction ps with
  | nil => rfl
  | cons p ps ih => rw [paramsBlurred, ih, optionBlurred_eq_map, List.map_cons, Param.blurred]

theorem fieldsBlurred_eq_map (fs : List (Field TypeExpr)) : fieldsBlurred fs = fs.map Field.blurred := by
  induction fs with
  | nil => rfl
  | cons f fs ih => rw [fieldsBlurred, ih, optionBlurred_eq_map, List.map_cons, Field.blurred]

end TypeExpr

namespace Validation

open Json TypeExpr

attribute [local simp] finite finiteItems finiteMembers toJson blurred

theorem finiteItems_eq_map (vs : List Json) : finiteItems vs = vs.map finite := by
  induction vs with
  | nil => rfl
  | cons v vs ih => rw [finiteItems, ih, List.map_cons]

theorem map_eq_map_of_imp {α β γ : Type} {f : α → β} {g : α → γ} {xs ys : List α}
    (h : ∀ x ∈ xs, ∀ y, f x = f y → g x = g y) (hmap : xs.map f = ys.map f)
    : xs.map g = ys.map g := by
  induction xs generalizing ys with
  | nil =>
    cases ys with
    | nil => rfl
    | cons y ys => cases hmap
  | cons x xs ih =>
    cases ys with
    | nil => cases hmap
    | cons y ys =>
      simp only [List.map_cons, List.cons.injEq] at hmap ⊢
      exact ⟨h x (by simp) y hmap.1, ih (fun z hz => h z (by simp [hz])) hmap.2⟩

theorem finite_notANumber : finite (.float Decimal.notANumber) = .null := by
  have hnot : Decimal.notANumber.isFinite = false := by rfl
  rw [finite, hnot]
  rfl

/-! ### The stored form tells blurred types apart -/

theorem blurred_of_finite_toJson_literal {a b : Literal} (h : finite a.toJson = finite b.toJson)
    : a.blurred = b.blurred := by
  cases a <;> cases b <;> simp only [Literal.toJson, finite, Literal.blurred] at h ⊢
  -- Only floats have a stored form that depends on their values.
  all_goals grind

def Tells (t : TypeExpr) : Prop :=
  ∀ u : TypeExpr, finite t.toJson = finite u.toJson → t.blurred = u.blurred

theorem finite_toJson_ne_null (t : TypeExpr) : finite t.toJson ≠ .null := by
  cases t <;> simp [toJson, kindObject, finite]

theorem blurred_of_finite_option {o o' : Option TypeExpr}
    (h : ∀ t, o = some t → Tells t)
    (hsame : finite (Json.ofOption TypeExpr.toJson o) = finite (Json.ofOption TypeExpr.toJson o'))
    : o.map blurred = o'.map blurred := by
  cases o with
  | none =>
    cases o' with
    | none => rfl
    | some u => exact absurd hsame.symm (finite_toJson_ne_null u)
  | some t =>
    cases o' with
    | none => exact absurd hsame (finite_toJson_ne_null t)
    | some u => exact congrArg some (h t rfl u hsame)

theorem listBlurred_of_finite {ts us : List TypeExpr} (h : ∀ t ∈ ts, Tells t)
    (hsame : finiteItems (listToJson ts) = finiteItems (listToJson us))
    : listBlurred ts = listBlurred us := by
  simp only [listToJson_eq_map, finiteItems_eq_map, List.map_map] at hsame
  rw [listBlurred_eq_map, listBlurred_eq_map]
  exact map_eq_map_of_imp h hsame

theorem paramsBlurred_of_finite {ps qs : List (TypeExpr.Param TypeExpr)} (h : ∀ p ∈ ps, ∀ t, p.type = some t → Tells t)
    (hsame : finiteItems (paramsToJson ps) = finiteItems (paramsToJson qs))
    : paramsBlurred ps = paramsBlurred qs := by
  simp only [paramsToJson_eq_map, finiteItems_eq_map, List.map_map] at hsame
  rw [paramsBlurred_eq_map, paramsBlurred_eq_map]
  apply map_eq_map_of_imp _ hsame
  intro p hp q hpq
  simp only [Function.comp_apply, TypeExpr.Param.toJson, finite, finiteMembers, Json.object.injEq, List.cons.injEq,
    Prod.mk.injEq, Json.string.injEq, Json.boolean.injEq, true_and, and_true] at hpq
  obtain ⟨hname, htype, hoptional⟩ := hpq
  rw [TypeExpr.Param.blurred, TypeExpr.Param.blurred, hname, hoptional, blurred_of_finite_option (h p hp) htype]

theorem name_of_finite {o o' : Option String}
    (h : finite (Json.ofOption .string o) = finite (Json.ofOption .string o'))
    : o = o' := by
  cases o <;> cases o' <;> simp_all [Json.ofOption, finite]

theorem fieldsBlurred_of_finite {fs gs : List (TypeExpr.Field TypeExpr)}
    (h : ∀ f ∈ fs, (∀ t, f.key = some t → Tells t) ∧ Tells f.type)
    (hsame : finiteItems (fieldsToJson fs) = finiteItems (fieldsToJson gs))
    : fieldsBlurred fs = fieldsBlurred gs := by
  simp only [fieldsToJson_eq_map, finiteItems_eq_map, List.map_map] at hsame
  rw [fieldsBlurred_eq_map, fieldsBlurred_eq_map]
  apply map_eq_map_of_imp _ hsame
  intro f hf g hfg
  simp only [Function.comp_apply, TypeExpr.Field.toJson, finite, finiteMembers, Json.object.injEq, List.cons.injEq,
    Prod.mk.injEq, Json.boolean.injEq, true_and, and_true] at hfg
  obtain ⟨hname, hkey, htype, hoptional⟩ := hfg
  rw [TypeExpr.Field.blurred, TypeExpr.Field.blurred, name_of_finite hname, hoptional,
    blurred_of_finite_option (h f hf).1 hkey, (h f hf).2 _ htype]

theorem tells (t : TypeExpr) : Tells t := by
  -- The stored kind settles the constructor of `u`, the stored fields its parts.
  induction t with
  | named name =>
    intro u h
    cases u <;> simp [toJson, kindObject, finite, finiteMembers] at h
    rw [h]
  | literal value =>
    intro u h
    cases u <;> simp [toJson, kindObject, finite, finiteMembers] at h
    rw [blurred, blurred, blurred_of_finite_toJson_literal h]
  | union members ih =>
    intro u h
    cases u <;> simp [toJson, kindObject, finite, finiteMembers] at h
    rw [blurred, blurred, listBlurred_of_finite ih h]
  | optional inner ih =>
    intro u h
    cases u <;> simp [toJson, kindObject, finite, finiteMembers] at h
    rw [blurred, blurred, ih _ h]
  | array element ih =>
    intro u h
    cases u <;> simp [toJson, kindObject, finite, finiteMembers] at h
    rw [blurred, blurred, ih _ h]
  | generic name args ih =>
    intro u h
    cases u <;> simp [toJson, kindObject, finite, finiteMembers] at h
    rw [blurred, blurred, h.1, listBlurred_of_finite ih h.2]
  | function params returns isAsync hparams hreturns =>
    intro u h
    cases u <;> simp [toJson, kindObject, finite, finiteMembers] at h
    rw [blurred, blurred, paramsBlurred_of_finite hparams h.1, listBlurred_of_finite hreturns h.2.1, h.2.2]
  | table fields ih =>
    intro u h
    cases u <;> simp [toJson, kindObject, finite, finiteMembers] at h
    rw [blurred, blurred, fieldsBlurred_of_finite ih h]
  | vararg =>
    intro u h
    cases u <;> simp [toJson, kindObject, finite, finiteMembers] at h
    rfl

/-! ### Blurred types have one stored form -/

theorem finite_toJson_blurred_literal (value : Literal) : finite value.blurred.toJson = finite value.toJson := by
  cases value with
  | float x =>
    simp only [Literal.blurred, Literal.toJson]
    split
    next => rfl
    next hx => rw [finite_notANumber, finite, if_neg hx]
  | _ => rfl

def Blurs (t : TypeExpr) : Prop :=
  finite t.blurred.toJson = finite t.toJson

theorem finite_option_blurred {o : Option TypeExpr} (h : ∀ t, o = some t → Blurs t)
    : finite (Json.ofOption TypeExpr.toJson (o.map blurred)) = finite (Json.ofOption TypeExpr.toJson o) := by
  cases o with
  | none => rfl
  | some t => exact h t rfl

theorem finiteItems_listBlurred {ts : List TypeExpr} (h : ∀ t ∈ ts, Blurs t)
    : finiteItems (listToJson (listBlurred ts)) = finiteItems (listToJson ts) := by
  simp only [listToJson_eq_map, listBlurred_eq_map, finiteItems_eq_map, List.map_map]
  exact List.map_congr_left h

theorem finiteItems_paramsBlurred {ps : List (TypeExpr.Param TypeExpr)}
    (h : ∀ p ∈ ps, ∀ t, p.type = some t → Blurs t)
    : finiteItems (paramsToJson (paramsBlurred ps)) = finiteItems (paramsToJson ps) := by
  simp only [paramsToJson_eq_map, paramsBlurred_eq_map, finiteItems_eq_map, List.map_map]
  apply List.map_congr_left
  intro p hp
  simp only [Function.comp_apply, TypeExpr.Param.toJson, TypeExpr.Param.blurred, finite, finiteMembers,
    finite_option_blurred (h p hp)]

theorem finiteItems_fieldsBlurred {fs : List (TypeExpr.Field TypeExpr)}
    (h : ∀ f ∈ fs, (∀ t, f.key = some t → Blurs t) ∧ Blurs f.type)
    : finiteItems (fieldsToJson (fieldsBlurred fs)) = finiteItems (fieldsToJson fs) := by
  simp only [fieldsToJson_eq_map, fieldsBlurred_eq_map, finiteItems_eq_map, List.map_map]
  apply List.map_congr_left
  intro f hf
  have htype : finite f.type.blurred.toJson = finite f.type.toJson := (h f hf).2
  simp only [Function.comp_apply, TypeExpr.Field.toJson, TypeExpr.Field.blurred, finite, finiteMembers,
    finite_option_blurred (h f hf).1, htype]

theorem blurs (t : TypeExpr) : Blurs t := by
  unfold Blurs
  induction t with
  | named | vararg => rfl
  | literal value => simp only [blurred, toJson, kindObject, finite, finiteMembers, finite_toJson_blurred_literal]
  | union members ih => simp only [blurred, toJson, kindObject, finite, finiteMembers, finiteItems_listBlurred ih]
  | optional inner ih => simp only [blurred, toJson, kindObject, finite, finiteMembers, ih]
  | array element ih => simp only [blurred, toJson, kindObject, finite, finiteMembers, ih]
  | generic name args ih => simp only [blurred, toJson, kindObject, finite, finiteMembers, finiteItems_listBlurred ih]
  | function params returns isAsync hparams hreturns =>
    simp only [blurred, toJson, kindObject, finite, finiteMembers, finiteItems_paramsBlurred hparams,
      finiteItems_listBlurred hreturns]
  | table fields ih => simp only [blurred, toJson, kindObject, finite, finiteMembers, finiteItems_fieldsBlurred ih]

/-! ### Texts of types -/

/--
Are the texts of two types the same just if their stored forms are, when each number that is not finite is taken for
`null`?
-/
class LawfulDump [Dump] : Prop where
  typeText_eq_iff : ∀ {t u : TypeExpr}, Dump.typeText t = Dump.typeText u ↔ finite t.toJson = finite u.toJson

instance : LawfulDump where
  typeText_eq_iff := compact_inj

theorem typeText_eq_iff_blurred [Dump] [LawfulDump] {t u : TypeExpr}
    : Dump.typeText t = Dump.typeText u ↔ t.blurred = u.blurred := by
  rw [LawfulDump.typeText_eq_iff]
  constructor
  · exact tells t u
  · intro h
    rw [← blurs t, h, blurs u]

end Validation

end LuaTypes
