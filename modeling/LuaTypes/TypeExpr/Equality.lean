import LuaTypes.Proofs.TypeExpr.Induction

/-!
Equality of type expressions, by their structure.
-/

namespace LuaTypes.TypeExpr

mutual

def same : TypeExpr → TypeExpr → Bool
  | .named a, .named b => a = b
  | .literal a, .literal b => a = b
  | .union ts, .union us => sameList ts us
  | .optional t, .optional u => t.same u
  | .array t, .array u => t.same u
  | .generic a ts, .generic b us => a = b && sameList ts us
  | .function ps rs a, .function qs ss b => sameParams ps qs && sameList rs ss && a = b
  | .table fs, .table gs => sameFields fs gs
  | .vararg, .vararg => true
  | _, _ => false

def sameList : List TypeExpr → List TypeExpr → Bool
  | [], [] => true
  | t :: ts, u :: us => t.same u && sameList ts us
  | _, _ => false

def sameOption : Option TypeExpr → Option TypeExpr → Bool
  | none, none => true
  | some t, some u => t.same u
  | _, _ => false

def sameParams : List (Param TypeExpr) → List (Param TypeExpr) → Bool
  | [], [] => true
  | ⟨a, t, o⟩ :: ps, ⟨b, u, p⟩ :: qs => a = b && sameOption t u && o = p && sameParams ps qs
  | _, _ => false

def sameFields : List (Field TypeExpr) → List (Field TypeExpr) → Bool
  | [], [] => true
  | ⟨a, k, t, o⟩ :: fs, ⟨b, l, u, p⟩ :: gs =>
    a = b && sameOption k l && t.same u && o = p && sameFields fs gs
  | _, _ => false

end

theorem sameList_iff {ts us : List TypeExpr} (h : ∀ t ∈ ts, ∀ u, t.same u = true ↔ t = u)
    : sameList ts us = true ↔ ts = us := by
  induction ts generalizing us with
  | nil => cases us <;> simp [sameList]
  | cons t ts ih =>
    rw [List.forall_mem_cons] at h
    cases us <;> simp [sameList, h.1, ih h.2]

theorem sameOption_iff {t u : Option TypeExpr} (h : ∀ v, t = some v → ∀ u, v.same u = true ↔ v = u)
    : sameOption t u = true ↔ t = u := by
  cases t <;> cases u <;> simp [sameOption, h]

theorem sameParams_iff {ps qs : List (Param TypeExpr)}
    (h : ∀ p ∈ ps, ∀ t, p.type = some t → ∀ u, t.same u = true ↔ t = u)
    : sameParams ps qs = true ↔ ps = qs := by
  induction ps generalizing qs with
  | nil => cases qs <;> simp [sameParams]
  | cons p ps ih =>
    rw [List.forall_mem_cons] at h
    obtain _ | ⟨q, qs⟩ := qs
    · simp [sameParams]
    · cases p; cases q
      simp [sameParams, sameOption_iff h.1, ih h.2, and_assoc]

theorem sameFields_iff {fs gs : List (Field TypeExpr)}
    (h : ∀ f ∈ fs, (∀ t, f.key = some t → ∀ u, t.same u = true ↔ t = u) ∧ ∀ u, f.type.same u = true ↔ f.type = u)
    : sameFields fs gs = true ↔ fs = gs := by
  induction fs generalizing gs with
  | nil => cases gs <;> simp [sameFields]
  | cons f fs ih =>
    rw [List.forall_mem_cons] at h
    obtain _ | ⟨g, gs⟩ := gs
    · simp [sameFields]
    · cases f; cases g
      simp [sameFields, sameOption_iff h.1.1, h.1.2, ih h.2, and_assoc]

theorem same_iff (t u : TypeExpr) : t.same u = true ↔ t = u := by
  induction t generalizing u with
  | named | literal | vararg => cases u <;> simp [same]
  | optional inner ih | array element ih => cases u <;> simp [same, ih]
  | union members ih => cases u <;> simp [same, sameList_iff ih]
  | generic name args ih => cases u <;> simp [same, sameList_iff ih]
  | function params returns isAsync ihParams ihReturns =>
    cases u <;> simp [same, sameParams_iff ihParams, sameList_iff ihReturns, and_assoc]
  | table fields ih => cases u <;> simp [same, sameFields_iff ih]

instance : DecidableEq TypeExpr := fun t u => decidable_of_iff _ (same_iff t u)

end LuaTypes.TypeExpr
