import LuaTypes.Proofs.TypeExpr.Occurs

/-!
The names in a type. A name is mentioned if it occurs as a type, or as the name of a type with arguments;
the list of references holds exactly the names that are mentioned.
-/

namespace LuaTypes.TypeExpr

def Mentions (name : String) (t : TypeExpr) : Prop :=
  Occurs (.named name) t ∨ ∃ args, Occurs (.generic name args) t

section

variable {name : String}

theorem mem_listReferences {ts : List TypeExpr}
    : name ∈ listReferences ts ↔ ∃ t ∈ ts, name ∈ t.namedReferences := by
  induction ts with
  | nil => simp [listReferences]
  | cons t ts ih => simp [listReferences, ih]

theorem mem_optionReferences {o : Option TypeExpr}
    : name ∈ optionReferences o ↔ ∃ t, o = some t ∧ name ∈ t.namedReferences := by
  cases o <;> simp [optionReferences]

theorem mem_paramReferences {ps : List (Param TypeExpr)}
    : name ∈ paramReferences ps ↔ ∃ p ∈ ps, ∃ t, p.type = some t ∧ name ∈ t.namedReferences := by
  induction ps with
  | nil => simp [paramReferences]
  | cons p ps ih => simp [paramReferences, ih, mem_optionReferences]

theorem mem_fieldReferences {fs : List (Field TypeExpr)}
    : name ∈ fieldReferences fs ↔
        ∃ f ∈ fs, (∃ t, f.key = some t ∧ name ∈ t.namedReferences) ∨ name ∈ f.type.namedReferences := by
  induction fs with
  | nil => simp [fieldReferences]
  | cons f fs ih => simp [fieldReferences, ih, mem_optionReferences, or_assoc]

theorem mem_namedReferences_of_occurs {u t : TypeExpr} (h : Occurs u t) (hu : name ∈ u.namedReferences)
    : name ∈ t.namedReferences := by
  induction h with
  | refl => exact hu
  | member ht _ ih =>
    rw [namedReferences, mem_listReferences]
    exact ⟨_, ht, ih⟩
  | inner _ ih => simpa [namedReferences] using ih
  | element _ ih => simpa [namedReferences] using ih
  | argument ht _ ih =>
    rw [namedReferences, List.mem_cons, mem_listReferences]
    exact .inr ⟨_, ht, ih⟩
  | param hp ht _ ih =>
    rw [namedReferences, List.mem_append, mem_paramReferences]
    exact .inl ⟨_, hp, _, ht, ih⟩
  | result ht _ ih =>
    rw [namedReferences, List.mem_append, mem_listReferences]
    exact .inr ⟨_, ht, ih⟩
  | key hf ht _ ih =>
    rw [namedReferences, mem_fieldReferences]
    exact ⟨_, hf, .inl ⟨_, ht, ih⟩⟩
  | value hf _ ih =>
    rw [namedReferences, mem_fieldReferences]
    exact ⟨_, hf, .inr ih⟩

theorem mentions_of_forall_occurs {t u : TypeExpr} (h : u.Mentions name) (hu : ∀ v, Occurs v u → Occurs v t)
    : t.Mentions name := by
  obtain h | ⟨args, h⟩ := h
  · exact .inl (hu _ h)
  · exact .inr ⟨args, hu _ h⟩

theorem mentions_of_mem_namedReferences {t : TypeExpr} (h : name ∈ t.namedReferences)
    : t.Mentions name := by
  induction t with
  | named base =>
    obtain rfl : name = base := by simpa [namedReferences] using h
    exact .inl .refl
  | literal => simp [namedReferences] at h
  | union members ih =>
    rw [namedReferences, mem_listReferences] at h
    obtain ⟨t, ht, hname⟩ := h
    exact mentions_of_forall_occurs (ih t ht hname) fun _ hv => .member ht hv
  | optional inner ih =>
    exact mentions_of_forall_occurs (ih (by simpa [namedReferences] using h)) fun _ hv => .inner hv
  | array element ih =>
    exact mentions_of_forall_occurs (ih (by simpa [namedReferences] using h)) fun _ hv => .element hv
  | generic base args ih =>
    rw [namedReferences, List.mem_cons, mem_listReferences] at h
    obtain rfl | ⟨t, ht, hname⟩ := h
    · exact .inr ⟨args, .refl⟩
    · exact mentions_of_forall_occurs (ih t ht hname) fun _ hv => .argument ht hv
  | function params returns isAsync ihp ihr =>
    rw [namedReferences, List.mem_append, mem_paramReferences, mem_listReferences] at h
    obtain ⟨p, hp, t, ht, hname⟩ | ⟨t, ht, hname⟩ := h
    · exact mentions_of_forall_occurs (ihp p hp t ht hname) fun _ hv => .param hp ht hv
    · exact mentions_of_forall_occurs (ihr t ht hname) fun _ hv => .result ht hv
  | table fields ih =>
    rw [namedReferences, mem_fieldReferences] at h
    obtain ⟨f, hf, ⟨t, ht, hname⟩ | hname⟩ := h
    · exact mentions_of_forall_occurs ((ih f hf).1 t ht hname) fun _ hv => .key hf ht hv
    · exact mentions_of_forall_occurs ((ih f hf).2 hname) fun _ hv => .value hf hv
  | vararg => simp [namedReferences] at h

theorem mem_namedReferences_iff {t : TypeExpr} : name ∈ t.namedReferences ↔ t.Mentions name := by
  constructor
  · exact mentions_of_mem_namedReferences
  · rintro (h | ⟨args, h⟩)
    · exact mem_namedReferences_of_occurs h (by simp [namedReferences])
    · exact mem_namedReferences_of_occurs h (by simp [namedReferences])

end

end LuaTypes.TypeExpr
