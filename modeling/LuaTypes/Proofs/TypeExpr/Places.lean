import Mathlib.Data.List.Nodup
import Mathlib.Data.Set.Card
import LuaTypes.Proofs.TypeExpr.Induction

/-!
Places in a type. A way leads from a type to one that it is made of, step by step, and no two places of a type have the
same way. A partial function can be given by a list of its values, which is how all places are found.
-/

namespace LuaTypes

/-! ### Lists of all values -/

/--
Does a list have each value of a partial function once, behind its argument?
-/
structure Graph {κ ν : Type} (look : κ → Option ν) (entries : List (κ × ν)) : Prop where
  nodup : (entries.map (·.1)).Nodup
  mem_iff (k : κ) (v : ν) : (k, v) ∈ entries ↔ look k = some v

def Lists {κ ν : Type} (look : κ → Option ν) (values : List ν) : Prop :=
  ∃ entries, Graph look entries ∧ entries.map (·.2) = values

namespace Lists

variable {κ κ' ι ν μ : Type} {look : κ → Option ν} {values : List ν}

theorem indexed (xs : List ν) : Lists (fun i : Nat => xs[i]?) xs := by
  refine ⟨xs.zipIdx.map fun p => (p.2, p.1), ⟨?_, fun i x => by simp [List.mem_zipIdx_iff_getElem?]⟩, ?_⟩
  · rw [List.map_map]
    have hindices : xs.zipIdx.map (·.2) = List.range' 0 xs.length := List.zipIdx_map_snd 0 xs
    exact hindices ▸ List.nodup_range'
  · rw [List.map_map]
    exact List.zipIdx_map_fst 0 xs

theorem ofOption (o : Option ν) : Lists (fun _ : Unit => o) o.toList := by
  cases o with
  | none => exact ⟨[], ⟨List.nodup_nil, by simp⟩, rfl⟩
  | some v => exact ⟨[((), v)], ⟨List.nodup_singleton (), by simp [eq_comm]⟩, rfl⟩

theorem map (h : Lists look values) (f : ν → μ) : Lists (fun k => (look k).map f) (values.map f) := by
  obtain ⟨entries, h, rfl⟩ := h
  refine ⟨entries.map fun e => (e.1, f e.2), ⟨?_, ?_⟩, by rw [List.map_map, List.map_map]; rfl⟩
  · rw [List.map_map]
    exact h.nodup
  · intro k x
    rw [List.mem_map, Option.map_eq_some_iff]
    constructor
    · rintro ⟨⟨l, v⟩, hmem, heq⟩
      cases heq
      exact ⟨v, (h.mem_iff l v).1 hmem, rfl⟩
    · rintro ⟨v, hv, rfl⟩
      exact ⟨(k, v), (h.mem_iff k v).2 hv, rfl⟩

theorem image (h : Lists look values) {f : κ → κ'} (hf : f.Injective) {look' : κ' → Option ν}
    (hlook : ∀ l v, look' l = some v ↔ ∃ k, f k = l ∧ look k = some v)
    : Lists look' values := by
  obtain ⟨entries, h, rfl⟩ := h
  refine ⟨entries.map fun e => (f e.1, e.2), ⟨?_, ?_⟩, by rw [List.map_map]; rfl⟩
  · have hmap := h.nodup.map hf
    rw [List.map_map] at hmap ⊢
    exact hmap
  · intro l v
    rw [hlook, List.mem_map]
    constructor
    · rintro ⟨⟨k, w⟩, hmem, heq⟩
      cases heq
      exact ⟨k, rfl, (h.mem_iff k w).1 hmem⟩
    · rintro ⟨k, rfl, hk⟩
      exact ⟨(k, v), (h.mem_iff k v).2 hk, rfl⟩

theorem append {first second : κ → Option ν} {values' : List ν} (h : Lists first values) (h' : Lists second values')
    (hlook : ∀ k v, look k = some v ↔ first k = some v ∨ second k = some v)
    (hdisjoint : ∀ k v w, first k = some v → second k ≠ some w)
    : Lists look (values ++ values') := by
  obtain ⟨entries, h, rfl⟩ := h
  obtain ⟨entries', h', rfl⟩ := h'
  refine ⟨entries ++ entries', ⟨?_, fun k v => by rw [List.mem_append, h.mem_iff, h'.mem_iff, hlook]⟩,
    List.map_append⟩
  rw [List.map_append, List.nodup_append]
  refine ⟨h.nodup, h'.nodup, ?_⟩
  intro k hk l hl heq
  obtain ⟨⟨k', v⟩, hv, rfl⟩ := List.mem_map.1 hk
  obtain ⟨⟨l', w⟩, hw, rfl⟩ := List.mem_map.1 hl
  cases heq
  exact hdisjoint _ v w ((h.mem_iff _ v).1 hv) ((h'.mem_iff _ w).1 hw)

theorem flatMap {inner : ν → ι → Option μ} {rest : ν → List μ} (h : Lists look values) {g : κ → ι → κ'}
    (hg : Function.Injective2 g) (hrest : ∀ v ∈ values, Lists (inner v) (rest v)) {look' : κ' → Option μ}
    (hlook : ∀ l x, look' l = some x ↔ ∃ k i v, g k i = l ∧ look k = some v ∧ inner v i = some x)
    : Lists look' (values.flatMap rest) := by
  obtain ⟨entries, h, rfl⟩ := h
  choose! below hbelow hvalues using hrest
  have hmem : ∀ e ∈ entries, Graph (inner e.2) (below e.2) := fun e he => hbelow e.2 (List.mem_map_of_mem he)
  refine ⟨entries.flatMap fun e => (below e.2).map fun e' => (g e.1 e'.1, e'.2), ⟨?_, ?_⟩, ?_⟩
  · rw [List.map_flatMap, List.nodup_flatMap]
    constructor
    · intro e he
      have hmap := (hmem e he).nodup.map (hg.right e.1)
      rw [List.map_map] at hmap ⊢
      exact hmap
    · apply (List.pairwise_map.1 h.nodup).imp
      intro e e' hne l hl hl'
      dsimp only at hl hl'
      rw [List.map_map] at hl hl'
      obtain ⟨_, -, rfl⟩ := List.mem_map.1 hl
      obtain ⟨_, -, heq⟩ := List.mem_map.1 hl'
      exact hne (hg heq).1.symm
  · intro l x
    rw [hlook, List.mem_flatMap]
    constructor
    · rintro ⟨⟨k, v⟩, hv, hx⟩
      obtain ⟨⟨i, y⟩, hy, heq⟩ := List.mem_map.1 hx
      cases heq
      exact ⟨k, i, v, rfl, (h.mem_iff k v).1 hv, ((hmem _ hv).mem_iff i y).1 hy⟩
    · rintro ⟨k, i, v, rfl, hk, hi⟩
      have hv := (h.mem_iff k v).2 hk
      exact ⟨(k, v), hv, List.mem_map.2 ⟨(i, x), ((hmem _ hv).mem_iff i x).2 hi, rfl⟩⟩
  · rw [List.map_flatMap, List.flatMap_map]
    apply List.flatMap_congr
    intro e he
    rw [List.map_map, ← hvalues e.2 (List.mem_map_of_mem he)]
    rfl

theorem filterMap (h : Lists look values) (f : ν → Option μ)
    : Lists (fun k => (look k).bind f) (values.filterMap f) := by
  rw [List.filterMap_eq_flatMap_toList]
  apply h.flatMap (g := fun k _ => k) (fun _ _ _ _ heq => ⟨heq, rfl⟩) fun v _ => ofOption (f v)
  intro k x
  simp [Option.bind_eq_some_iff]

theorem encard_setOf (h : Lists look values) (p : ν → Bool)
    : {k | ∃ v, look k = some v ∧ p v = true}.encard = values.countP p := by
  classical
  obtain ⟨entries, h, rfl⟩ := h
  have hset : {k | ∃ v, look k = some v ∧ p v = true}
      = ((entries.filter fun e => p e.2).map (·.1)).toFinset := by
    ext k
    simp only [Set.mem_ofPred_eq, ← h.mem_iff, List.coe_toFinset, List.mem_map, List.mem_filter, Prod.exists,
      exists_and_right, exists_eq_right]
  have hnodup : ((entries.filter fun e => p e.2).map (·.1)).Nodup := h.nodup.sublist (List.filter_sublist.map _)
  rw [hset, Set.encard_coe_eq_coe_finsetCard, List.toFinset_card_of_nodup hnodup, List.length_map, List.countP_map,
    List.countP_eq_length_filter]
  rfl

end Lists

/-! ### Places -/

namespace TypeExpr

inductive Step where
  | member (i : Nat)
  | inner
  | element
  | argument (i : Nat)
  | param (i : Nat)
  | result (i : Nat)
  | key (i : Nat)
  | value (i : Nat)
  deriving DecidableEq

def Step.isKey : Step → Bool
  | .key _ => true
  | _ => false

def step? : TypeExpr → Step → Option TypeExpr
  | .union members, .member i => members[i]?
  | .optional inner, .inner => some inner
  | .array element, .element => some element
  | .generic _ args, .argument i => args[i]?
  | .function params _ _, .param i => params[i]?.bind (·.type)
  | .function _ returns _, .result i => returns[i]?
  | .table fields, .key i => fields[i]?.bind (·.key)
  | .table fields, .value i => fields[i]?.map (·.type)
  | _, _ => none

def at? : TypeExpr → List Step → Option TypeExpr
  | t, [] => some t
  | t, s :: way => (t.step? s).bind fun u => u.at? way

/-! ### Below a type -/

def child? (t : TypeExpr) (s : Step) : Option TypeExpr :=
  if s.isKey then none else t.step? s

def children : TypeExpr → List TypeExpr
  | .union members => members
  | .optional inner => [inner]
  | .array element => [element]
  | .generic _ args => args
  | .function params returns _ => params.filterMap (·.type) ++ returns
  | .table fields => fields.map (·.type)
  | .named _ | .literal _ | .vararg => []

theorem lists_children (t : TypeExpr) : Lists t.child? t.children := by
  -- Each kind of type numbers its own parts; the step tells from which list a part comes.
  cases t with
  | union members =>
    apply (Lists.indexed members).image (f := Step.member)
    · exact fun i j h => Step.member.inj h
    · intro s v
      cases s <;> simp [child?, step?, Step.isKey]
  | generic name args =>
    apply (Lists.indexed args).image (f := Step.argument)
    · exact fun i j h => Step.argument.inj h
    · intro s v
      cases s <;> simp [child?, step?, Step.isKey]
  | table fields =>
    apply ((Lists.indexed fields).map (·.type)).image (f := Step.value)
    · exact fun i j h => Step.value.inj h
    · intro s v
      cases s <;> simp [child?, step?, Step.isKey]
  | optional inner =>
    apply (Lists.ofOption (some inner)).image (f := fun _ => Step.inner)
    · exact fun _ _ _ => rfl
    · intro s v
      cases s <;> simp [child?, step?, Step.isKey]
  | array element =>
    apply (Lists.ofOption (some element)).image (f := fun _ => Step.element)
    · exact fun _ _ _ => rfl
    · intro s v
      cases s <;> simp [child?, step?, Step.isKey]
  | function params returns isAsync =>
    have hparams : Lists (fun s : Step => match s with | .param i => params[i]?.bind (·.type) | _ => none)
        (params.filterMap (·.type)) := by
      apply ((Lists.indexed params).filterMap (·.type)).image (f := Step.param)
      · exact fun i j h => Step.param.inj h
      · intro s v
        cases s <;> simp
    have hreturns : Lists (fun s : Step => match s with | .result i => returns[i]? | _ => none) returns := by
      apply (Lists.indexed returns).image (f := Step.result)
      · exact fun i j h => Step.result.inj h
      · intro s v
        cases s <;> simp
    apply hparams.append hreturns
    · intro s v
      cases s <;> simp [child?, step?, Step.isKey]
    · intro s v w
      cases s <;> simp
  | named | literal | vararg =>
    refine ⟨[], ⟨List.nodup_nil, fun s v => ?_⟩, rfl⟩
    cases s <;> simp [child?, step?, Step.isKey]

theorem induction_on_step {P : TypeExpr → Prop} (h : ∀ t : TypeExpr, (∀ s u, t.step? s = some u → P u) → P t)
    (t : TypeExpr)
    : P t := by
  induction t with
  | named | literal | vararg =>
    apply h
    intro s u hu
    cases s <;> cases hu
  | union members ih =>
    apply h
    intro s u hu
    cases s with
    | member i => exact ih u (List.mem_of_getElem? hu)
    | _ => cases hu
  | optional inner ih =>
    apply h
    intro s u hu
    cases s with
    | inner =>
      cases hu
      exact ih
    | _ => cases hu
  | array element ih =>
    apply h
    intro s u hu
    cases s with
    | element =>
      cases hu
      exact ih
    | _ => cases hu
  | generic name args ih =>
    apply h
    intro s u hu
    cases s with
    | argument i => exact ih u (List.mem_of_getElem? hu)
    | _ => cases hu
  | function params returns isAsync hparams hreturns =>
    apply h
    intro s u hu
    cases s with
    | param i =>
      obtain ⟨p, hp, htype⟩ := Option.bind_eq_some_iff.1 hu
      exact hparams p (List.mem_of_getElem? hp) u htype
    | result i => exact hreturns u (List.mem_of_getElem? hu)
    | _ => cases hu
  | table fields ih =>
    apply h
    intro s u hu
    cases s with
    | key i =>
      obtain ⟨f, hf, hkey⟩ := Option.bind_eq_some_iff.1 hu
      exact (ih f (List.mem_of_getElem? hf)).1 u hkey
    | value i =>
      obtain ⟨f, hf, rfl⟩ := Option.map_eq_some_iff.1 hu
      exact (ih f (List.mem_of_getElem? hf)).2
    | _ => cases hu

theorem exists_step?_of_mem_children {t u : TypeExpr} (h : u ∈ t.children) : ∃ s, t.step? s = some u := by
  obtain ⟨entries, hgraph, hvalues⟩ := lists_children t
  rw [← hvalues] at h
  obtain ⟨⟨s, v⟩, hmem, rfl⟩ := List.mem_map.1 h
  have hchild := (hgraph.mem_iff s v).1 hmem
  unfold child? at hchild
  split at hchild
  · cases hchild
  · exact ⟨s, hchild⟩

end TypeExpr

end LuaTypes
