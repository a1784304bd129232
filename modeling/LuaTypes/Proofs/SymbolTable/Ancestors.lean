import Mathlib.Data.List.Basic
import Mathlib.Data.List.Flatten
import LuaTypes.SymbolTable

/-!
The search for the ancestors of a class. It goes up one generation after the other: while the parents of one
generation are looked at, those of the next one gather at the end of the queue. So it ends, finds every name
that parents lead to, and finds the nearer ones first, also where classes are their own ancestors.
-/

namespace LuaTypes

open Declaration

namespace SymbolTable

/-! ### Generations -/

/--
Do `n` steps from a class to one of its parents lead from `name` to `other`? Only declared classes have
parents.
-/
inductive Ascends (table : SymbolTable) (name : String) : Nat → String → Prop where
  | refl : Ascends table name 0 name
  | step {n other c parent} : Ascends table name n other → table.class? other = some c → parent ∈ c.parents →
      Ascends table name (n + 1) parent

variable {table : SymbolTable} {name other parent : String} {n k : Nat} {seen now next queue : List String}

theorem parents_of_some {c : ClassType} (h : table.class? name = some c) : table.parents name = c.parents := by
  rw [parents, h]

theorem parents_of_none (h : table.class? name = none) : table.parents name = [] := by
  rw [parents, h]

theorem mem_parents_iff : parent ∈ table.parents name ↔ ∃ c, table.class? name = some c ∧ parent ∈ c.parents := by
  cases h : table.class? name with
  | none => simp [parents_of_none h]
  | some c => simp [parents_of_some h]

theorem Ascends.up (h : table.Ascends name n other) (hparent : parent ∈ table.parents other)
    : table.Ascends name (n + 1) parent := by
  obtain ⟨c, hc, hmem⟩ := mem_parents_iff.1 hparent
  exact .step h hc hmem

theorem ascends_zero_iff : table.Ascends name 0 other ↔ other = name := by
  constructor
  · rintro ⟨⟩
    rfl
  · rintro rfl
    exact .refl

theorem ascends_succ_iff
    : table.Ascends name (n + 1) parent ↔ ∃ other, table.Ascends name n other ∧ parent ∈ table.parents other := by
  constructor
  · intro h
    cases h with
    | step h hc hmem => exact ⟨_, h, mem_parents_iff.2 ⟨_, hc, hmem⟩⟩
  · rintro ⟨other, h, hparent⟩
    exact h.up hparent

/-! ### Rounds -/

/--
The state of the search in generation `n`: the names in `now` are parents of the generation before, those in
`next` are parents of this one. Everything nearer has been seen.
-/
structure Searching (table : SymbolTable) (name : String) (n : Nat) (seen now next : List String) : Prop where
  nodup : (name :: seen).Nodup
  nearest_first : seen.Pairwise fun first second =>
    ∀ k, table.Ascends name k second → ∃ j ≤ k, table.Ascends name j first
  seen_ascends : ∀ other ∈ seen, ∃ k < n, table.Ascends name (k + 1) other
  now_ascends : ∀ other ∈ now, table.Ascends name n other
  next_ascends : ∀ other ∈ next, table.Ascends name (n + 1) other
  nearer_seen : ∀ k < n, ∀ other, table.Ascends name k other → other ∈ name :: seen
  generation_found : ∀ other, table.Ascends name n other → other ∈ name :: seen ∨ other ∈ now
  parents_found : ∀ other ∈ name :: seen, ∀ parent ∈ table.parents other,
    parent ∈ name :: seen ∨ parent ∈ now ∨ parent ∈ next

namespace Searching

theorem init : table.Searching name 1 [] (table.parents name) [] where
  nodup := by simp
  nearest_first := .nil
  seen_ascends := by simp
  now_ascends := fun _ h => Ascends.refl.up h
  next_ascends := by simp
  nearer_seen k hk other h := by
    obtain rfl : k = 0 := by omega
    simp [ascends_zero_iff.1 h]
  generation_found parent h := by
    obtain ⟨other, hother, hparent⟩ := ascends_succ_iff.1 h
    rw [ascends_zero_iff.1 hother] at hparent
    exact .inr hparent
  parents_found := by
    simp +contextual

theorem seen_or_waits {before after : List String} (hsub : before ⊆ after) (hparent : parent ∈ after)
    (h : other ∈ before ∨ other ∈ parent :: now)
    : other ∈ after ∨ other ∈ now := by
  cases h with
  | inl h => exact .inl (hsub h)
  | inr h =>
    cases h with
    | head => exact .inl hparent
    | tail _ h => exact .inr h

theorem skip (h : table.Searching name n seen (parent :: now) next) (hparent : parent ∈ name :: seen)
    : table.Searching name n seen now next := by
  have hwaits : ∀ other, other ∈ name :: seen ∨ other ∈ parent :: now → other ∈ name :: seen ∨ other ∈ now :=
    fun _ => seen_or_waits (List.Subset.refl _) hparent
  exact { h with
    now_ascends := fun other hother => h.now_ascends other (.tail _ hother)
    generation_found := fun other hother => hwaits other (h.generation_found other hother)
    parents_found := fun other hother p hp =>
      or_assoc.1 ((or_assoc.2 (h.parents_found other hother p hp)).imp_left (hwaits p)) }

theorem nearest_of_unseen (h : table.Searching name n seen now next) (hparent : parent ∉ name :: seen)
    : ∀ first ∈ seen, ∀ k, table.Ascends name k parent → ∃ j ≤ k, table.Ascends name j first := by
  intro first hfirst k hk
  obtain ⟨j, hj, hascends⟩ := h.seen_ascends first hfirst
  have hle : n ≤ k := Nat.le_of_not_lt fun hlt => hparent (h.nearer_seen k hlt parent hk)
  exact ⟨j + 1, by omega, hascends⟩

theorem visit (h : table.Searching name n seen (parent :: now) next) (hparent : parent ∉ name :: seen)
    : table.Searching name n (seen ++ [parent]) now (next ++ table.parents parent) := by
  have hascends := h.now_ascends parent (.head _)
  -- The zeroth generation is the class itself, which has been seen.
  obtain ⟨k, rfl⟩ : ∃ k, n = k + 1 := by
    cases n with
    | zero => exact absurd (ascends_zero_iff.1 hascends) (List.ne_of_not_mem_cons hparent)
    | succ k => exact ⟨k, rfl⟩
  have hsub : name :: seen ⊆ name :: (seen ++ [parent]) := List.subset_append_left (name :: seen) [parent]
  have hwaits : ∀ other, other ∈ name :: seen ∨ other ∈ parent :: now →
      other ∈ name :: (seen ++ [parent]) ∨ other ∈ now := fun _ =>
    seen_or_waits hsub (List.mem_append_right (name :: seen) (.head _))
  refine
    { nodup := ?_
      nearest_first := ?_
      seen_ascends := ?_
      now_ascends := fun other hother => h.now_ascends other (.tail _ hother)
      next_ascends := ?_
      nearer_seen := fun j hj other hother => hsub (h.nearer_seen j hj other hother)
      generation_found := fun other hother => hwaits other (h.generation_found other hother)
      parents_found := ?_ }
  · rw [← List.cons_append, List.nodup_append]
    refine ⟨h.nodup, by simp, ?_⟩
    intro other hother p hp heq
    rw [List.mem_singleton.1 hp] at heq
    exact hparent (heq ▸ hother)
  · rw [List.pairwise_append]
    exact ⟨h.nearest_first, by simp, by simpa using h.nearest_of_unseen hparent⟩
  · intro other hother
    rw [List.mem_append, List.mem_singleton] at hother
    cases hother with
    | inl hother => exact h.seen_ascends other hother
    | inr heq => exact ⟨k, by omega, heq ▸ hascends⟩
  · intro other hother
    rw [List.mem_append] at hother
    exact hother.elim (h.next_ascends other) hascends.up
  · intro other hother p hp
    rw [← List.cons_append, List.mem_append, List.mem_singleton] at hother
    rw [List.mem_append, ← or_assoc, ← or_assoc]
    cases hother with
    | inl hother => exact .inl ((or_assoc.2 (h.parents_found other hother p hp)).imp_left (hwaits p))
    | inr heq => exact .inr (heq ▸ hp)

theorem ascend (h : table.Searching name n seen [] next) : table.Searching name (n + 1) seen next [] := by
  have hdone : ∀ other, table.Ascends name n other → other ∈ name :: seen := by
    simpa using h.generation_found
  have hparents : ∀ other ∈ name :: seen, ∀ parent ∈ table.parents other, parent ∈ name :: seen ∨ parent ∈ next := by
    simpa using h.parents_found
  refine { h with
    seen_ascends := ?_
    now_ascends := h.next_ascends
    next_ascends := by simp
    nearer_seen := ?_
    generation_found := ?_
    parents_found := fun other hother p hp => (hparents other hother p hp).imp_right .inl }
  · intro other hother
    obtain ⟨k, hk, hascends⟩ := h.seen_ascends other hother
    exact ⟨k, by omega, hascends⟩
  · intro k hk other hother
    cases Nat.lt_or_eq_of_le (Nat.le_of_lt_succ hk) with
    | inl hlt => exact h.nearer_seen k hlt other hother
    | inr heq => exact hdone other (heq ▸ hother)
  · intro parent hparent
    obtain ⟨other, hother, hmem⟩ := ascends_succ_iff.1 hparent
    exact hparents other (hdone other hother) parent hmem

theorem exists_queue (h : table.Searching name n seen now next) (hqueue : now ++ next = parent :: queue)
    : ∃ m now' next', table.Searching name m seen (parent :: now') next' ∧ queue = now' ++ next' := by
  cases now with
  | cons p now =>
    obtain ⟨rfl, rfl⟩ := List.cons.inj hqueue
    exact ⟨n, now, next, h, rfl⟩
  | nil =>
    rw [List.nil_append] at hqueue
    subst hqueue
    exact ⟨n + 1, queue, [], h.ascend, by simp⟩

theorem ancestorsFrom (h : table.Searching name n seen now next)
    : ∃ m, table.Searching name m (table.ancestorsFrom name seen (now ++ next)) [] [] := by
  generalize hqueue : now ++ next = queue
  induction seen, queue using ancestorsFrom.induct table name generalizing n now next with
  | case1 seen =>
    obtain ⟨rfl, rfl⟩ := List.append_eq_nil_iff.1 hqueue
    rw [SymbolTable.ancestorsFrom]
    exact ⟨n, h⟩
  | case2 seen parent queue hseen ih =>
    obtain ⟨m, now, next, h, rfl⟩ := h.exists_queue hqueue
    rw [SymbolTable.ancestorsFrom, dif_pos hseen]
    exact ih (h.skip (by simpa [or_comm] using hseen)) rfl
  | case3 seen parent queue hseen ih =>
    obtain ⟨m, now, next, h, rfl⟩ := h.exists_queue hqueue
    rw [SymbolTable.ancestorsFrom, dif_neg hseen]
    exact ih (h.visit (by simpa [or_comm] using hseen)) (List.append_assoc ..).symm

theorem mem_of_ascends (h : table.Searching name n seen [] []) (hother : table.Ascends name k other)
    : other ∈ name :: seen := by
  induction hother with
  | refl => exact .head _
  | step _ hc hmem ih => simpa using h.parents_found _ ih _ (mem_parents_iff.2 ⟨_, hc, hmem⟩)

end Searching

theorem exists_searching (table : SymbolTable) (name : String)
    : ∃ n, table.Searching name n (table.ancestors name) [] [] := by
  obtain ⟨n, h⟩ := (@Searching.init table name).ancestorsFrom
  rw [List.append_nil] at h
  exact ⟨n, h⟩

/-! ### Termination -/

def ancestorsWithin (table : SymbolTable) (name : String)
    : (rounds : Nat) → (seen queue : List String) → Option (List String)
  | _, seen, [] => some seen
  | 0, _, _ :: _ => none
  | rounds + 1, seen, parent :: queue =>
    if parent ∈ seen ∨ parent = name then table.ancestorsWithin name rounds seen queue
    else table.ancestorsWithin name rounds (seen ++ [parent]) (queue ++ table.parents parent)

def declaredParents (table : SymbolTable) : List String :=
  table.classes.flatMap (·.parents)

def unseenParents (seen : List String) (classes : List ClassType) : List String :=
  (classes.filter (·.name ∉ seen)).flatMap (·.parents)

theorem unseenParents_append_sublist (seen : List String) (parent : String) (classes : List ClassType)
    : (unseenParents (seen ++ [parent]) classes).Sublist (unseenParents seen classes) := by
  apply List.Sublist.flatMap
  apply List.monotone_filter_right
  intro c hc
  simp only [List.mem_append, not_or, decide_eq_true_eq] at hc ⊢
  exact hc.1

theorem length_unseenParents_append (hparent : parent ∉ seen)
    : (unseenParents (seen ++ [parent]) table.classes).length + (table.parents parent).length
        ≤ (unseenParents seen table.classes).length := by
  have hle := fun classes => (unseenParents_append_sublist seen parent classes).length_le
  cases hc : table.class? parent with
  | none =>
    rw [parents_of_none hc]
    exact hle table.classes
  | some c =>
    have hname : c.name = parent := by simpa using List.find?_some hc
    obtain ⟨init, rest, hclasses⟩ := List.append_of_mem (List.mem_of_find?_eq_some hc)
    have hinit := hle init
    have hrest := hle rest
    have hkept : unseenParents seen (init ++ c :: rest)
        = unseenParents seen init ++ (c.parents ++ unseenParents seen rest) := by
      simp [unseenParents, hname, hparent]
    have hdropped : unseenParents (seen ++ [parent]) (init ++ c :: rest)
        = unseenParents (seen ++ [parent]) init ++ unseenParents (seen ++ [parent]) rest := by
      simp [unseenParents, hname]
    rw [parents_of_some hc, hclasses, hkept, hdropped]
    simp only [List.length_append]
    omega

theorem length_parents_le (table : SymbolTable) (name : String)
    : (table.parents name).length + (unseenParents [name] table.classes).length ≤ table.declaredParents.length := by
  have h := @length_unseenParents_append table name [] (by simp)
  have hall : unseenParents [] table.classes = table.declaredParents := by
    simp [unseenParents, declaredParents]
  rw [hall] at h
  rw [Nat.add_comm]
  exact h

theorem ancestorsWithin_eq {rounds : Nat}
    (h : queue.length + (unseenParents (name :: seen) table.classes).length ≤ rounds)
    : table.ancestorsWithin name rounds seen queue = some (table.ancestorsFrom name seen queue) := by
  induction seen, queue using ancestorsFrom.induct table name generalizing rounds with
  | case1 seen => rw [ancestorsWithin, ancestorsFrom]
  | case2 seen parent queue hseen ih =>
    rw [List.length_cons] at h
    obtain ⟨rounds, rfl⟩ := Nat.exists_eq_add_of_le' (show 1 ≤ rounds by omega)
    rw [ancestorsWithin, if_pos hseen, ancestorsFrom, dif_pos hseen]
    exact ih (by omega)
  | case3 seen parent queue hseen ih =>
    have hcount := @length_unseenParents_append table parent (name :: seen) (by simpa [or_comm] using hseen)
    rw [List.length_cons] at h
    obtain ⟨rounds, rfl⟩ := Nat.exists_eq_add_of_le' (show 1 ≤ rounds by omega)
    rw [ancestorsWithin, if_neg hseen, ancestorsFrom, dif_neg hseen]
    apply ih
    rw [List.length_append, ← List.cons_append]
    omega

/--
The search for ancestors ends, after no more rounds than there are parents in the table. It finds the names
that one or more steps to a parent lead to, each once and without the name itself, and no name stands before
one that fewer steps lead to.
-/
theorem ancestors_nearest_first (table : SymbolTable) (name : String)
    : (∀ rounds ≥ table.declaredParents.length,
        table.ancestorsWithin name rounds [] (table.parents name) = some (table.ancestors name)) ∧
      (table.ancestors name).Nodup ∧
      (∀ other, other ∈ table.ancestors name ↔ other ≠ name ∧ ∃ n, table.Ascends name (n + 1) other) ∧
      (table.ancestors name).Pairwise fun first second =>
        ∀ n, table.Ascends name n second → ∃ m ≤ n, table.Ascends name m first := by
  obtain ⟨n, h⟩ := exists_searching table name
  obtain ⟨hname, hnodup⟩ := List.nodup_cons.1 h.nodup
  refine ⟨?_, hnodup, fun other => ⟨?_, ?_⟩, h.nearest_first⟩
  · exact fun rounds hrounds => ancestorsWithin_eq (Nat.le_trans (table.length_parents_le name) hrounds)
  · intro hother
    obtain ⟨k, -, hascends⟩ := h.seen_ascends other hother
    exact ⟨fun heq => hname (heq ▸ hother), k, hascends⟩
  · rintro ⟨hne, k, hascends⟩
    exact (List.mem_cons.1 (h.mem_of_ascends hascends)).resolve_left hne

def bats : SymbolTable where
  classes := [{ name := "bat", parents := ["mammal", "flyer"] }, { name := "mammal", parents := ["animal"] },
    { name := "flyer", parents := ["animal", "bat", "wing"] }]

example : bats.ancestors "bat" = ["mammal", "flyer", "animal", "wing"] := by
  cbv

end SymbolTable

end LuaTypes
