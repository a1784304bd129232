import Mathlib.Tactic.Choose
import LuaTypes.Proofs.Assignability.Rules
import LuaTypes.Proofs.TypeExpr.Induction

/-!
Wider targets. What fits a type fits each type that has more alternatives in its place, or more for the
elements of an array. The source may be anything, and its aliases may refer to themselves: a target is
widened under whatever is being expanded.
-/

namespace LuaTypes

namespace TypeExpr

/--
A type is below another one that has more alternatives, at any depth of unions, optionals and arrays. Between
unions, `above` chooses a member that each member is below.
-/
inductive Below : TypeExpr → TypeExpr → Prop where
  | refl {t} : Below t t
  | member {t u members} : u ∈ members → Below t u → Below t (.union members)
  | optional {t u} : Below t u → Below t (.optional u)
  | union {members wider} (above : TypeExpr → TypeExpr) : (∀ t ∈ members, above t ∈ wider) →
      (∀ t ∈ members, Below t (above t)) → Below (.union members) (.union wider)
  | inner {t u} : Below t u → Below (.optional t) (.optional u)
  | element {t u} : Below t u → Below (.array t) (.array u)

theorem Below.union_of_exists {members wider : List TypeExpr} (h : ∀ t ∈ members, ∃ u ∈ wider, Below t u)
    : Below (.union members) (.union wider) := by
  choose! above hmem hbelow using h
  exact .union above hmem hbelow

end TypeExpr

namespace SymbolTable

open TypeExpr

variable {table : SymbolTable} {expanding : List String} {s t t' : TypeExpr} {name : String}

theorem accepts_of_below_single (hs : s.isChoice = false) (htop : s.isTop = false)
    (helements : ∀ t t', Below t t' → table.accepts expanding s (.array t) = true →
      table.accepts expanding s (.array t') = true)
    (h : Below t t') (haccepts : table.accepts expanding s t = true)
    : table.accepts expanding s t' = true := by
  induction h with
  | refl => exact haccepts
  | member hu _ ih =>
    rw [accepts_union_right hs htop, List.any_eq_true]
    exact ⟨_, hu, ih haccepts⟩
  | optional _ ih => rw [accepts_optional_right hs, ih haccepts, Bool.or_true]
  | union above hmem _ ih =>
    rw [accepts_union_right hs htop, List.any_eq_true] at haccepts ⊢
    obtain ⟨t, ht, haccepts⟩ := haccepts
    exact ⟨above t, hmem t ht, ih t ht haccepts⟩
  | inner _ ih =>
    rw [accepts_optional_right hs, Bool.or_eq_true] at haccepts ⊢
    exact haccepts.imp_right ih
  | element h _ => exact helements _ _ h haccepts

theorem accepts_of_below_alone (hs : s.isChoice = false) (htop : s.isTop = false)
    (hnone : table.expansion? expanding s = none) (harray : ∀ a, s ≠ .array a) (h : Below t t')
    (haccepts : table.accepts expanding s t = true)
    : table.accepts expanding s t' = true := by
  have hbare : ∀ t, table.Bare expanding s (.array t) := fun t =>
    ⟨hs, rfl, htop, rfl, hnone, rfl, fun a _ ha => absurd ha (harray a)⟩
  apply accepts_of_below_single hs htop _ h haccepts
  intro t t' _ harrays
  rw [(hbare t).accepts_eq] at harrays
  rw [(hbare t').accepts_eq]
  exact harrays

theorem accepts_of_below_named
    (hdefinition : ∀ u, table.expansion? expanding (.named name) = some (name, u) → ∀ t t', Below t t' →
      table.accepts (name :: expanding) u t = true → table.accepts (name :: expanding) u t' = true)
    (h : Below t t') (haccepts : table.accepts expanding (.named name) t = true)
    : table.accepts expanding (.named name) t' = true := by
  by_cases htop : (TypeExpr.named name).isTop = true
  · exact accepts_of_isTop_left htop
  rw [Bool.not_eq_true] at htop
  cases hexp : table.expansion? expanding (.named name) with
  | none => exact accepts_of_below_alone rfl htop hexp (by simp) h haccepts
  | some r =>
    obtain ⟨other, u⟩ := r
    obtain ⟨⟨⟩, -, -⟩ := expansion?_eq_some_iff.1 hexp
    apply accepts_of_below_single rfl htop _ h haccepts
    intro t t' h haccepts
    rw [accepts_of_expansion_left rfl htop rfl hexp] at haccepts ⊢
    exact hdefinition u hexp _ _ (.element h) haccepts

theorem accepts_of_below (h : Below t t') (haccepts : table.accepts expanding s t = true)
    : table.accepts expanding s t' = true := by
  -- A definition may be of any size, but it uses an alias up; everything else makes the source smaller.
  induction hn : table.unexpanded expanding using Nat.strongRecOn generalizing expanding s t t' with
  | ind n ihn =>
    have hnamed : ∀ {name t t'}, Below t t' → table.accepts expanding (.named name) t = true →
        table.accepts expanding (.named name) t' = true := fun h haccepts =>
      accepts_of_below_named
        (fun u hexp _ _ h haccepts => ihn _ (hn ▸ table.unexpanded_cons_lt hexp) h haccepts rfl) h haccepts
    induction s generalizing t t' with
    | named name => exact hnamed h haccepts
    | union members ih =>
      rw [accepts_union_left, List.all_eq_true] at haccepts ⊢
      exact fun s hs => ih s hs h (haccepts s hs)
    | optional inner ih =>
      rw [accepts_optional_left, Bool.and_eq_true] at haccepts ⊢
      exact ⟨hnamed h haccepts.1, ih h haccepts.2⟩
    | array element ih =>
      apply accepts_of_below_single rfl rfl _ h haccepts
      intro t t' h haccepts
      rw [accepts_array] at haccepts ⊢
      exact ih h haccepts
    | vararg => exact accepts_of_isTop_left rfl
    | literal => exact accepts_of_below_alone rfl rfl rfl (by simp) h haccepts
    | generic => exact accepts_of_below_alone rfl rfl rfl (by simp) h haccepts
    | function => exact accepts_of_below_alone rfl rfl rfl (by simp) h haccepts
    | table => exact accepts_of_below_alone rfl rfl rfl (by simp) h haccepts

/--
What fits a target fits every wider target.
-/
theorem assignable_of_below (h : Below t t') (hs : table.assignable s t = true) : table.assignable s t' = true :=
  accepts_of_below h hs

def trees : SymbolTable where
  aliases := [{ name := "leaf", base := some (.literal (.string "leaf")) },
    { name := "tree", base := some (.union [.named "string", .array (.named "tree")]) }]

theorem assignable_of_below_tree
    : Below (.union [.named "string", .array (.named "tree")])
        (.optional (.union [.array (.union [.named "number", .named "tree"]), .named "string"])) ∧
      trees.assignable (.union [.named "leaf", .array (.named "leaf")])
        (.union [.named "string", .array (.named "tree")]) = true ∧
      trees.assignable (.union [.named "leaf", .array (.named "leaf")])
        (.optional (.union [.array (.union [.named "number", .named "tree"]), .named "string"])) = true := by
  have hbelow : Below (.union [.named "string", .array (.named "tree")])
      (.optional (.union [.array (.union [.named "number", .named "tree"]), .named "string"])) := by
    apply Below.optional
    apply Below.union_of_exists
    intro t ht
    obtain rfl | rfl : t = .named "string" ∨ t = .array (.named "tree") := by simpa using ht
    · exact ⟨.named "string", .tail _ (.head _), .refl⟩
    · exact ⟨.array (.union [.named "number", .named "tree"]), .head _, .element (.member (.tail _ (.head _)) .refl)⟩
  have hs : trees.assignable (.union [.named "leaf", .array (.named "leaf")])
      (.union [.named "string", .array (.named "tree")]) = true := by
    cbv
  exact ⟨hbelow, hs, assignable_of_below hbelow hs⟩

end SymbolTable

end LuaTypes
