import LuaTypes.Proofs.Assignability.Acyclic
import LuaTypes.Proofs.SymbolTable.Lookup

/-!
Unfolded targets. Where no alias leads back to itself, a source without aliases fits a target exactly if
it fits the target with all its aliases unfolded first.
-/

namespace LuaTypes

namespace SymbolTable

open TypeExpr

def withoutAliases (table : SymbolTable) : SymbolTable :=
  { table with aliases := [] }

section

variable (table : SymbolTable)

mutual

/--
The type with the definition of each alias in place of its name, unfolded in turn. The names that go with
every type stay, and an alias is kept within its own definition.
-/
def unfoldFrom (expanding : List String) : TypeExpr → TypeExpr
  | .named name =>
    if (TypeExpr.named name).isTop then .named name
    else match _h : table.expansion? expanding (.named name) with
      | some (other, t) => unfoldFrom (other :: expanding) t
      | none => .named name
  | .literal value => .literal value
  | .union members => .union (unfoldEach expanding members)
  | .optional inner => .optional (unfoldFrom expanding inner)
  | .array element => .array (unfoldFrom expanding element)
  | .generic name args => .generic name (unfoldEach expanding args)
  | .function params returns isAsync =>
    .function (unfoldParams expanding params) (unfoldEach expanding returns) isAsync
  | .table fields => .table (unfoldFields expanding fields)
  | .vararg => .vararg
termination_by t => (table.unexpanded expanding, sizeOf t)
decreasing_by
  · exact Prod.Lex.left _ _ (table.unexpanded_cons_lt _h)
  all_goals exact Prod.Lex.right _ (by simp; try omega)

def unfoldEach (expanding : List String) : List TypeExpr → List TypeExpr
  | [] => []
  | t :: ts => unfoldFrom expanding t :: unfoldEach expanding ts
termination_by ts => (table.unexpanded expanding, sizeOf ts)
decreasing_by
  all_goals exact Prod.Lex.right _ (by simp; try omega)

def unfoldOption (expanding : List String) : Option TypeExpr → Option TypeExpr
  | none => none
  | some t => some (unfoldFrom expanding t)
termination_by o => (table.unexpanded expanding, sizeOf o)
decreasing_by
  all_goals exact Prod.Lex.right _ (by simp)

def unfoldParams (expanding : List String) : List (Param TypeExpr) → List (Param TypeExpr)
  | [] => []
  | ⟨name, type, isOptional⟩ :: ps =>
    ⟨name, unfoldOption expanding type, isOptional⟩ :: unfoldParams expanding ps
termination_by ps => (table.unexpanded expanding, sizeOf ps)
decreasing_by
  all_goals exact Prod.Lex.right _ (by simp; try omega)

def unfoldFields (expanding : List String) : List (TypeExpr.Field TypeExpr) → List (TypeExpr.Field TypeExpr)
  | [] => []
  | ⟨name, key, type, isOptional⟩ :: fs =>
    ⟨name, unfoldOption expanding key, unfoldFrom expanding type, isOptional⟩ :: unfoldFields expanding fs
termination_by fs => (table.unexpanded expanding, sizeOf fs)
decreasing_by
  all_goals exact Prod.Lex.right _ (by simp; try omega)

end

def unfold (t : TypeExpr) : TypeExpr :=
  table.unfoldFrom [] t

end

variable {table : SymbolTable} {expanding expanding' : List String} {s t u : TypeExpr}
  {name other : String}

/-! ### Equations -/

theorem unfoldEach_eq_map (ts : List TypeExpr)
    : table.unfoldEach expanding ts = ts.map (table.unfoldFrom expanding) := by
  induction ts with
  | nil => rw [unfoldEach, List.map_nil]
  | cons t ts ih => rw [unfoldEach, ih, List.map_cons]

theorem unfoldFrom_of_isTop (h : t.isTop = true) : table.unfoldFrom expanding t = t := by
  cases t with
  | named name => rw [unfoldFrom, if_pos h]
  | vararg => rw [unfoldFrom]
  | _ => cases h

theorem unfoldFrom_of_expansion (htop : (TypeExpr.named name).isTop = false)
    (h : table.expansion? expanding (.named name) = some (name, u))
    : table.unfoldFrom expanding (.named name) = table.unfoldFrom (name :: expanding) u := by
  rw [unfoldFrom, if_neg (by simp [htop])]
  split
  next heq => rw [h] at heq; cases heq; rfl
  next heq => rw [h] at heq; cases heq

theorem unfoldFrom_of_none (h : table.expansion? expanding (.named name) = none)
    : table.unfoldFrom expanding (.named name) = .named name := by
  rw [unfoldFrom]
  split
  · rfl
  · split
    next heq => rw [h] at heq; cases heq
    next => rfl

theorem unfoldOption_eq_map (o : Option TypeExpr)
    : table.unfoldOption expanding o = o.map (table.unfoldFrom expanding) := by
  cases o with
  | none => rw [unfoldOption]; rfl
  | some t => rw [unfoldOption]; rfl

theorem unfoldParams_eq_map (ps : List (Param TypeExpr))
    : table.unfoldParams expanding ps
        = ps.map fun p => ⟨p.name, p.type.map (table.unfoldFrom expanding), p.optional⟩ := by
  induction ps with
  | nil => rw [unfoldParams, List.map_nil]
  | cons p ps ih => rw [unfoldParams, ih, List.map_cons, unfoldOption_eq_map]

theorem unfoldFields_eq_map (fs : List (TypeExpr.Field TypeExpr))
    : table.unfoldFields expanding fs
        = fs.map fun f =>
            ⟨f.name, f.key.map (table.unfoldFrom expanding), table.unfoldFrom expanding f.type, f.optional⟩ := by
  induction fs with
  | nil => rw [unfoldFields, List.map_nil]
  | cons f fs ih => rw [unfoldFields, ih, List.map_cons, unfoldOption_eq_map]

/-! ### Guards -/

theorem unfoldFrom_congr (hacyclic : table.Acyclic) (h : table.Clear expanding t) (h' : table.Clear expanding' t)
    : table.unfoldFrom expanding t = table.unfoldFrom expanding' t := by
  -- A definition can be larger than its name, so the aliases that are left decrease first, then the type.
  induction hn : table.unexpanded expanding using Nat.strongRecOn generalizing expanding expanding' t with
  | ind n ihn =>
    induction t with
    | named name =>
      by_cases htop : (TypeExpr.named name).isTop = true
      · rw [unfoldFrom_of_isTop htop, unfoldFrom_of_isTop htop]
      · rw [Bool.not_eq_true] at htop
        cases hu : table.expandAlias? name with
        | none =>
          have hnone : ∀ other, TypeExpr.named name = .named other → table.expandAlias? other = none := by
            rintro _ ⟨⟩
            exact hu
          rw [unfoldFrom_of_none (h.expansion?_eq_none_iff.2 hnone),
            unfoldFrom_of_none (h'.expansion?_eq_none_iff.2 hnone)]
        | some u =>
          have hexp := expansion?_eq_some_iff.2 ⟨rfl, h.notMem hu, hu⟩
          have hexp' := expansion?_eq_some_iff.2 ⟨rfl, h'.notMem hu, hu⟩
          rw [unfoldFrom_of_expansion htop hexp, unfoldFrom_of_expansion htop hexp']
          exact ihn _ (hn ▸ table.unexpanded_cons_lt hexp) (h.definition hacyclic hu) (h'.definition hacyclic hu) rfl
    | literal => rw [unfoldFrom, unfoldFrom]
    | vararg => rw [unfoldFrom, unfoldFrom]
    | union members ih =>
      rw [unfoldFrom, unfoldFrom, unfoldEach_eq_map, unfoldEach_eq_map]
      congr 1
      apply List.map_congr_left
      intro t ht
      have hocc := fun v (hv : Occurs v t) => Occurs.member ht hv
      exact ih t ht (h.of_occurs hocc) (h'.of_occurs hocc)
    | optional inner ih =>
      have hocc := fun v (hv : Occurs v inner) => Occurs.inner hv
      rw [unfoldFrom, unfoldFrom, ih (h.of_occurs hocc) (h'.of_occurs hocc)]
    | array element ih =>
      have hocc := fun v (hv : Occurs v element) => Occurs.element hv
      rw [unfoldFrom, unfoldFrom, ih (h.of_occurs hocc) (h'.of_occurs hocc)]
    | generic name args ih =>
      rw [unfoldFrom, unfoldFrom, unfoldEach_eq_map, unfoldEach_eq_map]
      congr 1
      apply List.map_congr_left
      intro t ht
      have hocc := fun v (hv : Occurs v t) => @Occurs.argument v t name args ht hv
      exact ih t ht (h.of_occurs hocc) (h'.of_occurs hocc)
    | function params returns isAsync ihp ihr =>
      rw [unfoldFrom, unfoldFrom, unfoldEach_eq_map, unfoldEach_eq_map, unfoldParams_eq_map, unfoldParams_eq_map]
      congr 1
      · apply List.map_congr_left
        intro p hp
        congr 1
        apply Option.map_congr
        intro t ht
        have hocc := fun v (hv : Occurs v t) => @Occurs.param v p t params returns isAsync hp ht hv
        exact ihp p hp t ht (h.of_occurs hocc) (h'.of_occurs hocc)
      · apply List.map_congr_left
        intro t ht
        have hocc := fun v (hv : Occurs v t) => @Occurs.result v t params returns isAsync ht hv
        exact ihr t ht (h.of_occurs hocc) (h'.of_occurs hocc)
    | table fields ih =>
      rw [unfoldFrom, unfoldFrom, unfoldFields_eq_map, unfoldFields_eq_map]
      congr 1
      apply List.map_congr_left
      intro f hf
      congr 1
      · apply Option.map_congr
        intro t ht
        have hocc := fun v (hv : Occurs v t) => Occurs.key hf ht hv
        exact (ih f hf).1 t ht (h.of_occurs hocc) (h'.of_occurs hocc)
      · have hocc := fun v (hv : Occurs v f.type) => Occurs.value hf hv
        exact (ih f hf).2 (h.of_occurs hocc) (h'.of_occurs hocc)

theorem unfold_named (hacyclic : table.Acyclic) (htop : (TypeExpr.named name).isTop = false)
    (hu : table.expandAlias? name = some u)
    : table.unfold (.named name) = table.unfold u := by
  have hclear := (@clear_nil table (.named name)).definition hacyclic hu
  unfold unfold
  rw [unfoldFrom_of_expansion htop (expansion?_eq_some_iff.2 ⟨rfl, by simp, hu⟩)]
  exact unfoldFrom_congr hacyclic hclear clear_nil

/-! ### Comparison -/

theorem expansion?_withoutAliases : table.withoutAliases.expansion? expanding t = none := by
  cases t with
  | named name => simp [expansion?, expandAlias?, alias?, withoutAliases]
  | _ => rfl

theorem class?_withoutAliases (n : String) : table.withoutAliases.class? n = table.class? n :=
  rfl

theorem fits_unfoldFrom (ht : t.isChoice = false) (hnone : table.expansion? expanding t = none)
    : table.withoutAliases.fits s (table.unfoldFrom expanding t) = table.fits s t := by
  cases t with
  | union => cases ht
  | optional => cases ht
  | named name =>
    rw [unfoldFrom_of_none hnone]
    exact fitsName_congr class?_withoutAliases name
  | literal => rw [unfoldFrom]; rfl
  | array => rw [unfoldFrom]; exact isTableLike_congr class?_withoutAliases
  | generic => rw [unfoldFrom]; exact isTableLike_congr class?_withoutAliases
  | table => rw [unfoldFrom]; exact isTableLike_congr class?_withoutAliases
  | function => rw [unfoldFrom]; rfl
  | vararg => rw [unfoldFrom]; rfl

theorem Bare.unfoldFrom (h : table.Bare expanding s t)
    (hnone : table.expansion? expanding' t = none)
    : table.withoutAliases.Bare [] s (table.unfoldFrom expanding' t) := by
  obtain ⟨hchoice, hchoice', htop, htop', -, -, harrays⟩ := h
  refine ⟨hchoice, ?_, htop, ?_, expansion?_withoutAliases, expansion?_withoutAliases, ?_⟩
  all_goals
    cases t with
    | union => cases hchoice'
    | optional => cases hchoice'
    | named name => rw [unfoldFrom_of_none hnone]; first | rfl | exact htop' | exact fun _ _ _ => TypeExpr.noConfusion
    | array element => rw [SymbolTable.unfoldFrom]; first | rfl | exact fun a b ha _ => harrays a _ ha rfl
    | _ => rw [SymbolTable.unfoldFrom]; first | rfl | exact htop' | exact fun _ _ _ => TypeExpr.noConfusion

theorem accepts_unfoldFrom (hacyclic : table.Acyclic) (hnil : table.expandAlias? "nil" = none)
    (hs : table.AliasFree s) (ht : table.Clear expanding t) (ht' : table.Clear expanding' t)
    : table.withoutAliases.accepts [] s (table.unfoldFrom expanding' t) = table.accepts expanding s t := by
  -- An expansion of the target is one step of the unfolding; the source has nothing to expand.
  induction expanding, s, t using accepts_induction table generalizing expanding' with
  | @top _ s t htop =>
    rw [accepts_of_isTop htop]
    rw [Bool.or_eq_true] at htop
    cases htop with
    | inl htop => exact accepts_of_isTop_left htop
    | inr htop => rw [unfoldFrom_of_isTop htop, accepts_of_isTop_right htop]
  | unionSource ih =>
    rw [accepts_union_left, accepts_union_left]
    apply all_congr_of_mem
    intro s hmem
    exact ih s hmem (hs.of_occurs fun _ hv => .member hmem hv) ht ht'
  | optionalSource ihnil ih =>
    rw [accepts_optional_left, accepts_optional_left, ihnil (aliasFree_nil hnil) ht ht',
      ih (hs.of_occurs fun _ hv => .inner hv) ht ht']
  | @unionTarget _ s members hchoice htop ih =>
    rw [unfoldFrom, unfoldEach_eq_map, accepts_union_right hchoice htop, accepts_union_right hchoice htop,
      List.any_map]
    apply any_congr_of_mem
    intro t hmem
    have hocc := fun v (hv : Occurs v t) => Occurs.member hmem hv
    exact ih t hmem hs (ht.of_occurs hocc) (ht'.of_occurs hocc)
  | @optionalTarget _ s t hchoice ih =>
    have hocc := fun v (hv : Occurs v t) => Occurs.inner hv
    rw [unfoldFrom, accepts_optional_right hchoice, accepts_optional_right hchoice,
      ih hs (ht.of_occurs hocc) (ht'.of_occurs hocc)]
  | expandTarget hchoice _ htop hname hu ih =>
    rw [accepts_of_expansion_right hchoice htop (expansion?_eq_some_iff.2 ⟨rfl, hname, hu⟩),
      unfoldFrom_of_expansion htop (expansion?_eq_some_iff.2 ⟨rfl, ht'.notMem hu, hu⟩)]
    exact ih hs (ht.definition hacyclic hu) (ht'.definition hacyclic hu)
  | expandSource _ _ _ _ _ hu =>
    rw [hs _ .refl] at hu
    cases hu
  | @array _ s t ih =>
    have hocc := fun v (hv : Occurs v t) => Occurs.element hv
    rw [unfoldFrom, accepts_array, accepts_array]
    exact ih (hs.of_occurs fun _ hv => .element hv) (ht.of_occurs hocc) (ht'.of_occurs hocc)
  | @bare _ s t hbare =>
    have hnone := ht.expansion?_congr ht' hbare.target_none
    rw [hbare.accepts_eq, (hbare.unfoldFrom hnone).accepts_eq, fits_unfoldFrom hbare.target hnone]

/--
A source without aliases fits a target exactly if it fits the unfolded target.
-/
theorem assignable_unfold (hacyclic : table.Acyclic) (hnil : table.expandAlias? "nil" = none)
    : (∀ name u, (TypeExpr.named name).isTop = false → table.expandAlias? name = some u →
        table.unfold (.named name) = table.unfold u) ∧
      ∀ s t, table.AliasFree s → table.withoutAliases.assignable s (table.unfold t) = table.assignable s t := by
  constructor
  · exact fun name u htop hu => unfold_named hacyclic htop hu
  · exact fun s t hs => accepts_unfoldFrom hacyclic hnil hs clear_nil clear_nil

def sides : SymbolTable where
  aliases :=
    [{ name := "side", members := [⟨.literal (.string "left"), none⟩, ⟨.literal (.string "right"), none⟩] },
      { name := "output", base := some (.union [.named "side", .array (.named "side")]) }]

theorem assignable_unfold_sides
    : sides.Acyclic ∧ sides.expandAlias? "nil" = none ∧ sides.AliasFree (.literal (.string "left")) ∧
      sides.unfold (.named "output") = sides.unfold (.union [.named "side", .array (.named "side")]) ∧
      sides.withoutAliases.assignable (.literal (.string "left")) (sides.unfold (.named "output"))
        = sides.assignable (.literal (.string "left")) (.named "output") := by
  have hacyclic : sides.Acyclic := by
    apply Acyclic.of_rank fun name => if name = "output" then 2 else if name = "side" then 1 else 0
    decide
  have hfree : sides.AliasFree (.literal (.string "left")) := by
    intro name hname
    cases hname
  obtain ⟨hnamed, hassignable⟩ := assignable_unfold hacyclic rfl
  exact ⟨hacyclic, rfl, hfree, hnamed _ _ rfl rfl, hassignable _ _ hfree⟩

end SymbolTable

end LuaTypes
