import LuaTypes.Assignability

/-!
The rules of assignability. Each kind of source and target has one equation, and induction along the
rules names its cases after them. The alternatives of a source come first, then those of the target,
then the definitions of aliases.
-/

namespace LuaTypes

namespace TypeExpr

def isChoice : TypeExpr → Bool
  | .union _ => true
  | .optional _ => true
  | _ => false

@[simp]
theorem isTop_union (members : List TypeExpr) : (union members).isTop = false := rfl

@[simp]
theorem isTop_optional (inner : TypeExpr) : (optional inner).isTop = false := rfl

@[simp]
theorem isTop_array (element : TypeExpr) : (array element).isTop = false := rfl

theorem isChoice_eq_false {t : TypeExpr} (hunion : ∀ members, t = .union members → False)
    (hoptional : ∀ inner, t = .optional inner → False)
    : t.isChoice = false := by
  cases t with
  | union members => exact (hunion members rfl).elim
  | optional inner => exact (hoptional inner rfl).elim
  | _ => rfl

end TypeExpr

namespace SymbolTable

open TypeExpr

variable {table : SymbolTable} {expanding : List String} {s t u : TypeExpr} {name : String}

/-! ### Expansions -/

theorem expansion?_eq_some_iff
    : table.expansion? expanding t = some (name, u)
        ↔ t = .named name ∧ name ∉ expanding ∧ table.expandAlias? name = some u := by
  cases t with
  | named other =>
    by_cases h : other ∈ expanding
    · simp only [expansion?, List.contains_eq_mem, h, decide_true, if_true, reduceCtorEq, false_iff]
      rintro ⟨heq, hname, -⟩
      cases heq
      exact hname h
    · simp only [expansion?, List.contains_eq_mem, h, decide_false, Bool.false_eq_true, if_false,
        Option.map_eq_some_iff, Prod.mk.injEq, named.injEq]
      constructor
      · rintro ⟨u, hu, rfl, rfl⟩
        exact ⟨rfl, h, hu⟩
      · rintro ⟨rfl, -, hu⟩
        exact ⟨u, hu, rfl, rfl⟩
  | _ => simp [expansion?]

/-! ### Equations -/

theorem all_congr_of_mem {ts : List TypeExpr} {p q : TypeExpr → Bool} (h : ∀ t ∈ ts, p t = q t)
    : ts.all p = ts.all q := by
  rw [Bool.eq_iff_iff, List.all_eq_true, List.all_eq_true]
  exact forall₂_congr fun t ht => by rw [h t ht]

theorem any_congr_of_mem {ts : List TypeExpr} {p q : TypeExpr → Bool} (h : ∀ t ∈ ts, p t = q t)
    : ts.any p = ts.any q := by
  rw [Bool.eq_iff_iff, List.any_eq_true, List.any_eq_true]
  exact exists_congr fun t => and_congr_right fun ht => by rw [h t ht]

theorem accepts_of_isTop (h : (s.isTop || t.isTop) = true) : table.accepts expanding s t = true := by
  unfold accepts
  rw [if_pos h]

theorem accepts_of_isTop_left (h : s.isTop = true) : table.accepts expanding s t = true :=
  accepts_of_isTop (by rw [h, Bool.true_or])

theorem accepts_of_isTop_right (h : t.isTop = true) : table.accepts expanding s t = true :=
  accepts_of_isTop (by rw [h, Bool.or_true])

theorem allAccepted_eq (ss : List TypeExpr)
    : table.allAccepted expanding ss t = ss.all (table.accepts expanding · t) := by
  induction ss with
  | nil => simp [allAccepted]
  | cons s ss ih => rw [allAccepted, ih, List.all_cons]

theorem anyAccepts_eq (ts : List TypeExpr)
    : table.anyAccepts expanding s ts = ts.any (table.accepts expanding s) := by
  induction ts with
  | nil => simp [anyAccepts]
  | cons t ts ih => rw [anyAccepts, ih, List.any_cons]

theorem accepts_union_left (members : List TypeExpr)
    : table.accepts expanding (.union members) t = members.all (table.accepts expanding · t) := by
  by_cases h : t.isTop = true
  · rw [accepts_of_isTop_right h, eq_comm, List.all_eq_true]
    exact fun s _ => accepts_of_isTop_right h
  · conv => lhs; unfold accepts
    rw [if_neg (by simpa using h)]
    exact allAccepted_eq members

theorem accepts_optional_left
    : table.accepts expanding (.optional s) t
        = (table.accepts expanding .nil t && table.accepts expanding s t) := by
  by_cases h : t.isTop = true
  · rw [accepts_of_isTop_right h, accepts_of_isTop_right h, accepts_of_isTop_right h]
    rfl
  · conv => lhs; unfold accepts
    rw [if_neg (by simpa using h)]

theorem accepts_union_right (hs : s.isChoice = false) (htop : s.isTop = false) (members : List TypeExpr)
    : table.accepts expanding s (.union members) = members.any (table.accepts expanding s) := by
  unfold accepts
  rw [if_neg (by simpa using htop)]
  cases s with
  | union => cases hs
  | optional => cases hs
  | _ => exact anyAccepts_eq members

theorem accepts_optional_right (hs : s.isChoice = false)
    : table.accepts expanding s (.optional t) = (s.isNil || table.accepts expanding s t) := by
  by_cases htop : s.isTop = true
  · rw [accepts_of_isTop_left htop, accepts_of_isTop_left htop, Bool.or_true]
  · conv => lhs; unfold accepts
    rw [if_neg (by simpa using htop)]
    cases s with
    | union => cases hs
    | optional => cases hs
    | _ => rfl

theorem accepts_of_expansion_right (hs : s.isChoice = false) (htop : t.isTop = false)
    (h : table.expansion? expanding t = some (name, u))
    : table.accepts expanding s t = table.accepts (name :: expanding) s u := by
  by_cases hstop : s.isTop = true
  · rw [accepts_of_isTop_left hstop, accepts_of_isTop_left hstop]
  · obtain ⟨rfl, -, -⟩ := expansion?_eq_some_iff.1 h
    conv => lhs; unfold accepts
    rw [if_neg (by simp [htop, hstop])]
    cases s with
    | union => cases hs
    | optional => cases hs
    | _ =>
      dsimp only
      split
      next heq => rw [h] at heq; cases heq; rfl
      next heq => rw [h] at heq; cases heq

theorem accepts_of_expansion_left (ht : t.isChoice = false) (htop : s.isTop = false)
    (hnone : table.expansion? expanding t = none) (h : table.expansion? expanding s = some (name, u))
    : table.accepts expanding s t = table.accepts (name :: expanding) u t := by
  by_cases httop : t.isTop = true
  · rw [accepts_of_isTop_right httop, accepts_of_isTop_right httop]
  · obtain ⟨rfl, -, -⟩ := expansion?_eq_some_iff.1 h
    conv => lhs; unfold accepts
    rw [if_neg (by simp [htop, httop])]
    cases t with
    | union => cases ht
    | optional => cases ht
    | _ =>
      dsimp only
      split
      next heq => rw [hnone] at heq; cases heq
      next =>
        split
        next heq => rw [h] at heq; cases heq; rfl
        next heq => rw [h] at heq; cases heq

theorem accepts_array
    : table.accepts expanding (.array s) (.array t) = table.accepts expanding s t := by
  conv => lhs; unfold accepts
  rfl

/--
Are the types told apart by what they are alone, with no part or definition left to compare?
-/
structure Bare (table : SymbolTable) (expanding : List String) (s t : TypeExpr) : Prop where
  source : s.isChoice = false
  target : t.isChoice = false
  source_not_top : s.isTop = false
  target_not_top : t.isTop = false
  source_none : table.expansion? expanding s = none
  target_none : table.expansion? expanding t = none
  not_arrays : ∀ a b, s = .array a → t ≠ .array b

theorem Bare.accepts_eq (h : table.Bare expanding s t) : table.accepts expanding s t = table.fits s t := by
  obtain ⟨hs, ht, hstop, httop, hsource, htarget, harrays⟩ := h
  rw [accepts.eq_def, if_neg (by simp [hstop, httop])]
  cases s
  case union => cases hs
  case optional => cases hs
  case vararg => cases hstop
  all_goals
    cases t
    case union => cases ht
    case optional => cases ht
    case vararg => cases httop
    all_goals
      dsimp only
      split
      next heq => rw [htarget] at heq; cases heq
      next =>
        split
        next heq => rw [hsource] at heq; cases heq
        next => first | rfl | exact absurd rfl (harrays _ _ rfl)

/-! ### Induction -/

section

variable (table)

variable {P : List String → TypeExpr → TypeExpr → Prop}
  (top : ∀ {expanding s t}, (s.isTop || t.isTop) = true → P expanding s t)
  (unionSource : ∀ {expanding members t}, (∀ s ∈ members, P expanding s t) → P expanding (.union members) t)
  (optionalSource : ∀ {expanding s t}, P expanding .nil t → P expanding s t → P expanding (.optional s) t)
  (unionTarget : ∀ {expanding s members}, s.isChoice = false → s.isTop = false →
    (∀ t ∈ members, P expanding s t) → P expanding s (.union members))
  (optionalTarget : ∀ {expanding s t}, s.isChoice = false → P expanding s t → P expanding s (.optional t))
  (expandTarget : ∀ {expanding s name u}, s.isChoice = false → s.isTop = false →
    (TypeExpr.named name).isTop = false → name ∉ expanding → table.expandAlias? name = some u →
      P (name :: expanding) s u → P expanding s (.named name))
  (expandSource : ∀ {expanding t name u}, t.isChoice = false → t.isTop = false →
    (TypeExpr.named name).isTop = false → table.expansion? expanding t = none → name ∉ expanding →
      table.expandAlias? name = some u → P (name :: expanding) u t → P expanding (.named name) t)
  (array : ∀ {expanding s t}, P expanding s t → P expanding (.array s) (.array t))
  (bare : ∀ {expanding s t}, table.Bare expanding s t → P expanding s t)

include top unionSource optionalSource unionTarget optionalTarget expandTarget expandSource array bare

theorem accepts_induction (expanding : List String) (s t : TypeExpr) : P expanding s t := by
  -- The recursion also goes through lists of members, which satisfy `P` one by one.
  apply accepts.induct table P (fun expanding s ts => ∀ t ∈ ts, P expanding s t)
    (fun expanding ss t => ∀ s ∈ ss, P expanding s t)
  case case1 => exact fun _ _ _ h => top h
  case case2 => exact fun _ _ _ _ h => unionSource h
  case case3 => exact fun _ _ _ _ hnil h => optionalSource hnil h
  case case4 =>
    intro expanding s members hunion hoptional htop ih
    exact unionTarget (isChoice_eq_false hunion hoptional) (by simpa using htop) ih
  case case5 =>
    intro expanding s t hunion hoptional _ ih
    exact optionalTarget (isChoice_eq_false hunion hoptional) ih
  case case6 =>
    intro expanding s t hunion hoptional _ _ name u h htop ih
    obtain ⟨rfl, hname, hu⟩ := expansion?_eq_some_iff.1 h
    rw [Bool.not_eq_true, Bool.or_eq_false_iff] at htop
    exact expandTarget (isChoice_eq_false hunion hoptional) htop.1 htop.2 hname hu ih
  case case7 =>
    intro expanding s t _ _ hunion hoptional hnone name u h htop ih
    obtain ⟨rfl, hname, hu⟩ := expansion?_eq_some_iff.1 h
    rw [Bool.not_eq_true, Bool.or_eq_false_iff] at htop
    exact expandSource (isChoice_eq_false hunion hoptional) htop.2 htop.1 hnone hname hu ih
  case case8 => exact fun _ _ _ _ _ _ _ _ _ _ ih => array ih
  case case9 =>
    intro expanding s t htarget hsource harrays hunions hoptionals huniont hoptionalt htop
    rw [Bool.not_eq_true, Bool.or_eq_false_iff] at htop
    refine bare ⟨isChoice_eq_false hunions hoptionals, isChoice_eq_false huniont hoptionalt, htop.1, htop.2,
      hsource, htarget, ?_⟩
    rintro a b rfl rfl
    exact harrays a b htarget hsource rfl rfl .rfl .rfl
  case case10 => simp
  case case11 => simp +contextual
  case case12 => simp
  case case13 => simp +contextual

end

end SymbolTable

end LuaTypes
