import LuaTypes.Proofs.Assignability.Rules
import LuaTypes.Proofs.SymbolTable.Ancestors

/-!
Comparisons end. A comparison asks for further ones, also for the definitions of aliases, which may be of any
size and may lead back to the alias. What is being expanded is kept in a state, from which an alias is taken
when its definition has been compared. Here comparisons are made to a limited depth, and the aliases are
written down that are expanded one within the other: there is a depth that is enough, the state is as before
in the end, and no alias is expanded within itself.
-/

namespace LuaTypes

namespace SymbolTable

open TypeExpr

/--
What comparisons have left: the aliases that are being expanded, and for each expansion so far the aliases
from its own out to the first one within which it was made.
-/
structure Progress where
  expanding : List String := []
  chains : List (List String) := []

abbrev CheckM := StateT Progress Option

def expand (chain : List String) (name : String) (compare : CheckM Bool) : CheckM Bool := do
  modify fun p => ⟨name :: p.expanding, (name :: chain) :: p.chains⟩
  let answer ← compare
  modify fun p => { p with expanding := p.expanding.erase name }
  return answer

section

variable (table : SymbolTable)

def fitsWithin (rounds : Nat) (source target : TypeExpr) : Option Bool :=
  match source, target with
  | .named other, .named name =>
    if other = name || (name = "number" && other = "integer") then some true
    else (table.ancestorsWithin other rounds [] (table.parents other)).map fun ancestors =>
      ancestors.contains name || (name = "table" && table.hasClass other)
  | source, target => some (table.fits source target)

def checkSingle (rounds : Nat) (compare : List String → TypeExpr → TypeExpr → CheckM Bool) (chain : List String)
    (source target : TypeExpr) : CheckM Bool := do
  let expanding := (← get).expanding
  match table.expansion? expanding target with
  | some (name, t) => expand chain name (compare (name :: chain) source t)
  | none =>
    match table.expansion? expanding source with
    | some (name, s) => expand chain name (compare (name :: chain) s target)
    | none =>
      match source, target with
      | .array s, .array t => compare chain s t
      | source, target => StateT.lift (table.fitsWithin rounds source target)

/--
Compares a source with a target to a limited depth, within the definitions of the aliases in `chain`.
-/
def checkWithin : (depth : Nat) → (chain : List String) → (source target : TypeExpr) → CheckM Bool
  | 0, _, _, _ => failure
  | depth + 1, chain, source, target =>
    if source.isTop || target.isTop then return true
    else match source, target with
      | .union members, target => members.allM (checkWithin depth chain · target)
      | .optional inner, target => do
        if ← checkWithin depth chain .nil target then checkWithin depth chain inner target
        else return false
      | source, .union members => members.anyM (checkWithin depth chain source)
      | source, .optional inner =>
        if source.isNil then return true else checkWithin depth chain source inner
      | source, target => table.checkSingle depth (checkWithin depth) chain source target

end

variable {table : SymbolTable} {chain : List String} {s t u : TypeExpr} {name : String} {answer : Bool}

/-! ### Bare types -/

theorem fitsWithin_eq {rounds : Nat} (h : table.declaredParents.length ≤ rounds)
    : table.fitsWithin rounds s t = some (table.fits s t) := by
  unfold fitsWithin
  split
  · next other name =>
    have hlength := Nat.le_trans (table.length_parents_le other) h
    rw [ancestorsWithin_eq hlength, ← ancestors, fits, fitsName]
    split
    · next heq => rw [heq]; rfl
    · next heq => rw [Bool.not_eq_true] at heq; rw [heq]; rfl
  · rfl

/-! ### Runs -/

structure IsChain (table : SymbolTable) (chain : List String) : Prop where
  nodup : chain.Nodup
  isSome : ∀ name ∈ chain, (table.expandAlias? name).isSome = true

theorem IsChain.cons (h : table.IsChain chain) (hname : name ∉ chain) (hu : table.expandAlias? name = some u)
    : table.IsChain (name :: chain) := by
  refine ⟨List.nodup_cons.2 ⟨hname, h.nodup⟩, ?_⟩
  intro other hother
  cases hother with
  | head => rw [hu]; rfl
  | tail _ hother => exact h.isSome other hother

/--
From some depth on, a comparison within a chain has an answer. It leaves the aliases that are being expanded
as they were, and all expansions on the way were chains.
-/
def Settles (table : SymbolTable) (run : Nat → CheckM Bool) (chain : List String) (answer : Bool) : Prop :=
  ∃ depth made, (∀ d ≥ depth, ∀ chains, run d ⟨chain, chains⟩ = some (answer, ⟨chain, made ++ chains⟩)) ∧
    ∀ c ∈ made, table.IsChain c

namespace Settles

variable {run run' : Nat → CheckM Bool}

theorem pure : table.Settles (fun _ => Pure.pure answer) chain answer :=
  ⟨0, [], fun _ _ _ => rfl, by simp⟩

theorem lift {f : Nat → Option Bool} {depth : Nat} (h : ∀ d ≥ depth, f d = some answer)
    : table.Settles (fun d => StateT.lift (f d)) chain answer := by
  refine ⟨depth, [], fun d hd chains => ?_, by simp⟩
  simp only [h d hd]
  rfl

theorem succ (h : table.Settles run chain answer)
    (hrun : ∀ d chains, run' (d + 1) ⟨chain, chains⟩ = run d ⟨chain, chains⟩)
    : table.Settles run' chain answer := by
  obtain ⟨depth, made, hrun', hmade⟩ := h
  refine ⟨depth + 1, made, fun d hd chains => ?_, hmade⟩
  obtain ⟨d, rfl⟩ := Nat.exists_eq_add_of_le' (Nat.le_of_add_left_le hd)
  rw [hrun]
  exact hrun' d (by omega) chains

theorem bind {answer' : Bool} {next : Nat → Bool → CheckM Bool} (h : table.Settles run chain answer)
    (hnext : table.Settles (fun d => next d answer) chain answer')
    : table.Settles (fun d => run d >>= next d) chain answer' := by
  obtain ⟨depth, made, hrun, hmade⟩ := h
  obtain ⟨depth', made', hrun', hmade'⟩ := hnext
  refine ⟨max depth depth', made' ++ made, fun d hd chains => ?_, ?_⟩
  · change (run d ⟨chain, chains⟩).bind _ = _
    rw [hrun d (by omega)]
    change next d answer ⟨chain, made ++ chains⟩ = _
    rw [List.append_assoc]
    exact hrun' d (by omega) _
  · simpa [or_imp, forall_and] using ⟨hmade', hmade⟩

theorem and {answer' : Bool} (h : table.Settles run chain answer) (h' : table.Settles run' chain answer')
    : table.Settles (fun d => do if ← run d then run' d else Pure.pure false) chain (answer && answer') := by
  refine h.bind ?_
  cases answer with
  | true => exact h'
  | false => exact pure

theorem allM {f : Nat → TypeExpr → CheckM Bool} {p : TypeExpr → Bool} {ss : List TypeExpr}
    (h : ∀ s ∈ ss, table.Settles (f · s) chain (p s))
    : table.Settles (fun d => ss.allM (f d)) chain (ss.all p) := by
  induction ss with
  | nil => exact pure
  | cons s ss ih =>
    have hs := h s (.head _)
    rw [List.all_cons]
    refine hs.bind ?_
    cases p s with
    | true => exact ih fun s hs => h s (.tail _ hs)
    | false => exact pure

theorem anyM {f : Nat → TypeExpr → CheckM Bool} {p : TypeExpr → Bool} {ts : List TypeExpr}
    (h : ∀ t ∈ ts, table.Settles (f · t) chain (p t))
    : table.Settles (fun d => ts.anyM (f d)) chain (ts.any p) := by
  induction ts with
  | nil => exact pure
  | cons t ts ih =>
    have ht := h t (.head _)
    rw [List.any_cons]
    refine ht.bind ?_
    cases p t with
    | true => exact pure
    | false => exact ih fun t ht => h t (.tail _ ht)

theorem expand (h : table.Settles run (name :: chain) answer) (hchain : table.IsChain (name :: chain))
    : table.Settles (fun d => SymbolTable.expand chain name (run d)) chain answer := by
  obtain ⟨depth, made, hrun, hmade⟩ := h
  refine ⟨depth, made ++ [name :: chain], fun d hd chains => ?_, ?_⟩
  · change ((run d ⟨name :: chain, (name :: chain) :: chains⟩).bind _) = _
    rw [hrun d hd]
    change some (answer, (⟨(name :: chain).erase name, made ++ (name :: chain) :: chains⟩ : Progress)) = _
    rw [List.erase_cons_head, List.append_assoc]
    rfl
  · simpa [or_imp, forall_and] using ⟨hmade, hchain⟩

end Settles

/-! ### Equations -/

section

variable {depth : Nat} {chains : List (List String)}

theorem checkWithin_of_isTop (h : (s.isTop || t.isTop) = true)
    : table.checkWithin (depth + 1) chain s t = pure true := by
  unfold checkWithin
  rw [if_pos h]

theorem checkWithin_union_left {members : List TypeExpr} (ht : t.isTop = false)
    : table.checkWithin (depth + 1) chain (.union members) t
        = members.allM (table.checkWithin depth chain · t) := by
  conv => lhs; unfold checkWithin
  rw [if_neg (by simp [ht])]

theorem checkWithin_optional_left (ht : t.isTop = false)
    : table.checkWithin (depth + 1) chain (.optional s) t
        = (do if ← table.checkWithin depth chain .nil t then table.checkWithin depth chain s t else pure false) := by
  conv => lhs; unfold checkWithin
  rw [if_neg (by simp [ht])]

theorem checkWithin_union_right {members : List TypeExpr} (hs : s.isChoice = false) (htop : s.isTop = false)
    : table.checkWithin (depth + 1) chain s (.union members)
        = members.anyM (table.checkWithin depth chain s) := by
  conv => lhs; unfold checkWithin
  rw [if_neg (by simp [htop])]
  cases s with
  | union => cases hs
  | optional => cases hs
  | _ => rfl

theorem checkWithin_optional_right (hs : s.isChoice = false) (htop : s.isTop = false)
    : table.checkWithin (depth + 1) chain s (.optional t)
        = if s.isNil then pure true else table.checkWithin depth chain s t := by
  conv => lhs; unfold checkWithin
  rw [if_neg (by simp [htop])]
  cases s with
  | union => cases hs
  | optional => cases hs
  | _ => rfl

theorem checkWithin_of_single (hs : s.isChoice = false) (ht : t.isChoice = false) (hstop : s.isTop = false)
    (httop : t.isTop = false)
    : table.checkWithin (depth + 1) chain s t
        = table.checkSingle depth (table.checkWithin depth) chain s t := by
  conv => lhs; unfold checkWithin
  rw [if_neg (by simp [hstop, httop])]
  cases s with
  | union => cases hs
  | optional => cases hs
  | _ =>
    cases t with
    | union => cases ht
    | optional => cases ht
    | _ => rfl

variable {rounds : Nat} {compare : List String → TypeExpr → TypeExpr → CheckM Bool}

theorem get_bind_apply {p : Progress} {f : Progress → CheckM Bool} : (get >>= f) p = f p p :=
  rfl

theorem checkSingle_of_expansion_right (h : table.expansion? chain t = some (name, u))
    : table.checkSingle rounds compare chain s t ⟨chain, chains⟩
        = expand chain name (compare (name :: chain) s u) ⟨chain, chains⟩ := by
  unfold checkSingle
  rw [get_bind_apply]
  simp only [h]

theorem checkSingle_of_expansion_left (hnone : table.expansion? chain t = none)
    (h : table.expansion? chain s = some (name, u))
    : table.checkSingle rounds compare chain s t ⟨chain, chains⟩
        = expand chain name (compare (name :: chain) u t) ⟨chain, chains⟩ := by
  unfold checkSingle
  rw [get_bind_apply]
  simp only [hnone, h]

theorem checkSingle_array
    : table.checkSingle rounds compare chain (.array s) (.array t) ⟨chain, chains⟩
        = compare chain s t ⟨chain, chains⟩ :=
  rfl

theorem Bare.checkSingle_eq (h : table.Bare chain s t)
    : table.checkSingle rounds compare chain s t ⟨chain, chains⟩
        = StateT.lift (table.fitsWithin rounds s t) ⟨chain, chains⟩ := by
  unfold checkSingle
  rw [get_bind_apply]
  simp only [h.target_none, h.source_none]
  split
  · exact absurd rfl (h.not_arrays _ _ rfl)
  · rfl

end

/-! ### Comparisons -/

theorem settles_of_isTop (htop : (s.isTop || t.isTop) = true)
    : table.Settles (fun d => table.checkWithin d chain s t) chain (table.accepts chain s t) := by
  rw [accepts_of_isTop htop]
  exact Settles.pure.succ fun d chains => by rw [checkWithin_of_isTop htop]

theorem settles_checkWithin (s t : TypeExpr) (hchain : table.IsChain chain)
    : table.Settles (fun d => table.checkWithin d chain s t) chain (table.accepts chain s t) := by
  -- Each rule asks for comparisons that settle by induction, one level deeper.
  induction chain, s, t using accepts_induction table with
  | top htop => exact settles_of_isTop htop
  | @unionSource _ members t ih =>
    by_cases htop : t.isTop = true
    · exact settles_of_isTop (by rw [htop, Bool.or_true])
    · rw [accepts_union_left]
      refine (Settles.allM fun s hs => ih s hs hchain).succ fun d chains => ?_
      rw [checkWithin_union_left (by simpa using htop)]
  | @optionalSource _ s t ihnil ih =>
    by_cases htop : t.isTop = true
    · exact settles_of_isTop (by rw [htop, Bool.or_true])
    · rw [accepts_optional_left]
      refine ((ihnil hchain).and (ih hchain)).succ fun d chains => ?_
      rw [checkWithin_optional_left (by simpa using htop)]
  | @unionTarget _ s members hchoice htop ih =>
    rw [accepts_union_right hchoice htop]
    refine (Settles.anyM fun t ht => ih t ht hchain).succ fun d chains => ?_
    rw [checkWithin_union_right hchoice htop]
  | @optionalTarget chain s t hchoice ih =>
    by_cases htop : s.isTop = true
    · exact settles_of_isTop (by rw [htop, Bool.true_or])
    · have hrun : ∀ d, table.checkWithin (d + 1) chain s (.optional t) = _ := fun d =>
        checkWithin_optional_right hchoice (by simpa using htop)
      rw [accepts_optional_right hchoice]
      cases hnil : s.isNil with
      | true => exact Settles.pure.succ fun d chains => by rw [hrun, if_pos hnil, Bool.true_or]
      | false => exact (ih hchain).succ fun d chains => by rw [hrun, if_neg (by simp [hnil])]
  | @expandTarget _ s name u hchoice hstop htop hname hu ih =>
    have hexp := expansion?_eq_some_iff.2 ⟨rfl, hname, hu⟩
    have hchain' := hchain.cons hname hu
    rw [accepts_of_expansion_right hchoice htop hexp]
    refine ((ih hchain').expand hchain').succ fun d chains => ?_
    rw [checkWithin_of_single hchoice rfl hstop htop, checkSingle_of_expansion_right hexp]
  | @expandSource _ t name u hchoice httop htop hnone hname hu ih =>
    have hexp := expansion?_eq_some_iff.2 ⟨rfl, hname, hu⟩
    have hchain' := hchain.cons hname hu
    rw [accepts_of_expansion_left hchoice htop hnone hexp]
    refine ((ih hchain').expand hchain').succ fun d chains => ?_
    rw [checkWithin_of_single rfl hchoice htop httop, checkSingle_of_expansion_left hnone hexp]
  | @array _ s t ih =>
    rw [accepts_array]
    refine (ih hchain).succ fun d chains => ?_
    rw [checkWithin_of_single rfl rfl rfl rfl, checkSingle_array]
  | @bare _ s t hbare =>
    rw [hbare.accepts_eq]
    refine (Settles.lift fun rounds => fitsWithin_eq).succ fun d chains => ?_
    rw [checkWithin_of_single hbare.source hbare.target hbare.source_not_top hbare.target_not_top, hbare.checkSingle_eq]

/--
Each comparison ends, whatever aliases and classes lead to: from some depth on it has its answer. Then no
alias is being expanded any more, and along each chain of expansions, one within the definition of the other,
every alias comes once.
-/
theorem exists_depth_checkWithin (table : SymbolTable) (s t : TypeExpr)
    : ∃ depth chains,
        (∀ d ≥ depth, (table.checkWithin d [] s t).run {} = some (table.assignable s t, ⟨[], chains⟩)) ∧
          ∀ chain ∈ chains, chain.Nodup ∧ ∀ name ∈ chain, (table.expandAlias? name).isSome = true := by
  obtain ⟨depth, made, hrun, hmade⟩ := @settles_checkWithin table [] s t ⟨.nil, by simp⟩
  refine ⟨depth, made, fun d hd => ?_, fun chain hchain => ⟨(hmade chain hchain).nodup, (hmade chain hchain).isSome⟩⟩
  have := hrun d hd []
  rw [List.append_nil] at this
  exact this

def nested : SymbolTable where
  aliases := [{ name := "numbers", base := some (.union [.named "number", .named "texts"]) },
    { name := "texts", base := some (.union [.named "string", .named "numbers"]) }]

example
    : (nested.checkWithin 9 [] (.named "boolean") (.named "numbers")).run {}
        = some (false, ⟨[], [["texts", "numbers"], ["numbers"]]⟩) := by
  cbv

end SymbolTable

end LuaTypes
