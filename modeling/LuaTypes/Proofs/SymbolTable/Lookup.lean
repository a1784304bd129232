import LuaTypes.Proofs.Assignability.Rules
import LuaTypes.Call.Check
import Mathlib.Data.List.Nodup
import Mathlib.Data.List.Perm.Basic

/-!
What a symbol table is asked. Everything that uses a table looks names up in it, so two tables that
answer every name alike are as good as each other. The table of a corpus finds the first declaration of a
name, and where names are declared once, it finds every declaration.
-/

namespace LuaTypes

open Declaration

namespace SymbolTable

/-! ### Tables of corpora -/

section

variable {α : Type} {name : α → String}

theorem find?_firstOfEach (xs : List α) (n : String)
    : (firstOfEach name xs).find? (name · = n) = xs.find? (name · = n) := by
  induction xs with
  | nil => rfl
  | cons x xs ih =>
    by_cases h : name x = n
    · simp [firstOfEach, h]
    · rw [firstOfEach, List.find?_cons_of_neg (by simpa using h), List.find?_cons_of_neg (by simpa using h),
        List.find?_filter, ← ih]
      congr 1
      funext y
      by_cases hy : name y = n
      · simp [hy, Ne.symm h]
      · simp [hy]

theorem find?_eq_some_of_nodup (name : α → String) {xs : List α} {x : α} (hnodup : (xs.map name).Nodup)
    (hx : x ∈ xs)
    : xs.find? (name · = name x) = some x := by
  cases h : xs.find? (name · = name x) with
  | none =>
    rw [List.find?_eq_none] at h
    simpa using h x hx
  | some y =>
    have hname : name y = name x := by simpa using List.find?_some h
    rw [List.inj_on_of_nodup_map hnodup (List.mem_of_find?_eq_some h) hx hname]

theorem find?_eq_of_perm {xs ys : List α} (h : xs.Perm ys) (hnodup : (xs.map name).Nodup) (n : String)
    : xs.find? (name · = n) = ys.find? (name · = n) := by
  cases hx : xs.find? (name · = n) with
  | none =>
    rw [List.find?_eq_none] at hx
    exact (List.find?_eq_none.2 fun y hy => hx y (h.mem_iff.2 hy)).symm
  | some x =>
    obtain rfl : name x = n := by simpa using List.find?_some hx
    exact (find?_eq_some_of_nodup name ((h.map name).nodup_iff.1 hnodup)
      (h.mem_iff.1 (List.mem_of_find?_eq_some hx))).symm

end

variable {corpus : Corpus}

theorem class?_ofCorpus (n : String)
    : (ofCorpus corpus).class? n = corpus.classes.find? (·.name = n) :=
  find?_firstOfEach corpus.classes n

theorem alias?_ofCorpus (n : String)
    : (ofCorpus corpus).alias? n = corpus.aliases.find? (·.name = n) :=
  find?_firstOfEach corpus.aliases n

theorem functionNamed?_ofCorpus (n : String)
    : (ofCorpus corpus).functionNamed? n = corpus.functions.find? (·.qualifiedName = n) :=
  find?_firstOfEach corpus.functions n

theorem function?_qualifiedName (hnodup : (corpus.functions.map (·.qualifiedName)).Nodup) {f : Function}
    (hf : f ∈ corpus.functions)
    : (ofCorpus corpus).function? f.qualifiedName = some f := by
  rw [function?, functionNamed?_ofCorpus, find?_eq_some_of_nodup Function.qualifiedName hnodup hf]

/-! ### Tables with the same classes -/

section

variable {table table' : SymbolTable} {s t : TypeExpr} (h : ∀ n, table.class? n = table'.class? n)

include h

theorem parents_congr (n : String) : table.parents n = table'.parents n := by
  rw [parents, parents, h]

theorem ancestorsFrom_congr (n : String) (seen queue : List String)
    : table.ancestorsFrom n seen queue = table'.ancestorsFrom n seen queue := by
  induction seen, queue using ancestorsFrom.induct table n with
  | case1 => rw [ancestorsFrom, ancestorsFrom]
  | case2 seen parent queue hseen ih =>
    rw [ancestorsFrom, ancestorsFrom, dif_pos hseen, dif_pos hseen]
    exact ih
  | case3 seen parent queue hseen ih =>
    rw [ancestorsFrom, ancestorsFrom, dif_neg hseen, dif_neg hseen, ← parents_congr h]
    exact ih

theorem ancestors_congr (n : String) : table.ancestors n = table'.ancestors n := by
  rw [ancestors, ancestors, parents_congr h, ancestorsFrom_congr h]

theorem hasClass_congr (n : String) : table.hasClass n = table'.hasClass n := by
  rw [hasClass, hasClass, h]

theorem isTableLike_congr : table.isTableLike s = table'.isTableLike s := by
  cases s with
  | named n => rw [isTableLike, isTableLike, hasClass_congr h]
  | _ => rfl

theorem fitsName_congr (n : String) : table.fitsName s n = table'.fitsName s n := by
  cases s with
  | named other => rw [fitsName, fitsName, ancestors_congr h, hasClass_congr h]
  | array => rw [fitsName, fitsName, hasClass_congr h]
  | generic => rw [fitsName, fitsName, hasClass_congr h]
  | table => rw [fitsName, fitsName, hasClass_congr h]
  | _ => rfl

theorem fits_congr : table.fits s t = table'.fits s t := by
  cases t with
  | named n => exact fitsName_congr h n
  | array => exact isTableLike_congr h
  | generic => exact isTableLike_congr h
  | table => exact isTableLike_congr h
  | _ => rfl

end

structure SameAnswers (table table' : SymbolTable) : Prop where
  namespace_eq : ∀ n, table.hasNamespace n = table'.hasNamespace n
  class_eq : ∀ n, table.class? n = table'.class? n
  alias_eq : ∀ n, table.alias? n = table'.alias? n
  function_eq : ∀ n, table.functionNamed? n = table'.functionNamed? n

namespace SameAnswers

variable {table table' : SymbolTable} (h : table.SameAnswers table')

include h

theorem hasClass_eq (n : String) : table.hasClass n = table'.hasClass n :=
  hasClass_congr h.class_eq n

theorem definesType_eq (n : String) : table.definesType n = table'.definesType n := by
  rw [definesType, definesType, h.alias_eq, h.hasClass_eq]

theorem expandAlias?_eq (n : String) : table.expandAlias? n = table'.expandAlias? n := by
  rw [expandAlias?, expandAlias?, h.alias_eq]

theorem resolveType?_eq (n : String) : table.resolveType? n = table'.resolveType? n := by
  rw [resolveType?, resolveType?, h.alias_eq, h.class_eq]

theorem function?_eq (n : String) : table.function? n = table'.function? n := by
  rw [function?, function?, h.function_eq, funext h.function_eq]

/-! ### Assignability -/

variable {expanding : List String} {s t : TypeExpr}

theorem expansion?_eq : table.expansion? expanding t = table'.expansion? expanding t := by
  cases t with
  | named n => rw [expansion?, expansion?, h.expandAlias?_eq]
  | _ => rfl

theorem bare (hbare : table.Bare expanding s t) : table'.Bare expanding s t :=
  { hbare with
    source_none := h.expansion?_eq ▸ hbare.source_none
    target_none := h.expansion?_eq ▸ hbare.target_none }

theorem accepts_eq : table.accepts expanding s t = table'.accepts expanding s t := by
  induction expanding, s, t using accepts_induction table with
  | top htop => rw [accepts_of_isTop htop, accepts_of_isTop htop]
  | unionSource ih =>
    rw [accepts_union_left, accepts_union_left]
    exact all_congr_of_mem ih
  | optionalSource ihnil ih => rw [accepts_optional_left, accepts_optional_left, ihnil, ih]
  | unionTarget hchoice htop ih =>
    rw [accepts_union_right hchoice htop, accepts_union_right hchoice htop]
    exact any_congr_of_mem ih
  | optionalTarget hchoice ih => rw [accepts_optional_right hchoice, accepts_optional_right hchoice, ih]
  | expandTarget hchoice _ htop hname hu ih =>
    have hexp := expansion?_eq_some_iff.2 ⟨rfl, hname, hu⟩
    rw [accepts_of_expansion_right hchoice htop hexp,
      accepts_of_expansion_right hchoice htop (h.expansion?_eq ▸ hexp), ih]
  | expandSource hchoice _ htop hnone hname hu ih =>
    have hexp := expansion?_eq_some_iff.2 ⟨rfl, hname, hu⟩
    rw [accepts_of_expansion_left hchoice htop hnone hexp,
      accepts_of_expansion_left hchoice htop (h.expansion?_eq ▸ hnone) (h.expansion?_eq ▸ hexp), ih]
  | array ih => rw [accepts_array, accepts_array, ih]
  | bare hbare => rw [hbare.accepts_eq, (h.bare hbare).accepts_eq, fits_congr h.class_eq]

theorem assignable_eq (s t : TypeExpr) : table.assignable s t = table'.assignable s t :=
  h.accepts_eq

end SameAnswers

end SymbolTable

/-! ### Calls -/

namespace Call

variable {table table' : SymbolTable} (h : table.SameAnswers table')

include h

theorem fixedFaults_congr (function : String) (number : Nat) (params : List Param) (args : List TypeExpr)
    : fixedFaults table function number params args = fixedFaults table' function number params args := by
  induction params generalizing number args with
  | nil => rw [fixedFaults, fixedFaults]
  | cons p ps ih =>
    cases args with
    | nil => rw [fixedFaults, fixedFaults, ih]
    | cons arg args => rw [fixedFaults, fixedFaults, ih, h.assignable_eq]

theorem variadicFaults_congr (function : String) (p : Param) (number : Nat) (args : List TypeExpr)
    : variadicFaults table function p number args = variadicFaults table' function p number args := by
  induction args generalizing number with
  | nil => rw [variadicFaults, variadicFaults]
  | cons arg args ih => rw [variadicFaults, variadicFaults, ih, h.assignable_eq]

theorem check_congr (call : Call) : call.check table = call.check table' := by
  simp only [check, h.function?_eq, faultsOf, fixedFaults_congr h, variadicFaults_congr h]

end Call

end LuaTypes
