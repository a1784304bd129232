import LuaTypes.Validation
import LuaTypes.Proofs.Analysis.Consistent
import LuaTypes.Proofs.SymbolTable.Lookup

/-!
The arities of functions. In a corpus without problems and errors, the documented parameters of a function
are its signature in order, required ones go before optional ones, and only the last may be variadic. So
the number of arguments alone decides about a call whose arguments fit everywhere: too few of them are
missed one by one, and too many are one fault.
-/

namespace LuaTypes

open Declaration

namespace Declaration.Function

def fixedParams (f : Function) : List Param :=
  f.params.filter (! ·.isVariadic)

def leastArity (f : Function) : Nat :=
  f.fixedParams.countP (! ·.isOptional)

def fixedArity (f : Function) : Nat :=
  f.fixedParams.length

def isVariadic (f : Function) : Bool :=
  f.params.any (·.isVariadic)

theorem isVariadic_eq_isSome_find? (f : Function) : f.isVariadic = (f.params.find? (·.isVariadic)).isSome := by
  rw [Bool.eq_iff_iff, List.find?_isSome, isVariadic, List.any_eq_true]

theorem leastArity_le_fixedArity (f : Function) : f.leastArity ≤ f.fixedArity :=
  List.countP_le_length

def IsDocumented (f : Function) : Prop :=
  ∀ name ∈ f.signature, ∃ p ∈ f.params, p.name = name

end Declaration.Function

/-! ### Validated functions -/

namespace Validation

theorem optionalOrder_eq_nil {function : String} {earlier : Option String} {ps : List Param}
    : optionalOrder function earlier ps = []
        ↔ (ps.filter (! ·.isVariadic)).Pairwise (fun p q => p.isOptional = true → q.isOptional = true) ∧
          (earlier.isSome = true → ∀ p ∈ ps.filter (! ·.isVariadic), p.isOptional = true) := by
  induction ps generalizing earlier with
  | nil => simp [optionalOrder]
  | cons p ps ih =>
    by_cases hvariadic : p.isVariadic = true
    · simp [optionalOrder, hvariadic, ih]
    · by_cases hoptional : p.isOptional = true
      · cases earlier <;> simp +contextual [optionalOrder, hvariadic, hoptional, ih, and_comm]
      · cases earlier <;> simp [optionalOrder, hvariadic, hoptional, ih]

theorem variadicPosition_eq_nil {f : Function}
    : variadicPosition f = [] ↔ ∀ p ∈ f.params.dropLast, p.isVariadic = false := by
  simp [variadicPosition]

theorem functionErrors_eq_nil {f : Function}
    : functionErrors f = [] ↔
        f.fixedParams.Pairwise (fun p q => p.isOptional = true → q.isOptional = true) ∧
          ∀ p ∈ f.params.dropLast, p.isVariadic = false := by
  simp [functionErrors, optionalOrder_eq_nil, variadicPosition_eq_nil, Function.fixedParams]

theorem functionErrors_of_errors {corpus : Corpus} (h : errors corpus = []) {f : Function}
    (hf : f ∈ corpus.functions)
    : functionErrors f = [] := by
  simp only [errors, List.flatMap_eq_nil_iff, List.append_eq_nil_iff] at h
  obtain ⟨file, hfile, hf⟩ := List.mem_flatMap.1 hf
  exact (h file hfile).1 f hf

end Validation

namespace Call

variable {table : SymbolTable}

/-! ### Parameters of a call -/

theorem documented_of_mem {f : Function} (hnodup : (f.params.map (·.name)).Nodup) {p : Param} (hp : p ∈ f.params)
    : documented f p.name = p := by
  have hreverse : (f.params.reverse.map (·.name)).Nodup := by
    rw [List.map_reverse, List.nodup_reverse]
    exact hnodup
  rw [documented, SymbolTable.find?_eq_some_of_nodup Param.name hreverse (List.mem_reverse.2 hp),
    Option.getD_some]

theorem parameters_eq_params {f : Function} (h : f.DocumentsSignature) (hall : f.IsDocumented)
    : parameters f = f.params := by
  obtain ⟨hnodup, hfilter⟩ := h
  have hsignature : f.signature = f.params.map (·.name) := by
    rw [hfilter, eq_comm, List.filter_eq_self]
    intro name hname
    simpa using hall name hname
  cases hempty : f.signature.isEmpty with
  | true => rw [parameters, hempty, if_pos rfl]
  | false =>
    rw [parameters, hempty, if_neg Bool.false_ne_true, hsignature, List.map_map]
    exact (List.map_congr_left fun p hp => documented_of_mem hnodup hp).trans (List.map_id _)

theorem splitVariadic_params {f : Function} (h : ∀ p ∈ f.params.dropLast, p.isVariadic = false)
    : splitVariadic f.params = (f.fixedParams, f.params.find? (·.isVariadic)) := by
  unfold Function.fixedParams
  cases hlast : f.params.getLast? with
  | none =>
    rw [List.getLast?_eq_none_iff.1 hlast]
    rfl
  | some p =>
    obtain ⟨init, heq⟩ := List.getLast?_eq_some_iff.1 hlast
    rw [heq] at h ⊢
    rw [List.dropLast_concat] at h
    have hfilter : init.filter (! ·.isVariadic) = init := List.filter_eq_self.2 (by simpa using h)
    have hfind : init.find? (·.isVariadic) = none := List.find?_eq_none.2 (by simpa using h)
    cases hvariadic : p.isVariadic <;> simp [splitVariadic, hvariadic, hfilter, hfind]

/-! ### Arguments that fit everywhere -/

theorem assignable_any (t : TypeExpr) : table.assignable .any t = true :=
  SymbolTable.accepts_of_isTop_left rfl

theorem length_fixedFaults_any (function : String) (number : Nat) (ps : List Param) (n : Nat)
    : (fixedFaults table function number ps (List.replicate n .any)).length
        = (ps.drop n).countP (! ·.isOptional) := by
  induction ps generalizing number n with
  | nil => simp [fixedFaults]
  | cons p ps ih =>
    cases n with
    | zero =>
      have hrest := ih (number + 1) 0
      rw [List.replicate_zero, List.drop_zero] at hrest
      cases hoptional : p.isOptional <;> simp [fixedFaults, hoptional, hrest]
    | succ n => simp [List.replicate_succ, fixedFaults, assignable_any, ih]

theorem variadicFaults_any (function : String) (p : Param) (number n : Nat)
    : variadicFaults table function p number (List.replicate n .any) = [] := by
  induction n generalizing number with
  | zero => rfl
  | succ n ih => simp [List.replicate_succ, variadicFaults, assignable_any, ih]

theorem countP_drop_of_pairwise {α : Type} {p : α → Bool} {xs : List α}
    (h : xs.Pairwise fun x y => p x = true → p y = true) (n : Nat)
    : (xs.drop n).countP (! p ·) = xs.countP (! p ·) - n := by
  induction xs generalizing n with
  | nil => simp
  | cons x xs ih =>
    obtain ⟨hx, hxs⟩ := List.pairwise_cons.1 h
    cases n with
    | zero => simp
    | succ n =>
      rw [List.drop_succ_cons, ih hxs, List.countP_cons]
      by_cases hpx : p x = true
      · have hzero : xs.countP (! p ·) = 0 := by
          rw [List.countP_eq_zero]
          intro y hy
          simp [hx y hy hpx]
        simp [hpx, hzero]
      · simp [hpx]

theorem length_faultsOf_any {f : Function} (hparams : parameters f = f.params)
    (hvalid : Validation.functionErrors f = []) (n : Nat)
    : (faultsOf table f (List.replicate n .any)).length
        = (f.leastArity - n) + if f.isVariadic = false ∧ f.fixedArity < n then 1 else 0 := by
  obtain ⟨horder, hposition⟩ := Validation.functionErrors_eq_nil.1 hvalid
  have hfixed := @length_fixedFaults_any table f.qualifiedName 1 f.fixedParams n
  rw [countP_drop_of_pairwise horder] at hfixed
  rw [faultsOf, hparams, splitVariadic_params hposition]
  simp only [List.length_append, hfixed, List.drop_replicate, List.length_replicate]
  congr 1
  have hvariadic := f.isVariadic_eq_isSome_find?
  cases hfind : f.params.find? (·.isVariadic) with
  | some p =>
    rw [hfind, Option.isSome_some] at hvariadic
    simp [variadicFaults_any, hvariadic]
  | none =>
    rw [hfind, Option.isSome_none] at hvariadic
    unfold Function.fixedArity
    by_cases hlt : f.fixedParams.length < n
    · have hextra : n - f.fixedParams.length ≠ 0 := Nat.sub_ne_zero_of_lt hlt
      simp [hvariadic, hlt, hextra]
    · have hextra : n - f.fixedParams.length = 0 := Nat.sub_eq_zero_of_le (Nat.le_of_not_lt hlt)
      simp [hvariadic, hlt, hextra]

theorem length_check_any {corpus : Corpus} (hproblems : Analysis.problems corpus = [])
    (herrors : Validation.errors corpus = []) {f : Function} (hf : f ∈ corpus.functions) (hall : f.IsDocumented)
    (n : Nat)
    : (check (.ofCorpus corpus) ⟨f.qualifiedName, List.replicate n .any⟩).length
        = (f.leastArity - n) + if f.isVariadic = false ∧ f.fixedArity < n then 1 else 0 := by
  simp only [Analysis.problems, List.append_eq_nil_iff, List.flatMap_eq_nil_iff] at hproblems
  obtain ⟨⟨hduplicates, -⟩, hfunctions⟩ := hproblems
  have hnodup := (Analysis.duplicates_eq_nil.1 hduplicates).1 .function
  have hsignature := Analysis.signatureProblems_eq_nil.1 (hfunctions f hf).2
  rw [check, SymbolTable.function?_qualifiedName hnodup hf]
  exact length_faultsOf_any (parameters_eq_params hsignature hall)
    (Validation.functionErrors_of_errors herrors hf) n

/--
In a corpus that passes all checks, every function has an arity: a call with arguments that fit everywhere
is right if and only if their number is within the bounds. One fault is reported for each missing
argument, and one for all that are too many.
-/
theorem check_any_iff_arity {corpus : Corpus} (hproblems : Analysis.problems corpus = [])
    (herrors : Validation.errors corpus = []) {f : Function} (hf : f ∈ corpus.functions) (hall : f.IsDocumented)
    (n : Nat)
    : (check (.ofCorpus corpus) ⟨f.qualifiedName, List.replicate n .any⟩ = []
        ↔ f.leastArity ≤ n ∧ (f.isVariadic = true ∨ n ≤ f.fixedArity)) ∧
      (n < f.leastArity →
        (check (.ofCorpus corpus) ⟨f.qualifiedName, List.replicate n .any⟩).length = f.leastArity - n) ∧
      (f.isVariadic = false → f.fixedArity < n →
        (check (.ofCorpus corpus) ⟨f.qualifiedName, List.replicate n .any⟩).length = 1) := by
  have hle := f.leastArity_le_fixedArity
  rw [← List.length_eq_zero_iff, length_check_any hproblems herrors hf hall]
  cases f.isVariadic with
  | true => simp [Nat.sub_eq_zero_iff_le]
  | false =>
    by_cases hlt : f.fixedArity < n
    · simp only [hlt, and_self, if_true, Bool.false_eq_true, false_or, forall_const]
      omega
    · simp only [hlt, and_false, if_false, Nat.add_zero, Nat.sub_eq_zero_iff_le, false_imp_iff, implies_true,
        and_true, Bool.false_eq_true, false_or]
      omega

def playNote : Function where
  owner := some "speaker"
  name := "playNote"
  signature := ["instrument", "volume", "pitch"]
  params :=
    [{ name := "instrument", type := .named "speaker.instrument" },
      { name := "volume", type := .named "number", optional := true },
      { name := "pitch", type := .union [.named "number", .nil] }]

def speakers : Corpus where
  files :=
    [("sound", { functions := [playNote] }),
      ("speaker",
        { namespaces := [{ name := "speaker" }]
          aliases :=
            [{ name := "speaker.instrument"
               members := [⟨.literal (.string "harp"), none⟩, ⟨.literal (.string "bell"), none⟩] }] })]

theorem check_any_iff_arity_playNote
    : Analysis.problems speakers = [] ∧ Validation.errors speakers = [] ∧ playNote ∈ speakers.functions ∧
      playNote.IsDocumented ∧ 0 < playNote.leastArity ∧ playNote.fixedArity < 4 ∧
      (check (.ofCorpus speakers) ⟨"speaker.playNote", []⟩).length = 1 ∧
      check (.ofCorpus speakers) ⟨"speaker.playNote", [.any, .any]⟩ = [] ∧
      (check (.ofCorpus speakers) ⟨"speaker.playNote", [.any, .any, .any, .any]⟩).length = 1 := by
  have hproblems : Analysis.problems speakers = [] := by decide +kernel
  have herrors : Validation.errors speakers = [] := by decide +kernel
  have hf : playNote ∈ speakers.functions := .head _
  have hall : playNote.IsDocumented := by
    intro name hname
    simpa [playNote, eq_comm] using hname
  have harity := check_any_iff_arity hproblems herrors hf hall
  exact ⟨hproblems, herrors, hf, hall, by decide, by decide, (harity 0).2.1 (by decide),
    (harity 2).1.2 (by decide), (harity 4).2.2 (by decide) (by decide)⟩

end Call

end LuaTypes
