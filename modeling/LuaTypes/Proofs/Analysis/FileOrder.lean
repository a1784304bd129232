import LuaTypes.Validation
import LuaTypes.Proofs.Analysis.Consistent
import LuaTypes.Proofs.SymbolTable.Lookup
import Mathlib.Data.List.Perm.Basic

/-!
The order of the files of a corpus. Whether the analysis finds a problem does not depend on it. Where no
name is declared twice, neither does what the symbol table answers, so the reports on two orders differ in
their own order at most.
-/

namespace LuaTypes

open Declaration

variable {c c' : Corpus}

namespace Declaration.Corpus

/--
Is each name declared at most once as an alias, a class, a table and a function?
-/
def DeclaresOnce (c : Corpus) : Prop :=
  ∀ k, (Analysis.declaredOfKind c k).Nodup

variable (h : c.files.Perm c'.files)

include h

theorem perm_namespaces : c.namespaces.Perm c'.namespaces :=
  h.flatMap_right _

theorem perm_classes : c.classes.Perm c'.classes :=
  h.flatMap_right _

theorem perm_aliases : c.aliases.Perm c'.aliases :=
  h.flatMap_right _

theorem perm_functions : c.functions.Perm c'.functions :=
  h.flatMap_right _

end Declaration.Corpus

section

variable (h : c.files.Perm c'.files)

include h

theorem Analysis.perm_declaredOfKind (k : Kind) : (declaredOfKind c k).Perm (declaredOfKind c' k) := by
  match k with
  | .alias => exact (Corpus.perm_aliases h).map _
  | .classType => exact (Corpus.perm_classes h).map _
  | .globalTable => exact (Corpus.perm_namespaces h).map _
  | .function => exact (Corpus.perm_functions h).map _

theorem Declaration.Corpus.declaresOnce_of_perm (honce : c.DeclaresOnce) : c'.DeclaresOnce :=
  fun k => (Analysis.perm_declaredOfKind h k).nodup_iff.1 (honce k)

theorem SymbolTable.sameAnswers_of_perm (honce : c.DeclaresOnce)
    : (ofCorpus c).SameAnswers (ofCorpus c') where
  namespace_eq n := by
    rw [Bool.eq_iff_iff, hasNamespace_ofCorpus, hasNamespace_ofCorpus]
    exact exists_congr fun ns => and_congr_left fun _ => (Corpus.perm_namespaces h).mem_iff
  class_eq n := by
    rw [class?_ofCorpus, class?_ofCorpus]
    exact find?_eq_of_perm (Corpus.perm_classes h) (honce .classType) n
  alias_eq n := by
    rw [alias?_ofCorpus, alias?_ofCorpus]
    exact find?_eq_of_perm (Corpus.perm_aliases h) (honce .alias) n
  function_eq n := by
    rw [functionNamed?_ofCorpus, functionNamed?_ofCorpus]
    exact find?_eq_of_perm (Corpus.perm_functions h) (honce .function) n

end

/-! ### Problems -/

namespace Analysis

section

variable {table table' : SymbolTable} (h : table.SameAnswers table')

include h

theorem undefinedTypes_congr (place : Place) (t : TypeExpr)
    : undefinedTypes table place t = undefinedTypes table' place t := by
  simp only [undefinedTypes, h.definesType_eq]

theorem referenceProblems_congr (f : File) : referenceProblems table f = referenceProblems table' f := by
  have halias : aliasProblems table = aliasProblems table' := by
    funext a
    exact undefinedTypes_congr h _ _
  have hclass : classProblems table = classProblems table' := by
    funext c
    simp only [classProblems, h.hasClass_eq, funext₂ (undefinedTypes_congr h)]
  have hnamespace : namespaceProblems table = namespaceProblems table' := by
    funext ns
    simp only [namespaceProblems, h.hasClass_eq]
  have hsignature : signatureTypeProblems table = signatureTypeProblems table' := by
    funext f
    simp only [signatureTypeProblems, undefinedTypes_congr h]
  rw [referenceProblems, referenceProblems, halias, hclass, hnamespace, hsignature]

theorem ownerProblems_congr (f : Function) : ownerProblems table f = ownerProblems table' f := by
  simp only [ownerProblems, h.namespace_eq, h.hasClass_eq]

end

theorem eraseDups_of_nodup {names : List String} (h : names.Nodup) : names.eraseDups = names := by
  induction names with
  | nil => rfl
  | cons name names ih =>
    obtain ⟨hname, hnames⟩ := List.nodup_cons.1 h
    have hfilter : names.filter (fun other => ! other == name) = names := by
      rw [List.filter_eq_self]
      intro other hother
      have hne : other ≠ name := fun heq => hname (heq ▸ hother)
      simpa using hne
    rw [List.eraseDups_cons, hfilter, ih hnames]

theorem perm_sortedNames {names : List String} (h : names.Nodup) : (sortedNames names).Perm names := by
  rw [sortedNames, eraseDups_of_nodup h]
  exact List.mergeSort_perm names _

theorem repeatedNames_of_declaresOnce (h : c.DeclaresOnce)
    : repeatedNames [] (c.files.flatMap fun (key, f) => declaredNames key f) = [] := by
  rw [repeatedNames_eq_nil, pairwise_ne_iff_nodup_namesOfKind]
  refine ⟨fun k => ?_, by simp⟩
  rw [namesOfKind_declaredNames]
  exact h k

variable (h : c.files.Perm c'.files)

include h

theorem perm_duplicates (honce : c.DeclaresOnce) : (duplicates c).Perm (duplicates c') := by
  have hclasses : (fun name => (c.classes.map (·.name)).contains name)
      = fun name => (c'.classes.map (·.name)).contains name := by
    funext name
    exact ((Corpus.perm_classes h).map _).contains_eq
  have hshared := ((Corpus.perm_aliases h).map (·.name)).filter
    fun name => (c.classes.map (·.name)).contains name
  have hnodup : (c.aliases.map (·.name)).Nodup := honce .alias
  have hnodup' : (c'.aliases.map (·.name)).Nodup := Corpus.declaresOnce_of_perm h honce .alias
  rw [duplicates, duplicates, repeatedNames_of_declaresOnce honce,
    repeatedNames_of_declaresOnce (Corpus.declaresOnce_of_perm h honce)]
  apply List.Perm.map
  calc (sortedNames _).Perm _ := perm_sortedNames (hnodup.filter _)
    _ |>.Perm _ := hshared
    _ |>.Perm _ := hclasses ▸ (perm_sortedNames (hnodup'.filter _)).symm

theorem perm_problems (honce : c.DeclaresOnce) : (problems c).Perm (problems c') := by
  have hanswers := SymbolTable.sameAnswers_of_perm h honce
  simp only [problems, referenceProblems_congr hanswers, ownerProblems_congr hanswers]
  exact ((perm_duplicates h honce).append (h.flatMap_right _)).append
    ((Corpus.perm_functions h).flatMap_right _)

theorem problems_eq_nil_of_perm (hnil : problems c = []) : problems c' = [] := by
  have hduplicates : duplicates c = [] := by
    simp only [problems, List.append_eq_nil_iff] at hnil
    exact hnil.1.1
  have hperm := perm_problems h (duplicates_eq_nil.1 hduplicates).1
  rw [hnil] at hperm
  exact hperm.nil_eq.symm

end Analysis

/-! ### Errors and warnings -/

namespace Validation

theorem linkWarnings_congr {table table' : SymbolTable} (h : table.SameAnswers table') (owner : Owner)
    (target : String)
    : linkWarnings table owner target = linkWarnings table' owner target := by
  have hfield : namesField table = namesField table' := by
    funext target
    simp only [namesField, h.class_eq]
  have hdeclared : isDeclared table = isDeclared table' := by
    funext target
    simp only [isDeclared, h.namespace_eq, h.resolveType?_eq, h.function?_eq, hfield]
  have hinside : isInNamespace table = isInNamespace table' := by
    funext target
    simp only [isInNamespace, h.namespace_eq]
  rw [linkWarnings, linkWarnings, hdeclared, hinside]

variable (h : c.files.Perm c'.files)

include h

theorem perm_errors : (errors c).Perm (errors c') :=
  h.flatMap_right _

theorem perm_warnings [Dump] (honce : c.DeclaresOnce) : (warnings c).Perm (warnings c') := by
  simp only [warnings, linkWarnings_congr (SymbolTable.sameAnswers_of_perm h honce)]
  exact (((Corpus.perm_functions h).flatMap_right _).append (h.flatMap_right _)).append (h.flatMap_right _)

end Validation

/--
The order of the files does not decide whether there are problems. Where no name is declared twice, it does
not change what is reported either, nor what is answered about types, classes and calls.
-/
theorem Analysis.reports_of_perm [Validation.Dump] (h : c.files.Perm c'.files)
    : (problems c = [] ↔ problems c' = []) ∧
      (c.DeclaresOnce →
        ((problems c).map (·.message)).Perm ((problems c').map (·.message)) ∧
        ((Validation.errors c).map (·.message)).Perm ((Validation.errors c').map (·.message)) ∧
        ((Validation.warnings c).map (·.message)).Perm ((Validation.warnings c').map (·.message)) ∧
        (∀ s t, (SymbolTable.ofCorpus c).assignable s t = (SymbolTable.ofCorpus c').assignable s t) ∧
        (∀ name, (SymbolTable.ofCorpus c).ancestors name = (SymbolTable.ofCorpus c').ancestors name) ∧
        ∀ call : Call, call.check (.ofCorpus c) = call.check (.ofCorpus c')) := by
  refine ⟨⟨problems_eq_nil_of_perm h, problems_eq_nil_of_perm h.symm⟩, fun honce => ?_⟩
  have hanswers := SymbolTable.sameAnswers_of_perm h honce
  exact ⟨(perm_problems h honce).map _, (Validation.perm_errors h).map _, (Validation.perm_warnings h honce).map _,
    hanswers.assignable_eq, SymbolTable.ancestors_congr hanswers.class_eq, Call.check_congr hanswers⟩

def relays : Corpus where
  files :=
    [("switch",
        { functions :=
            [{ owner := some "relay", name := "switch", signature := ["input"]
               params := [{ name := "input", type := .named "relay.input" }] }] }),
      ("relay",
        { namespaces := [{ name := "relay" }]
          aliases := [{ name := "relay.input", base := some (.named "relay.level") }] })]

theorem Analysis.reports_of_perm_relays
    : relays.files.Perm relays.files.reverse ∧ relays.DeclaresOnce ∧ problems relays ≠ [] ∧
      problems ⟨relays.files.reverse⟩ ≠ [] ∧
      ((problems relays).map (·.message)).Perm ((problems ⟨relays.files.reverse⟩).map (·.message)) ∧
      (SymbolTable.ofCorpus relays).assignable (.literal (.integer 1)) (.named "relay.input")
        = (SymbolTable.ofCorpus ⟨relays.files.reverse⟩).assignable (.literal (.integer 1)) (.named "relay.input") ∧
      Call.check (.ofCorpus relays) ⟨"relay.switch", []⟩
        = Call.check (.ofCorpus ⟨relays.files.reverse⟩) ⟨"relay.switch", []⟩ := by
  have hperm : relays.files.Perm relays.files.reverse := relays.files.reverse_perm.symm
  have honce : relays.DeclaresOnce := by
    intro k
    cases k <;> decide
  have hproblems : problems relays ≠ [] := by decide +kernel
  obtain ⟨hempty, hreports⟩ := @reports_of_perm _ ⟨relays.files.reverse⟩ _ hperm
  obtain ⟨hmessages, -, -, hassignable, -, hcalls⟩ := hreports honce
  exact ⟨hperm, honce, hproblems, mt hempty.2 hproblems, hmessages, hassignable _ _, hcalls _⟩

end LuaTypes
