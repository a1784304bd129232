import LuaTypes.Analysis
import LuaTypes.Proofs.Declaration.Writes
import LuaTypes.Proofs.TypeExpr.Mentions
import Mathlib.Data.List.Basic

/-!
What the analysis of a corpus decides. A corpus is consistent if its names are declared once, what it
refers to is declared, and the documented parameters of each function follow its signature; the analysis
reports no problem of exactly the consistent corpora.
-/

namespace LuaTypes

open Declaration

namespace Declaration

namespace Corpus

def DeclaresClass (corpus : Corpus) (name : String) : Prop :=
  ∃ c ∈ corpus.classes, c.name = name

def DeclaresAlias (corpus : Corpus) (name : String) : Prop :=
  ∃ a ∈ corpus.aliases, a.name = name

def DeclaresNamespace (corpus : Corpus) (name : String) : Prop :=
  ∃ ns ∈ corpus.namespaces, ns.name = name

end Corpus

/--
The documented parameters are different, and in their order they are the names of the signature that are
documented.
-/
def Function.DocumentsSignature (f : Function) : Prop :=
  let documented := f.params.map (·.name)
  documented.Nodup ∧ documented = f.signature.filter (· ∈ documented)

end Declaration

namespace Analysis

structure Consistent (corpus : Corpus) : Prop where
  aliases_nodup : (corpus.aliases.map (·.name)).Nodup
  classes_nodup : (corpus.classes.map (·.name)).Nodup
  namespaces_nodup : (corpus.namespaces.map (·.name)).Nodup
  functions_nodup : (corpus.functions.map (·.qualifiedName)).Nodup
  alias_ne_class : ∀ name, corpus.DeclaresAlias name → ¬ corpus.DeclaresClass name
  type_declared : ∀ t name, corpus.Writes t → t.Mentions name →
    name ∈ TypeExpr.builtinNames ∨ corpus.DeclaresAlias name ∨ corpus.DeclaresClass name
  parent_declared : ∀ c ∈ corpus.classes, ∀ parent ∈ c.parents, corpus.DeclaresClass parent
  namespace_class_declared : ∀ ns ∈ corpus.namespaces, ∀ name, ns.className = some name →
    corpus.DeclaresClass name
  owner_declared : ∀ f ∈ corpus.functions, ∀ owner, f.owner = some owner →
    corpus.DeclaresNamespace owner ∨ corpus.DeclaresClass owner
  params_documented : ∀ f ∈ corpus.functions, f.DocumentsSignature

end Analysis

/-! Names of the symbol table -/

namespace SymbolTable

theorem exists_mem_firstOfEach {α : Type} {name : α → String} {n : String} {xs : List α}
    : (∃ x ∈ firstOfEach name xs, name x = n) ↔ ∃ x ∈ xs, name x = n := by
  induction xs with
  | nil => simp [firstOfEach]
  | cons x xs ih =>
    by_cases h : name x = n
    · simp [firstOfEach, h]
    · have hne : ∀ y, name y = n → name y ≠ name x := fun y hy hxy => h (hxy ▸ hy)
      simp only [firstOfEach, List.mem_cons, exists_eq_or_imp, h, false_or, List.mem_filter,
        decide_eq_true_eq, ← ih]
      exact exists_congr fun y => ⟨fun ⟨⟨hy, _⟩, hn⟩ => ⟨hy, hn⟩, fun ⟨hy, hn⟩ => ⟨⟨hy, hne y hn⟩, hn⟩⟩

variable {corpus : Corpus} {name : String}

theorem hasClass_ofCorpus : (ofCorpus corpus).hasClass name = true ↔ corpus.DeclaresClass name := by
  simp [hasClass, class?, ofCorpus, List.find?_isSome, exists_mem_firstOfEach, Corpus.DeclaresClass]

theorem alias?_isSome_ofCorpus
    : ((ofCorpus corpus).alias? name).isSome = true ↔ corpus.DeclaresAlias name := by
  simp [alias?, ofCorpus, List.find?_isSome, exists_mem_firstOfEach, Corpus.DeclaresAlias]

theorem hasNamespace_ofCorpus
    : (ofCorpus corpus).hasNamespace name = true ↔ corpus.DeclaresNamespace name := by
  simp [hasNamespace, ofCorpus, List.any_eq_true, exists_mem_firstOfEach, Corpus.DeclaresNamespace]

theorem definesType_ofCorpus : (ofCorpus corpus).definesType name = true ↔
    name ∈ TypeExpr.builtinNames ∨ corpus.DeclaresAlias name ∨ corpus.DeclaresClass name := by
  simp [definesType, hasClass_ofCorpus, alias?_isSome_ofCorpus, or_assoc]

end SymbolTable

namespace Analysis

/-! Repeated names -/

def namesOfKind (k : Kind) (ds : List Declared) : List String :=
  (ds.filter (·.kind = k)).map (·.name)

theorem repeatedNames_eq_nil {before ds : List Declared} : repeatedNames before ds = [] ↔
    ds.Pairwise (fun e d => ¬ (e.kind = d.kind ∧ e.name = d.name)) ∧
      ∀ d ∈ ds, ∀ e ∈ before, ¬ (e.kind = d.kind ∧ e.name = d.name) := by
  induction ds generalizing before with
  | nil => simp [repeatedNames]
  | cons d ds ih =>
    simp only [repeatedNames]
    split
    · next e he =>
      have hmem := List.mem_of_find?_eq_some he
      have hsame := List.find?_some he
      simp only [reduceCtorEq, false_iff]
      rintro ⟨_, hbefore⟩
      exact hbefore d (by simp) e hmem (by simpa using hsame)
    · next hnone =>
      rw [ih]
      simp only [List.find?_eq_none, decide_eq_true_eq] at hnone
      rw [List.pairwise_cons]
      constructor
      · rintro ⟨hds, hbefore⟩
        refine ⟨⟨fun e he => hbefore e he d (by simp), hds⟩, ?_⟩
        intro x hx e he
        cases List.mem_cons.mp hx with
        | inl heq => exact heq ▸ hnone e he
        | inr hx => exact hbefore x hx e (by simp [he])
      · rintro ⟨⟨hd, hds⟩, hbefore⟩
        refine ⟨hds, ?_⟩
        intro x hx e he
        cases List.mem_append.mp he with
        | inl he => exact hbefore x (by simp [hx]) e he
        | inr heq =>
          obtain rfl := List.mem_singleton.mp heq
          exact hd x hx

theorem pairwise_ne_iff_nodup_namesOfKind {ds : List Declared}
    : ds.Pairwise (fun e d => ¬ (e.kind = d.kind ∧ e.name = d.name)) ↔
        ∀ k, (namesOfKind k ds).Nodup := by
  simp only [namesOfKind, List.Nodup, List.pairwise_map, List.pairwise_filter, decide_eq_true_eq]
  constructor
  · intro h k
    refine h.imp ?_
    rintro a b hab ha hb hname
    exact hab ⟨ha.trans hb.symm, hname⟩
  · intro h
    rw [List.pairwise_iff_getElem]
    rintro i j hi hj hij ⟨hkind, hname⟩
    exact List.pairwise_iff_getElem.mp (h ds[j].kind) i j hi hj hij hkind rfl hname

def declaredOfKind (corpus : Corpus) : Kind → List String
  | .alias => corpus.aliases.map (·.name)
  | .classType => corpus.classes.map (·.name)
  | .globalTable => corpus.namespaces.map (·.name)
  | .function => corpus.functions.map (·.qualifiedName)

theorem namesOfKind_declaredNames (k : Kind) (corpus : Corpus)
    : namesOfKind k (corpus.files.flatMap fun (key, f) => declaredNames key f) =
        declaredOfKind corpus k := by
  rw [namesOfKind, List.filter_flatMap, List.map_flatMap]
  cases k <;>
    simp [declaredOfKind, declaredNames, Declaration.Corpus.aliases, Declaration.Corpus.classes,
      Declaration.Corpus.namespaces, Declaration.Corpus.functions, List.filter_map, List.map_flatMap,
      Function.comp_def, List.filter_true, List.filter_false]

theorem sortedNames_eq_nil {names : List String} : sortedNames names = [] ↔ names = [] := by
  rw [sortedNames, ← List.length_eq_zero_iff, List.length_mergeSort, List.length_eq_zero_iff]
  cases names <;> simp [List.eraseDups_cons]

theorem duplicates_eq_nil {corpus : Corpus} : duplicates corpus = [] ↔
    (∀ k, (declaredOfKind corpus k).Nodup) ∧
      ∀ name, corpus.DeclaresAlias name → ¬ corpus.DeclaresClass name := by
  simp only [duplicates, List.append_eq_nil_iff, List.map_eq_nil_iff, sortedNames_eq_nil,
    repeatedNames_eq_nil, pairwise_ne_iff_nodup_namesOfKind, namesOfKind_declaredNames,
    List.filter_eq_nil_iff]
  simp [Declaration.Corpus.DeclaresAlias, Declaration.Corpus.DeclaresClass]

/-! Types and classes that are referred to -/

section

variable {corpus : Corpus}

def AllDeclared (corpus : Corpus) (t : TypeExpr) : Prop :=
  ∀ name, t.Mentions name →
    name ∈ TypeExpr.builtinNames ∨ corpus.DeclaresAlias name ∨ corpus.DeclaresClass name

theorem undefinedTypes_eq_nil {place : Place} {t : TypeExpr}
    : undefinedTypes (.ofCorpus corpus) place t = [] ↔ AllDeclared corpus t := by
  have heraseDups : ∀ names : List String, names.eraseDups = [] ↔ names = [] := by
    intro names
    cases names <;> simp [List.eraseDups_cons]
  simp [undefinedTypes, heraseDups, AllDeclared, TypeExpr.mem_namedReferences_iff,
    SymbolTable.definesType_ofCorpus]

theorem allDeclared_union {members : List TypeExpr}
    : AllDeclared corpus (.union members) ↔ ∀ t ∈ members, AllDeclared corpus t := by
  constructor
  · intro h t ht name hname
    apply h name
    obtain hname | ⟨args, hname⟩ := hname
    · exact .inl (.member ht hname)
    · exact .inr ⟨args, .member ht hname⟩
  · rintro h name (hname | ⟨args, hname⟩)
    · cases hname with
      | member ht hname => exact h _ ht name (.inl hname)
    · cases hname with
      | member ht hname => exact h _ ht name (.inr ⟨args, hname⟩)

theorem allDeclared_aliasType {a : Alias} : AllDeclared corpus a.type ↔
    (∀ t, a.base = some t → AllDeclared corpus t) ∧ ∀ m ∈ a.members, AllDeclared corpus m.type := by
  have hparts : (∀ t ∈ a.base.toList ++ a.members.map (·.type), AllDeclared corpus t) ↔
      (∀ t, a.base = some t → AllDeclared corpus t) ∧
        ∀ m ∈ a.members, AllDeclared corpus m.type := by
    simp [or_imp, forall_and]
  rw [← hparts, Alias.type]
  split
  · next t ht => simp [ht]
  · exact allDeclared_union

theorem aliasProblems_eq_nil {a : Alias} : aliasProblems (.ofCorpus corpus) a = [] ↔
    (∀ t, a.base = some t → AllDeclared corpus t) ∧ ∀ m ∈ a.members, AllDeclared corpus m.type := by
  rw [aliasProblems, undefinedTypes_eq_nil, allDeclared_aliasType]

theorem classProblems_eq_nil {c : ClassType} : classProblems (.ofCorpus corpus) c = [] ↔
    (∀ parent ∈ c.parents, corpus.DeclaresClass parent) ∧
      ∀ f ∈ c.fields, (∀ t, f.key = some t → AllDeclared corpus t) ∧ AllDeclared corpus f.type := by
  simp [classProblems, undefinedTypes_eq_nil, SymbolTable.hasClass_ofCorpus, forall_and]

theorem namespaceProblems_eq_nil {ns : Namespace}
    : namespaceProblems (.ofCorpus corpus) ns = [] ↔
        ∀ name, ns.className = some name → corpus.DeclaresClass name := by
  unfold namespaceProblems
  cases ns.className <;> simp [SymbolTable.hasClass_ofCorpus]

theorem signatureTypeProblems_eq_nil {f : Function}
    : signatureTypeProblems (.ofCorpus corpus) f = [] ↔
        (∀ p ∈ f.params, AllDeclared corpus p.type) ∧ ∀ r ∈ f.returns, AllDeclared corpus r.type := by
  have hreturns : (∀ x ∈ f.returns.zipIdx 1, AllDeclared corpus x.1.type) ↔
      ∀ r ∈ f.returns, AllDeclared corpus r.type := by
    conv_rhs => rw [← List.zipIdx_map_fst 1 f.returns]
    simp only [List.forall_mem_map]
  simp [signatureTypeProblems, undefinedTypes_eq_nil, ← hreturns]

theorem referenceProblems_eq_nil {file : File} : referenceProblems (.ofCorpus corpus) file = [] ↔
    (∀ t, file.Writes t → AllDeclared corpus t) ∧
    (∀ c ∈ file.classes, ∀ parent ∈ c.parents, corpus.DeclaresClass parent) ∧
    ∀ ns ∈ file.namespaces, ∀ name, ns.className = some name → corpus.DeclaresClass name := by
  simp only [referenceProblems, List.append_eq_nil_iff, List.flatMap_eq_nil_iff, aliasProblems_eq_nil,
    classProblems_eq_nil, namespaceProblems_eq_nil, signatureTypeProblems_eq_nil]
  constructor
  · rintro ⟨⟨⟨haliases, hclasses⟩, hnamespaces⟩, hfunctions⟩
    refine ⟨?_, fun c hc => (hclasses c hc).1, hnamespaces⟩
    intro t ht
    cases ht with
    | base ha hbase => exact (haliases _ ha).1 _ hbase
    | member ha hm => exact (haliases _ ha).2 _ hm
    | key hc hf hkey => exact ((hclasses _ hc).2 _ hf).1 _ hkey
    | field hc hf => exact ((hclasses _ hc).2 _ hf).2
    | param hf hp => exact (hfunctions _ hf).1 _ hp
    | result hf hr => exact (hfunctions _ hf).2 _ hr
  · rintro ⟨htypes, hparents, hnamespaces⟩
    refine ⟨⟨⟨?_, ?_⟩, hnamespaces⟩, ?_⟩
    · intro a ha
      exact ⟨fun t ht => htypes t (.base ha ht), fun m hm => htypes _ (.member ha hm)⟩
    · intro c hc
      refine ⟨hparents c hc, fun f hf => ?_⟩
      exact ⟨fun t ht => htypes t (.key hc hf ht), htypes _ (.field hc hf)⟩
    · intro f hf
      exact ⟨fun p hp => htypes _ (.param hf hp), fun r hr => htypes _ (.result hf hr)⟩

theorem forall_mem_flatMap_files {α : Type} {f : File → List α} {P : α → Prop}
    : (∀ x ∈ corpus.files.flatMap (f ·.2), P x) ↔ ∀ file ∈ corpus.files, ∀ x ∈ f file.2, P x := by
  simp only [List.mem_flatMap]
  constructor
  · intro h file hfile x hx
    exact h x ⟨file, hfile, hx⟩
  · rintro h x ⟨file, hfile, hx⟩
    exact h file hfile x hx

theorem forall_referenceProblems_eq_nil
    : (∀ file ∈ corpus.files, referenceProblems (.ofCorpus corpus) file.2 = []) ↔
        (∀ t, corpus.Writes t → AllDeclared corpus t) ∧
        (∀ c ∈ corpus.classes, ∀ parent ∈ c.parents, corpus.DeclaresClass parent) ∧
        ∀ ns ∈ corpus.namespaces, ∀ name, ns.className = some name → corpus.DeclaresClass name := by
  simp only [referenceProblems_eq_nil, Corpus.classes, Corpus.namespaces, forall_mem_flatMap_files,
    Corpus.Writes]
  constructor
  · intro h
    refine ⟨?_, fun file hfile => (h file hfile).2.1, fun file hfile => (h file hfile).2.2⟩
    rintro t ⟨file, hfile, ht⟩
    exact (h file hfile).1 t ht
  · rintro ⟨htypes, hparents, hnamespaces⟩ file hfile
    exact ⟨fun t ht => htypes t ⟨file, hfile, ht⟩, hparents file hfile, hnamespaces file hfile⟩

theorem ownerProblems_eq_nil {f : Function} : ownerProblems (.ofCorpus corpus) f = [] ↔
    ∀ owner, f.owner = some owner →
      corpus.DeclaresNamespace owner ∨ corpus.DeclaresClass owner := by
  unfold ownerProblems
  cases f.owner with
  | none => simp
  | some owner =>
    simp only [Option.some.injEq, forall_eq', ← SymbolTable.hasNamespace_ofCorpus,
      ← SymbolTable.hasClass_ofCorpus, ← Bool.or_eq_true]
    split <;> simp_all

end

/-! Documented parameters -/

theorem paramProblems_eq_nil {f : Function} {before : List String} {ps : List Param}
    : paramProblems f before ps = [] ↔ (ps.map (·.name)).Nodup ∧
        ∀ p ∈ ps, p.name ∉ before ∧ p.name ∈ f.signature := by
  induction ps generalizing before with
  | nil => simp [paramProblems]
  | cons p ps ih =>
    by_cases hbefore : p.name ∈ before
    · simp [paramProblems, hbefore]
    · by_cases hsignature : p.name ∈ f.signature
      · simp only [paramProblems, List.contains_eq_mem, hbefore, decide_false, Bool.false_eq_true,
          if_false, hsignature, decide_true, if_true, ih, List.map_cons, List.nodup_cons,
          List.mem_map, not_exists, not_and, List.mem_cons, not_or, forall_eq_or_imp, not_false_eq_true,
          and_self, true_and]
        constructor
        · rintro ⟨hnodup, h⟩
          exact ⟨⟨fun q hq => (h q hq).1.1, hnodup⟩, fun q hq => ⟨(h q hq).1.2, (h q hq).2⟩⟩
        · rintro ⟨⟨hne, hnodup⟩, h⟩
          exact ⟨hnodup, fun q hq => ⟨⟨hne q hq, (h q hq).1⟩, (h q hq).2⟩⟩
      · simp [paramProblems, hbefore, hsignature]

theorem signatureProblems_eq_nil {f : Function}
    : signatureProblems f = [] ↔ f.DocumentsSignature := by
  unfold signatureProblems Function.DocumentsSignature
  split
  · next hnil =>
    rw [paramProblems_eq_nil] at hnil
    have hfilter : (f.params.map (·.name)).filter (f.signature.contains ·) = f.params.map (·.name) := by
      rw [List.filter_eq_self]
      simpa using fun p hp => (hnil.2 p hp).2
    simp only [hfilter]
    split
    · next heq => simpa [hnil.1] using heq
    · next hne => simpa [hnil.1] using hne
  · next hproblems =>
    constructor
    · intro h
      exact absurd h hproblems
    · rintro ⟨hnodup, heq⟩
      apply absurd _ hproblems
      rw [paramProblems_eq_nil]
      refine ⟨hnodup, fun p hp => ⟨by simp, ?_⟩⟩
      have hname : p.name ∈ f.params.map (·.name) := List.mem_map_of_mem hp
      rw [heq] at hname
      exact (List.mem_filter.mp hname).1

theorem eq_filter_mem_of_sublist {names signature : List String} (hsub : names.Sublist signature)
    (hnodup : signature.Nodup) : names = signature.filter (· ∈ names) := by
  induction hsub with
  | slnil => rfl
  | cons name hsub ih =>
    obtain ⟨hname, hnodup⟩ := List.nodup_cons.mp hnodup
    rw [List.filter_cons_of_neg]
    · exact ih hnodup
    · simpa using fun h => hname (hsub.subset h)
  | @cons_cons names signature name hsub ih =>
    obtain ⟨hname, hnodup⟩ := List.nodup_cons.mp hnodup
    rw [List.filter_cons_of_pos (by simp), List.cons.injEq]
    refine ⟨rfl, (ih hnodup).trans (List.filter_congr fun x hx => ?_)⟩
    have hne : x ≠ name := fun h => hname (h ▸ hx)
    simp [hne]

theorem documentsSignature_iff_sublist {f : Function} (h : f.signature.Nodup)
    : f.DocumentsSignature ↔
        (f.params.map (·.name)).Nodup ∧ (f.params.map (·.name)).Sublist f.signature := by
  unfold Function.DocumentsSignature
  constructor
  · rintro ⟨hnodup, heq⟩
    refine ⟨hnodup, ?_⟩
    rw [heq]
    exact List.filter_sublist
  · rintro ⟨hnodup, hsub⟩
    exact ⟨hnodup, eq_filter_mem_of_sublist hsub h⟩

/--
The analysis is sound and complete.
-/
theorem problems_eq_nil_iff_consistent (corpus : Corpus)
    : (problems corpus = [] ↔ Consistent corpus) ∧
        ∀ f ∈ corpus.functions, f.signature.Nodup → (f.DocumentsSignature ↔
          (f.params.map (·.name)).Nodup ∧ (f.params.map (·.name)).Sublist f.signature) := by
  refine ⟨?_, fun f _ h => documentsSignature_iff_sublist h⟩
  simp only [problems, List.append_eq_nil_iff, List.flatMap_eq_nil_iff, duplicates_eq_nil,
    forall_referenceProblems_eq_nil, ownerProblems_eq_nil, signatureProblems_eq_nil]
  constructor
  · rintro ⟨⟨⟨hnodup, hne⟩, htypes, hparents, hnamespaces⟩, hfunctions⟩
    exact
      { aliases_nodup := hnodup .alias
        classes_nodup := hnodup .classType
        namespaces_nodup := hnodup .globalTable
        functions_nodup := hnodup .function
        alias_ne_class := hne
        type_declared := fun t name ht hname => htypes t ht name hname
        parent_declared := hparents
        namespace_class_declared := hnamespaces
        owner_declared := fun f hf => (hfunctions f hf).1
        params_documented := fun f hf => (hfunctions f hf).2 }
  · intro h
    refine ⟨⟨⟨?_, h.alias_ne_class⟩, ?_, h.parent_declared, h.namespace_class_declared⟩, ?_⟩
    · intro k
      match k with
      | .alias => exact h.aliases_nodup
      | .classType => exact h.classes_nodup
      | .globalTable => exact h.namespaces_nodup
      | .function => exact h.functions_nodup
    · exact fun t ht name hname => h.type_declared t name ht hname
    · exact fun f hf => ⟨h.owner_declared f hf, h.params_documented f hf⟩

end Analysis

end LuaTypes
