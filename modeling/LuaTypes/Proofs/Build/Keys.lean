import LuaTypes.Proofs.Build.Plain

/-!
Which sources share a key. A key says where its source stands, but it forgets the ending of the last name, and it does
not tell a backslash in a name from the end of a name.
-/

namespace LuaTypes.Build

open FileTree

def keyParts (names : List String) : List (List Char) :=
  (names.dropLast ++ names.getLast?.toList.map stem).flatMap fun name => Text.splitAtEach '\\' name.toList

variable {names names' init init' : List String} {last last' name : String}

theorem splitAtEach_join_map {parts : List String} (hne : parts ≠ []) (h : ∀ part ∈ parts, '/' ∉ part.toList)
    : Text.splitAtEach '/' ((Text.join "/" parts).toList.map fun c => if c = '\\' then '/' else c)
        = parts.flatMap fun name => Text.splitAtEach '\\' name.toList := by
  rw [Text.join, String.toList_intercalate]
  induction parts with
  | nil => exact absurd rfl hne
  | cons part parts ih =>
    rw [List.forall_mem_cons] at h
    cases parts with
    | nil => simpa [List.intercalate] using Text.splitAtEach_map h.1
    | cons next parts =>
      have hseparator : "/".toList.map (fun c => if c = '\\' then '/' else c) = ['/'] := by decide
      rw [List.map_cons, List.map_cons, List.intercalate_cons_cons, List.map_append, List.map_append,
        ← List.map_cons, List.append_assoc, hseparator, List.singleton_append,
        Text.splitAtEach_append_separator, Text.splitAtEach_map h.1, ih (by simp) h.2]
      rfl

theorem splitAtEach_key (hne : names ≠ []) (hslash : ∀ name ∈ names, '/' ∉ name.toList)
    : Text.splitAtEach '/' (key names).toList = keyParts names := by
  obtain ⟨init, last, rfl⟩ := (List.eq_nil_or_concat names).resolve_left hne
  rw [List.concat_eq_append] at hslash ⊢
  unfold key keyParts
  dsimp only
  rw [String.toList_ofList]
  simp only [List.dropLast_concat, List.getLast?_concat, Option.toList_some, List.map_cons, List.map_nil]
  exact splitAtEach_join_map (by simp)
    (notMem_of_mem_concat_stem (fun name hname => hslash name (by simp [hname])) (hslash last (by simp)))

theorem key_eq_key_iff (hne : names ≠ []) (hne' : names' ≠ []) (hslash : ∀ name ∈ names, '/' ∉ name.toList)
    (hslash' : ∀ name ∈ names', '/' ∉ name.toList)
    : key names = key names' ↔ keyParts names = keyParts names' := by
  rw [← splitAtEach_key hne hslash, ← splitAtEach_key hne' hslash']
  constructor
  · intro h
    rw [h]
  · intro h
    rw [Text.splitAtEach_eq_splitOn, Text.splitAtEach_eq_splitOn] at h
    rw [← String.toList_inj, ← @List.intercalate_splitOn _ (key names).toList _ _ '/', h, List.intercalate_splitOn]

/-! ### Names without a backslash -/

theorem keyParts_concat (hinit : ∀ name ∈ init, '\\' ∉ name.toList) (hlast : '\\' ∉ last.toList)
    : keyParts (init ++ [last]) = (init ++ [stem last]).map String.toList := by
  have hparts : ∀ part ∈ init ++ [stem last], Text.splitAtEach '\\' part.toList = [part.toList] :=
    fun part hpart => Text.splitAtEach_of_notMem (notMem_of_mem_concat_stem hinit hlast part hpart)
  unfold keyParts
  simp only [List.dropLast_concat, List.getLast?_concat, Option.toList_some, List.map_cons, List.map_nil]
  rw [List.flatMap_congr hparts, ← List.flatMap_pure_eq_map]
  rfl

theorem key_concat_eq_iff (h : ∀ name ∈ init ++ [last], IsPlain name) (h' : ∀ name ∈ init' ++ [last'], IsPlain name)
    : key (init ++ [last]) = key (init' ++ [last']) ↔ init = init' ∧ stem last = stem last' := by
  rw [key_eq_key_iff (by simp) (by simp) (fun name hname => (h name hname).slash)
      (fun name hname => (h' name hname).slash),
    keyParts_concat (fun name hname => (h name (by simp [hname])).backslash) (h last (by simp)).backslash,
    keyParts_concat (fun name hname => (h' name (by simp [hname])).backslash) (h' last' (by simp)).backslash,
    List.map_inj_right fun _ _ => String.toList_inj.1, ← List.concat_eq_append, ← List.concat_eq_append,
    List.concat_inj]

/-! ### Endings -/

theorem stem_of_hasSuffix (h : hasSuffix sourceSuffix name = true)
    : name = sourceSuffix ∧ stem name = sourceSuffix ∨ name = stem name ++ sourceSuffix := by
  unfold hasSuffix at h
  rw [List.isSuffixOf_iff_suffix] at h
  obtain ⟨before, h⟩ := h
  have hsplit : Text.splitAtLast? '.' name.toList = some (before, "lua".toList) := by
    rw [← h]
    exact Text.splitAtLast?_append (by decide) before
  have hstem : stem name = if before = [] then name else String.ofList before := by
    unfold stem
    rw [hsplit]
    simp
  by_cases hbefore : before = []
  · left
    have hname : name = sourceSuffix := by rw [← String.toList_inj, ← h, hbefore, List.nil_append]
    exact ⟨hname, by rw [hstem, if_pos hbefore, hname]⟩
  · right
    rw [hstem, if_neg hbefore, ← String.toList_inj, ← h, String.toList_append, String.toList_ofList]

theorem stem_sourceSuffix : stem sourceSuffix = sourceSuffix ∧ stem (sourceSuffix ++ sourceSuffix) = sourceSuffix := by
  decide

theorem stem_eq_stem_iff (h : hasSuffix sourceSuffix last = true) (h' : hasSuffix sourceSuffix last' = true)
    : stem last = stem last' ↔
        last = last' ∨ last = sourceSuffix ∧ last' = sourceSuffix ++ sourceSuffix ∨
          last = sourceSuffix ++ sourceSuffix ∧ last' = sourceSuffix := by
  constructor
  · intro hstem
    obtain ⟨hname, hbare⟩ | hname := stem_of_hasSuffix h
    · obtain ⟨hname', -⟩ | hname' := stem_of_hasSuffix h'
      · exact .inl (hname.trans hname'.symm)
      · rw [← hstem, hbare] at hname'
        exact .inr (.inl ⟨hname, hname'⟩)
    · obtain ⟨hname', hbare'⟩ | hname' := stem_of_hasSuffix h'
      · rw [hstem, hbare'] at hname
        exact .inr (.inr ⟨hname, hname'⟩)
      · rw [hstem, ← hname'] at hname
        exact .inl hname
  · rintro (rfl | ⟨rfl, rfl⟩ | ⟨rfl, rfl⟩)
    · rfl
    · rw [stem_sourceSuffix.1, stem_sourceSuffix.2]
    · rw [stem_sourceSuffix.1, stem_sourceSuffix.2]

theorem nodup_map_key_iff {sources : List (List String)} (hnodup : sources.Nodup)
    (hsource : ∀ names ∈ sources, names.getLast?.any (hasSuffix sourceSuffix) = true)
    (hplain : ∀ names ∈ sources, ∀ name ∈ names, IsPlain name)
    : (sources.map key).Nodup ↔
        ¬ ∃ directory, directory ++ [".lua"] ∈ sources ∧ directory ++ [".lua.lua"] ∈ sources := by
  have hkey : ∀ init last init' last', init ++ [last] ∈ sources → init' ++ [last'] ∈ sources →
      (key (init ++ [last]) = key (init' ++ [last']) ↔ init = init' ∧ stem last = stem last') :=
    fun init last init' last' h h' => key_concat_eq_iff (hplain _ h) (hplain _ h')
  have hconcat : ∀ names ∈ sources, ∃ init last, names = init ++ [last] ∧ hasSuffix sourceSuffix last = true := by
    intro names hnames
    have hsuffix := hsource names hnames
    obtain rfl | ⟨init, last, rfl⟩ := List.eq_nil_or_concat names
    · cases hsuffix
    · rw [List.concat_eq_append, List.getLast?_concat, Option.any_some] at hsuffix
      exact ⟨init, last, List.concat_eq_append, hsuffix⟩
  rw [List.nodup_map_iff_inj_on hnodup]
  constructor
  · rintro hinj ⟨directory, h, h'⟩
    have hsame := hinj _ h _ h' ((hkey _ _ _ _ h h').2 ⟨rfl, by decide⟩)
    exact absurd (List.append_cancel_left hsame) (by decide)
  · intro hnone names h names' h' hsame
    obtain ⟨init, last, rfl, hlast⟩ := hconcat names h
    obtain ⟨init', last', rfl, hlast'⟩ := hconcat names' h'
    obtain ⟨rfl, hstem⟩ := (hkey _ _ _ _ h h').1 hsame
    rcases (stem_eq_stem_iff hlast hlast').1 hstem with rfl | ⟨rfl, rfl⟩ | ⟨rfl, rfl⟩
    · rfl
    · exact absurd ⟨init, h, h'⟩ hnone
    · exact absurd ⟨init, h', h⟩ hnone

end LuaTypes.Build
