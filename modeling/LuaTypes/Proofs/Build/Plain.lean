import LuaTypes.Proofs.Build.Coherent

/-!
Sources with plain names: their artifacts stand in the build directory as the sources do in the library.
-/

namespace LuaTypes

theorem Text.mem_join {separator : String} {parts : List String} {c : Char}
    (h : c ∈ (join separator parts).toList)
    : c ∈ separator.toList ∨ ∃ part ∈ parts, c ∈ part.toList := by
  rw [join, String.toList_intercalate] at h
  induction parts with
  | nil => simp [List.intercalate] at h
  | cons part parts ih =>
    cases parts with
    | nil =>
      right
      exact ⟨part, by simp, by simpa [List.intercalate] using h⟩
    | cons next parts =>
      rw [List.map_cons, List.map_cons, List.intercalate_cons_cons, List.mem_append, List.mem_append] at h
      rcases h with (hpart | hseparator) | hrest
      · exact .inr ⟨part, by simp, hpart⟩
      · exact .inl hseparator
      · rcases ih hrest with hseparator | ⟨q, hq, hc⟩
        · exact .inl hseparator
        · exact .inr ⟨q, by simp [hq], hc⟩

theorem toList_stem_isPrefix (name : String) : (stem name).toList <+: name.toList := by
  unfold stem
  cases h : Text.splitAtLast? '.' name.toList with
  | none => exact List.prefix_refl _
  | some parts =>
    dsimp only
    split
    · exact List.prefix_refl _
    · rw [String.toList_ofList, Text.splitAtLast?_eq_some h]
      exact List.prefix_append _ _

namespace Build

open FileTree

structure IsPlain (name : String) : Prop where
  slash : '/' ∉ name.toList
  backslash : '\\' ∉ name.toList
  ne_empty : name ≠ ""
  ne_here : name ≠ "."
  ne_up : name ≠ Path.up

variable {names names' : List String} {init : List String} {last : String}

theorem notMem_of_mem_concat_stem {c : Char} (hinit : ∀ name ∈ init, c ∉ name.toList) (hlast : c ∉ last.toList)
    : ∀ part ∈ init ++ [stem last], c ∉ part.toList := by
  intro part hpart
  rw [List.mem_append, List.mem_singleton] at hpart
  cases hpart with
  | inl hpart => exact hinit part hpart
  | inr hpart =>
    rw [hpart]
    exact fun h => hlast ((toList_stem_isPrefix last).subset h)

theorem key_append_singleton (hinit : ∀ name ∈ init, '\\' ∉ name.toList) (hlast : '\\' ∉ last.toList)
    : key (init ++ [last]) = Text.join "/" (init ++ [stem last]) := by
  unfold key
  simp only [List.dropLast_concat, List.getLast?_concat, Option.toList_some, List.map_cons, List.map_nil]
  have hbackslash := notMem_of_mem_concat_stem hinit hlast
  generalize init ++ [stem last] = parts at hbackslash ⊢
  have hmap : (Text.join "/" parts).toList.map (fun c => if c = '\\' then '/' else c) =
      (Text.join "/" parts).toList.map id := by
    apply List.map_congr_left
    intro c hc
    rw [if_neg]
    · rfl
    · rintro rfl
      rcases Text.mem_join hc with hslash | ⟨part, hpart, hc⟩
      · simp at hslash
      · exact hbackslash part hpart hc
  rw [hmap, List.map_id, String.ofList_toList]

theorem trail_key (hplain : ∀ name ∈ init ++ [last], IsPlain name)
    : trail (key (init ++ [last])) = init ++ [stem last ++ artifactSuffix] := by
  have hinit : ∀ name ∈ init, IsPlain name := fun name hname => hplain name (by simp [hname])
  have hlast : IsPlain last := hplain last (by simp)
  have hparts : Text.splitAtEach '/' (key (init ++ [last])).toList =
      (init ++ [stem last]).map String.toList := by
    rw [key_append_singleton (fun name hname => (hinit name hname).backslash) hlast.backslash]
    have hjoin := @Text.splitAtEach_join '/' ((init ++ [stem last]).map String.toList) (by simp) (by
      intro l hl
      rw [List.mem_map] at hl
      obtain ⟨part, hpart, rfl⟩ := hl
      exact notMem_of_mem_concat_stem (fun name hname => (hinit name hname).slash) hlast.slash part hpart)
    rw [List.map_map] at hjoin
    have hid : String.ofList ∘ String.toList = id := by
      funext part
      simp
    rw [hid, List.map_id] at hjoin
    exact hjoin
  have hkept : (init.map String.toList).filter (fun p => p ≠ [] ∧ p ≠ ['.']) = init.map String.toList := by
    rw [List.filter_eq_self]
    intro p hp
    rw [List.mem_map] at hp
    obtain ⟨name, hname, rfl⟩ := hp
    rw [decide_eq_true_eq]
    constructor
    · intro hnil
      exact (hinit name hname).ne_empty (String.toList_eq_nil_iff.1 hnil)
    · intro hhere
      apply (hinit name hname).ne_here
      rw [← @String.ofList_toList name, hhere]
  unfold trail
  dsimp only
  rw [hparts, List.map_append, List.map_cons, List.map_nil, List.dropLast_concat, List.getLastD_concat,
    hkept, String.ofList_toList, List.map_map]
  simp

theorem ne_up_of_mem_trail (hplain : ∀ name ∈ init ++ [last], IsPlain name)
    : ∀ name ∈ trail (key (init ++ [last])), name ≠ Path.up := by
  rw [trail_key hplain]
  intro name hname
  rw [List.mem_append, List.mem_singleton] at hname
  obtain hname | rfl := hname
  · exact (hplain name (by simp [hname])).ne_up
  · exact append_artifactSuffix_ne_up _

theorem artifactPlace_concat (hplain : ∀ name ∈ init ++ [last], IsPlain name) (top : Location)
    : artifactPlace top (init ++ [last]) = top ++ (init ++ [stem last ++ artifactSuffix]) := by
  rw [artifactPlace, follow_of_ne_up (ne_up_of_mem_trail hplain), trail_key hplain]

theorem key_eq_of_artifactPlace_eq {top : Location} (hne : names ≠ []) (hne' : names' ≠ [])
    (h : ∀ name ∈ names, IsPlain name) (h' : ∀ name ∈ names', IsPlain name)
    (hplace : artifactPlace top names = artifactPlace top names')
    : key names = key names' := by
  obtain ⟨init, last, rfl⟩ := (List.eq_nil_or_concat names).resolve_left hne
  obtain ⟨init', last', rfl⟩ := (List.eq_nil_or_concat names').resolve_left hne'
  rw [List.concat_eq_append] at h hplace ⊢
  rw [List.concat_eq_append] at h' hplace ⊢
  rw [artifactPlace_concat h, artifactPlace_concat h', List.append_cancel_left_eq, ← List.concat_eq_append,
    ← List.concat_eq_append, List.concat_inj] at hplace
  have hstem := congrArg String.toList hplace.2
  rw [String.toList_append, String.toList_append, List.append_cancel_right_eq, String.toList_inj] at hstem
  rw [key_append_singleton (fun name hname => (h name (by simp [hname])).backslash) (h last (by simp)).backslash,
    key_append_singleton (fun name hname => (h' name (by simp [hname])).backslash) (h' last' (by simp)).backslash,
    hplace.1, hstem]

/-! ### Room for artifacts -/

variable {p : Project} {used : List String → Prop}

/--
All sources in use have plain names, none of which could be that of an artifact, and the paths to their
artifacts are not too long.
-/
structure Project.Plain (p : Project) (used : List String → Prop) : Prop where
  named : ∀ names, used names → names ≠ []
  plain : ∀ names, used names → ∀ name ∈ names, IsPlain name
  no_artifact : ∀ names, used names → ∀ name ∈ names, hasSuffix artifactSuffix name = false
  fits : ∀ names, used names → Fits (p.build.descend (trail (key names)))
  short : ∀ names, used names → ∀ name ∈ trail (key names), name.utf8ByteSize ≤ nameLimit

theorem Project.Plain.trail_eq (h : p.Plain used) (hnames : used names)
    : ∃ init last, names = init ++ [last] ∧ trail (key names) = init ++ [stem last ++ artifactSuffix] := by
  obtain ⟨init, last, rfl⟩ := (List.eq_nil_or_concat names).resolve_left (h.named names hnames)
  rw [List.concat_eq_append] at hnames ⊢
  exact ⟨init, last, rfl, trail_key (h.plain _ hnames)⟩

theorem Project.Plain.follow_eq (h : p.Plain used) (hnames : used names) {w : List String}
    (hw : w <+: trail (key names)) (place : Location)
    : follow place w = place ++ w := by
  obtain ⟨init, last, rfl, -⟩ := h.trail_eq hnames
  exact follow_of_ne_up (fun name hname => ne_up_of_mem_trail (h.plain _ hnames) name (hw.subset hname)) place

theorem Project.Plain.spacious (h : p.Plain used) : Spacious p.build p.top used where
  inside := by
    intro names hnames w hw
    rw [h.follow_eq hnames hw]
    exact List.prefix_append _ _
  clear := by
    intro names names' hnames hnames' w hw hplace
    rw [h.follow_eq hnames' (hw.trans (List.dropLast_prefix _)), artifactPlace,
      h.follow_eq hnames (List.prefix_refl _)] at hplace
    have heq := List.append_cancel_left hplace
    obtain ⟨init, last, rfl, htrail⟩ := h.trail_eq hnames
    obtain ⟨init', last', rfl, htrail'⟩ := h.trail_eq hnames'
    rw [htrail', List.dropLast_concat] at hw
    rw [htrail] at heq
    have hmem : stem last ++ artifactSuffix ∈ init' := hw.subset (by simp [heq])
    have hsuffix : hasSuffix artifactSuffix (stem last ++ artifactSuffix) = true := by
      unfold hasSuffix
      rw [String.toList_append, List.isSuffixOf_iff_suffix]
      exact List.suffix_append _ _
    rw [h.no_artifact _ hnames' _ (List.mem_append_left _ hmem)] at hsuffix
    cases hsuffix
  fits := h.fits
  short := h.short

theorem Project.Plain.usable (h : p.Plain used) (houtside : ¬ p.root <+: p.top)
    (habove : ¬ p.top <+: p.root)
    : p.Usable used where
  outside := houtside
  above := habove
  ordinary := fun names hnames name hname => (h.plain names hnames name hname).ne_up
  spacious := h.spacious

theorem Project.Plain.apart (h : p.Plain used)
    (hkeys : ∀ names names', used names → used names' → key names = key names' → names = names')
    : Apart p.top used := by
  intro names names' hnames hnames' hplace
  apply hkeys names names' hnames hnames'
  exact key_eq_of_artifactPlace_eq (h.named _ hnames) (h.named _ hnames') (h.plain _ hnames) (h.plain _ hnames') hplace

end Build

end LuaTypes
