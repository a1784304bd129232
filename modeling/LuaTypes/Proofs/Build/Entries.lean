import Mathlib.Data.List.Dedup
import LuaTypes.Proofs.Build.Collision
import LuaTypes.Proofs.Build.Frame
import LuaTypes.Proofs.Build.Keys

/-!
The entries of a library that is loaded or compiled. As long as its sources have keys of their own, each of them has an
entry, and a build that starts without artifacts takes no entry from the artifact of another source.
-/

namespace LuaTypes

open Declaration FileTree

/-! ### Trees of files -/

namespace FileTree

structure IsName (name : String) : Prop where
  slash : '/' ∉ name.toList
  ne_empty : name ≠ ""
  ne_here : name ≠ "."
  ne_up : name ≠ Path.up

instance : DecidablePred IsName := fun name =>
  decidable_of_iff ('/' ∉ name.toList ∧ name ≠ "" ∧ name ≠ "." ∧ name ≠ Path.up)
    ⟨fun h => ⟨h.1, h.2.1, h.2.2.1, h.2.2.2⟩, fun h => ⟨h.slash, h.ne_empty, h.ne_here, h.ne_up⟩⟩

/--
A tree as it can be: nothing stands outside of a directory, or under a name that no file can have.
-/
structure Legal (t : FileTree) : Prop where
  wellFormed : t.WellFormed
  above : ∀ l e, t.lookup? l = some e → ∀ w, w <+: l → w ≠ l → t.isDirectoryAt w = true
  named : ∀ l e, t.lookup? l = some e → ∀ name ∈ l, IsName name

variable {t : FileTree}

theorem legal_of_entries (hnodup : (t.entries.map (·.1)).Nodup)
    (h : ∀ entry ∈ t.entries, (∀ w ∈ above entry.1, t.isDirectoryAt w = true) ∧ ∀ name ∈ entry.1, IsName name)
    : t.Legal := by
  constructor
  case wellFormed => exact hnodup
  case above =>
    intro l e he w hw hne
    by_cases hl : l = []
    · exact absurd (List.prefix_nil.1 (hl ▸ hw)) (hl ▸ hne)
    · exact (h _ (mem_entries_of_lookup? he hl)).1 w (mem_above_iff.2 ⟨hw, hne⟩)
  case named =>
    intro l e he
    by_cases hl : l = []
    · simp [hl]
    · exact (h _ (mem_entries_of_lookup? he hl)).2

end FileTree

namespace Build

variable {t t₀ : FileTree} {P : Location → Prop} {now : Int} {names : List String} {root top : Location}
  {library build source artifact : Path}

theorem placeOf_artifactPath (t : FileTree) (build : Path) (names : List String)
    : t.placeOf (artifactPath build (key names)) = artifactPlace (t.placeOf build) names := by
  rw [artifactPath_eq, placeOf, placeOf, artifactPlace, Path.descend]
  exact List.foldl_append

/-! ### A source without an artifact -/

section

variable [Artifact.Codec]

/--
An error that keeps a source from its artifact: the place is out of reach, or the file is refused.
-/
def Withheld (compiled : Except Error File) (e : Error) : Prop :=
  (∃ fault, e = .access fault) ∨ Refused compiled e

theorem withheld_of_writeArtifact {file : File} {e : Error} {t' : FileTree}
    (h : writeArtifact now file artifact t = .error e t')
    : Withheld (.ok file) e := by
  rw [writeArtifact_eq] at h
  split at h
  next =>
    cases h
    exact .inl ⟨_, rfl⟩
  next =>
    split at h
    next hrefused =>
      cases h
      exact .inr (.intro hrefused)
    next =>
      split at h
      · cases h
      · cases h
        exact .inl ⟨_, rfl⟩

theorem readArtifact_of_no_file (h : ∀ place, t.locate artifact = .ok place → t.file? place = none)
    : ∃ e, readArtifact t artifact = .error (.unreadable (.access e)) := by
  unfold readArtifact readText readBytes
  cases hlocate : t.locate artifact with
  | error fault => exact ⟨_, rfl⟩
  | ok place =>
    have hnone := h place hlocate
    unfold file? at hnone
    dsimp only
    cases he : t.lookup? place with
    | none => exact ⟨_, rfl⟩
    | some e =>
      cases e with
      | directory => exact ⟨_, rfl⟩
      | file content modified =>
        rw [he] at hnone
        cases hnone

theorem outcome_compileSource_of_no_file (h : ∀ place, t.locate artifact = .ok place → t.file? place = none)
    : outcome (compileSource now source artifact t) = compileFile t source ∨
        ∃ e, Withheld (compileFile t source) e ∧ outcome (compileSource now source artifact t) = .error e := by
  obtain ⟨e, hread⟩ := readArtifact_of_no_file h
  have hcached : Build.cached? t source artifact = .ok none ∨ ∃ e, Build.cached? t source artifact = .error e := by
    rw [cached?_eq, hread]
    split
    next e _ => exact .inr ⟨e, rfl⟩
    next => exact .inl rfl
    next => exact .inr ⟨e, rfl⟩
  rw [compileSource_eq]
  obtain hmiss | ⟨e, hfault⟩ := hcached
  · rw [hmiss]
    dsimp only
    cases compileFile t source with
    | error e => exact .inl rfl
    | ok file =>
      dsimp only
      split
      next => exact .inl rfl
      next e _ hwrite => exact .inr ⟨e, withheld_of_writeArtifact hwrite, rfl⟩
  · rw [hfault]
    exact .inr ⟨.access e, .inl ⟨e, rfl⟩, rfl⟩

end

/-! ### A source in a changed tree -/

theorem not_isArtifact_of_isSource (h : IsSource t root names) : ¬ IsArtifact (root ++ names) := by
  obtain ⟨hsource, -⟩ := h
  obtain rfl | ⟨init, name, rfl⟩ := List.eq_nil_or_concat names
  · cases hsource
  · unfold IsArtifact
    rw [List.concat_eq_append, List.getLast?_concat, Option.any_some] at hsource
    rw [List.concat_eq_append, ← List.append_assoc, List.getLast?_concat, Option.any_some]
    exact not_hasSuffix_both hsource

theorem compileFile_of_lasting (h : Lasting P t₀ t) (ht : t₀.Legal) (hlibrary : t₀.locate library = .ok root)
    (hsource : IsSource t₀ root names) (hplace : ¬ P (root ++ names))
    : compileFile t (library.descend names) = compileFile t₀ (library.descend names) := by
  obtain ⟨-, content, modified, hfile⟩ := hsource
  have hup : ∀ name ∈ names, name ≠ Path.up := fun name hname => (ht.named _ _ hfile name (by simp [hname])).ne_up
  have hway : ∀ w, w <+: names → w ≠ names → t₀.isDirectoryAt (follow root w) = true := by
    intro w hw hne
    rw [follow_of_ne_up fun name hname => hup name (hw.subset hname)]
    exact ht.above _ _ hfile _ ((List.prefix_append_right_inj root).2 hw) fun heq => hne (List.append_cancel_left heq)
  have hlocate : t.locate (library.descend names) = t₀.locate (library.descend names) := by
    by_cases hfits : Fits (library.descend names)
    · rw [locate_descend hlibrary hfits, locate_descend (locate_mono h.directory h.working hlibrary) hfits]
      exact walk_eq_walk (fun w hw hne => h.directory _ (hway w hw hne)) hway
    · exact locate_of_not_fits hfits t t₀
  have hlookup : t.lookup? (root ++ names) = t₀.lookup? (root ++ names) := by
    have hsame : t.file? (root ++ names) = some (.file content modified) := by
      rw [h.frame _ hplace, file?_eq_some_iff]
      exact ⟨hfile, rfl⟩
    rw [hfile]
    exact (file?_eq_some_iff.1 hsame).1
  unfold compileFile
  rw [readText_congr hlocate]
  intro place hthere
  rw [locate_descend hlibrary (fits_of_locate hthere)] at hthere
  rw [eq_follow_of_walk hthere, follow_of_ne_up hup, hlookup]

/-! ### Entries -/

variable {load : List String → Except Error File} {sources : List (List String)} {corpus corpus' : Corpus}

def collect (load : List String → Except Error File) (corpus : Corpus) (sources : List (List String))
    : Except Error Corpus :=
  sources.foldlM (fun corpus names => do return corpus.insert (key names) (← load names)) corpus

theorem collect_cons (load : List String → Except Error File) (corpus : Corpus) (names : List String)
    (sources : List (List String))
    : collect load corpus (names :: sources) =
        match load names with
        | .error e => .error e
        | .ok file => collect load (corpus.insert (key names) file) sources := by
  rw [collect, List.foldlM_cons]
  cases load names <;> rfl

theorem insertFile_of_notMem {key : String} {files : List (String × File)} (h : key ∉ files.map Prod.fst)
    (file : File)
    : Corpus.insertFile key file files = files ++ [(key, file)] := by
  induction files with
  | nil => rfl
  | cons head rest ih =>
    obtain ⟨k, f⟩ := head
    rw [List.map_cons, List.mem_cons, not_or] at h
    rw [Corpus.insertFile, if_neg (Ne.symm h.1), ih h.2]
    rfl

theorem map_fst_insertFile_of_mem {key : String} {files : List (String × File)} (h : key ∈ files.map Prod.fst)
    (file : File)
    : (Corpus.insertFile key file files).map Prod.fst = files.map Prod.fst := by
  induction files with
  | nil => cases h
  | cons head rest ih =>
    obtain ⟨k, f⟩ := head
    rw [Corpus.insertFile]
    by_cases hk : k = key
    · rw [if_pos hk]
      rfl
    · rw [List.map_cons, List.mem_cons] at h
      rw [if_neg hk, List.map_cons, List.map_cons, ih (h.resolve_left (Ne.symm hk))]

theorem collect_of_nodup (h : (corpus.files.map Prod.fst ++ sources.map key).Nodup)
    : collect load corpus sources
        = (sources.mapM fun names => (load names).map (Prod.mk (key names))).map
            fun files => ⟨corpus.files ++ files⟩ := by
  induction sources generalizing corpus with
  | nil => simp [collect, Except.map, pure, Except.pure]
  | cons names sources ih =>
    rw [collect_cons, List.mapM_cons]
    cases load names with
    | error e => rfl
    | ok file =>
      have hnew : key names ∉ corpus.files.map Prod.fst := by
        intro hmem
        rw [List.nodup_append] at h
        exact h.2.2 _ hmem _ (by simp) rfl
      have hinsert : (corpus.insert (key names) file).files = corpus.files ++ [(key names, file)] :=
        insertFile_of_notMem hnew file
      dsimp only
      rw [ih (by rw [hinsert]; simpa using h), hinsert]
      change _ = Except.map _ (Except.bind (Except.ok (key names, file)) _)
      cases sources.mapM fun names => (load names).map (Prod.mk (key names)) with
      | error e => rfl
      | ok files =>
        change Except.ok (Corpus.mk (_ ++ files)) = .ok (Corpus.mk (_ ++ (_ :: files)))
        rw [List.append_assoc, List.singleton_append]

theorem keys_of_collect (hnodup : (corpus.files.map Prod.fst).Nodup) (h : collect load corpus sources = .ok corpus')
    : (corpus'.files.map Prod.fst).Nodup ∧
        ∀ k, k ∈ corpus'.files.map Prod.fst ↔ k ∈ corpus.files.map Prod.fst ∨ k ∈ sources.map key := by
  induction sources generalizing corpus with
  | nil =>
    cases h
    simpa using hnodup
  | cons names sources ih =>
    rw [collect_cons] at h
    split at h
    next => cases h
    next file _ =>
      -- A key that is there already is overwritten where it stands.
      by_cases hmem : key names ∈ corpus.files.map Prod.fst
      case pos =>
        have hinsert : (corpus.insert (key names) file).files.map Prod.fst = corpus.files.map Prod.fst :=
          map_fst_insertFile_of_mem hmem file
        obtain ⟨hnodup', hkeys⟩ := ih (by rwa [hinsert]) h
        refine ⟨hnodup', fun k => ?_⟩
        rw [hkeys, hinsert, List.map_cons, List.mem_cons]
        constructor
        · rintro (hk | hk)
          · exact .inl hk
          · exact .inr (.inr hk)
        · rintro (hk | rfl | hk)
          · exact .inl hk
          · exact .inl hmem
          · exact .inr hk
      case neg =>
        have hinsert : (corpus.insert (key names) file).files.map Prod.fst
            = corpus.files.map Prod.fst ++ [key names] := by
          change (Corpus.insertFile _ _ _).map Prod.fst = _
          rw [insertFile_of_notMem hmem, List.map_append]
          rfl
        obtain ⟨hnodup', hkeys⟩ := ih (by rw [hinsert, ← List.concat_eq_append]; exact hnodup.concat hmem) h
        refine ⟨hnodup', fun k => ?_⟩
        rw [hkeys, hinsert, List.map_cons, List.mem_cons, List.mem_append, List.mem_singleton, or_assoc]

theorem length_files_of_collect (h : collect load {} sources = .ok corpus')
    : corpus'.files.length = sources.length ↔ (sources.map key).Nodup := by
  obtain ⟨hnodup, hmem⟩ := @keys_of_collect load sources {} corpus' List.nodup_nil h
  have hperm : (corpus'.files.map Prod.fst).Perm (sources.map key).dedup := by
    rw [List.perm_ext_iff_of_nodup hnodup (List.nodup_dedup _)]
    intro k
    rw [hmem, List.mem_dedup]
    simp
  have hlength := hperm.length_eq
  rw [List.length_map] at hlength
  rw [hlength, ← List.dedup_eq_self]
  constructor
  · intro hsame
    exact (List.dedup_sublist _).eq_of_length (by rw [hsame, List.length_map])
  · intro hsame
    rw [hsame, List.length_map]

/-! ### All sources -/

section

variable [Artifact.Codec]

theorem outcome_compileSources (ht : t₀.Legal) (hlibrary : t₀.locate library = .ok root)
    (hempty : ∀ l, t₀.placeOf build <+: l → l ≠ t₀.placeOf build → t₀.file? l = none)
    {done : List (List String)} (hsources : ∀ names ∈ sources, IsSource t₀ root names)
    (hinside : ∀ names ∈ sources, t₀.placeOf build <+: artifactPlace (t₀.placeOf build) names ∧
      artifactPlace (t₀.placeOf build) names ≠ t₀.placeOf build)
    (hapart : ((done ++ sources).map (artifactPlace (t₀.placeOf build))).Nodup)
    (h : Lasting (fun l => l ∈ done.map (artifactPlace (t₀.placeOf build))) t₀ t) (corpus : Corpus)
    : outcome (compileSources now library build corpus sources t)
          = collect (fun names => compileFile t₀ (library.descend names)) corpus sources ∨
        ∃ names ∈ sources, ∃ e, Withheld (compileFile t₀ (library.descend names)) e ∧
          outcome (compileSources now library build corpus sources t) = .error e := by
  -- The sources in `done` have their artifacts; no source to come shares a place with them.
  induction sources generalizing done t corpus with
  | nil => exact .inl rfl
  | cons names sources ih =>
    rw [List.forall_mem_cons] at hsources hinside
    have hbuild : t.placeOf build = t₀.placeOf build := h.placeOf build
    have hfree : ∀ place, t.locate (artifactPath build (key names)) = .ok place → t.file? place = none := by
      intro place hplace
      have hartifact : place = artifactPlace (t₀.placeOf build) names := by
        rw [← hbuild, ← placeOf_artifactPath]
        exact eq_follow_of_locate hplace
      rw [hartifact, h.frame _ ?_]
      · exact hempty _ hinside.1.1 hinside.1.2
      · intro hdone
        rw [List.map_append, List.map_cons, List.nodup_append] at hapart
        exact hapart.2.2 _ hdone _ (List.mem_cons_self ..) rfl
    have hcompile : compileFile t (library.descend names) = compileFile t₀ (library.descend names) := by
      apply compileFile_of_lasting h ht hlibrary hsources.1
      intro hdone
      obtain ⟨names', -, hplace⟩ := List.mem_map.1 hdone
      apply not_isArtifact_of_isSource hsources.1
      rw [← hplace]
      exact isArtifact_follow_trail _ _
    have hlasting := lasting_compileSource now (library.descend names) build (key names) t
    have houtcome := @outcome_compileSource_of_no_file t now (library.descend names) _ _ hfree
    rw [placeOf_artifactPath, hbuild] at hlasting
    rw [hcompile] at houtcome
    rw [compileSources, bind_eq, collect_cons]
    cases hstep : compileSource now (library.descend names) (artifactPath build (key names)) t with
    | error e t' =>
      rw [hstep] at houtcome
      obtain houtcome | ⟨e', hwithheld, houtcome⟩ := houtcome
      · rw [← houtcome]
        exact .inl rfl
      · cases houtcome
        exact .inr ⟨names, List.mem_cons_self, e, hwithheld, rfl⟩
    | ok file t' =>
      rw [hstep] at houtcome hlasting
      obtain houtcome | ⟨e', -, houtcome⟩ := houtcome
      · have hdone : ∀ l, l ∈ done.map (artifactPlace (t₀.placeOf build)) →
            l ∈ (done ++ [names]).map (artifactPlace (t₀.placeOf build)) := by
          intro l hl
          rw [List.map_append]
          exact List.mem_append_left _ hl
        have hnew : ∀ l, l = artifactPlace (t₀.placeOf build) names →
            l ∈ (done ++ [names]).map (artifactPlace (t₀.placeOf build)) := by
          intro l hl
          rw [hl]
          simp
        have hlast := (h.mono hdone).trans (hlasting.mono hnew)
        rw [List.append_cons] at hapart
        rw [← houtcome]
        apply (ih hsources.2 hinside.2 hapart hlast (corpus.insert (key names) file)).imp_right
        rintro ⟨names', hnames', hrest⟩
        exact ⟨names', List.mem_cons_of_mem _ hnames', hrest⟩
      · cases houtcome

end

/-! ### Libraries -/

theorem loadLibrary_of_isDirectory (h : t.isDirectory library = .ok true)
    : loadLibrary t library
        = collect (fun names => compileFile t (library.descend names)) {} (sourceNames t library) := by
  rw [loadLibrary_eq, h]
  rfl

theorem isSource_of_mem_sourceNames (ht : t.WellFormed) (hdirectory : t.isDirectory library = .ok true)
    (hnames : names ∈ sourceNames t library)
    : IsSource t (t.placeOf library) names := by
  have hlibrary := locate_of_isDirectory hdirectory
  exact (mem_sourceNames_iff ht hlibrary (isDirectoryAt_of_isDirectory hdirectory hlibrary)).1 hnames

theorem outcome_compileLibrary_of_apart [Artifact.Codec] (ht : t.Legal) (hdirectory : t.isDirectory library = .ok true)
    (hempty : ∀ l, t.placeOf build <+: l → l ≠ t.placeOf build → t.file? l = none)
    (hinside : ∀ names ∈ sourceNames t library, t.placeOf build <+: artifactPlace (t.placeOf build) names ∧
      artifactPlace (t.placeOf build) names ≠ t.placeOf build)
    (hapart : ((sourceNames t library).map (artifactPlace (t.placeOf build))).Nodup)
    : outcome (compileLibrary now library build t) = loadLibrary t library ∨
        ∃ names ∈ sourceNames t library, ∃ e, Withheld (compileFile t (library.descend names)) e ∧
          outcome (compileLibrary now library build t) = .error e := by
  rw [compileLibrary_eq, hdirectory, loadLibrary_of_isDirectory hdirectory]
  have hsources : ∀ names ∈ sourceNames t library, IsSource t (t.placeOf library) names :=
    fun names hnames => isSource_of_mem_sourceNames ht.wellFormed hdirectory hnames
  have hnone : Lasting (fun l => l ∈ ([] : List (List String)).map (artifactPlace (t.placeOf build))) t t := .refl _ t
  exact outcome_compileSources ht (locate_of_isDirectory hdirectory) hempty hsources hinside hapart hnone {}

section

variable (ht : t.Legal) (hdirectory : t.isDirectory library = .ok true)

include ht hdirectory

theorem isName_of_mem_sourceNames (hnames : names ∈ sourceNames t library) : ∀ name ∈ names, IsName name := by
  obtain ⟨-, content, modified, hfile⟩ := isSource_of_mem_sourceNames ht.wellFormed hdirectory hnames
  exact fun name hname => ht.named _ _ hfile name (by simp [hname])

theorem ne_nil_of_mem_sourceNames (hnames : names ∈ sourceNames t library) : names ≠ [] := by
  rintro rfl
  cases (isSource_of_mem_sourceNames ht.wellFormed hdirectory hnames).1

theorem nodup_map_key_iff_keyParts
    : ((sourceNames t library).map key).Nodup ↔ ((sourceNames t library).map keyParts).Nodup := by
  have hnodup := nodup_sourceNames ht.wellFormed library
  have hne := fun names => @ne_nil_of_mem_sourceNames t names library ht hdirectory
  have hslash := fun names hnames name hname =>
    (@isName_of_mem_sourceNames t names library ht hdirectory hnames name hname).slash
  rw [List.nodup_map_iff_inj_on hnodup, List.nodup_map_iff_inj_on hnodup]
  refine forall₂_congr fun names h => forall₂_congr fun names' h' => ?_
  rw [key_eq_key_iff (hne names h) (hne names' h') (hslash names h) (hslash names' h')]

theorem outcome_compileLibrary_of_nodup [Artifact.Codec]
    (hplain : ∀ names ∈ sourceNames t library, ∀ name ∈ names, IsPlain name)
    (hkeys : ((sourceNames t library).map key).Nodup)
    (hempty : ∀ l, t.placeOf build <+: l → l ≠ t.placeOf build → t.file? l = none)
    : outcome (compileLibrary now library build t) = loadLibrary t library ∨
        ∃ names ∈ sourceNames t library, ∃ e, Withheld (compileFile t (library.descend names)) e ∧
          outcome (compileLibrary now library build t) = .error e := by
  have hne := fun names => @ne_nil_of_mem_sourceNames t names library ht hdirectory
  apply outcome_compileLibrary_of_apart ht hdirectory hempty
  · intro names hnames
    obtain ⟨init, last, rfl⟩ := (List.eq_nil_or_concat names).resolve_left (hne names hnames)
    rw [List.concat_eq_append] at hnames ⊢
    rw [artifactPlace_concat (hplain _ hnames)]
    exact ⟨List.prefix_append _ _, by simp⟩
  · rw [List.nodup_map_iff_inj_on (nodup_sourceNames ht.wellFormed library)]
    intro names h names' h' hplace
    exact List.inj_on_of_nodup_map hkeys h h'
      (key_eq_of_artifactPlace_eq (hne names h) (hne names' h') (hplain names h) (hplain names' h') hplace)

/--
Which sources keep an entry of their own. Two sources share a key if their names without the ending are the same, parted
at every backslash; a library loads to as many entries as it has sources unless two of them share a key, and then each
entry has the key of its own source and says what this source says. Where no name holds a backslash, only the sources
`.lua` and `.lua.lua` in one directory share a key, and a build from a directory without files gives the same entries,
unless a source cannot get an artifact.
-/
theorem loadLibrary_keeps_entries [Artifact.Codec]
    : (((sourceNames t library).map key).Nodup ↔ ((sourceNames t library).map keyParts).Nodup) ∧
        (∀ corpus, loadLibrary t library = .ok corpus →
          (corpus.files.length = (sourceNames t library).length ↔ ((sourceNames t library).map key).Nodup)) ∧
        (((sourceNames t library).map key).Nodup →
          loadLibrary t library
            = ((sourceNames t library).mapM fun names =>
                (compileFile t (library.descend names)).map (Prod.mk (key names))).map Corpus.mk) ∧
        ((∀ names ∈ sourceNames t library, ∀ name ∈ names, '\\' ∉ name.toList) →
          (((sourceNames t library).map key).Nodup ↔
            ¬ ∃ directory, directory ++ [".lua"] ∈ sourceNames t library ∧
              directory ++ [".lua.lua"] ∈ sourceNames t library) ∧
          (((sourceNames t library).map key).Nodup → ∀ (now : Int) (build : Path),
            (∀ l, t.placeOf build <+: l → l ≠ t.placeOf build → t.file? l = none) →
              outcome (compileLibrary now library build t) = loadLibrary t library ∨
                ∃ names ∈ sourceNames t library, ∃ e, Withheld (compileFile t (library.descend names)) e ∧
                  outcome (compileLibrary now library build t) = .error e)) := by
  have hload := loadLibrary_of_isDirectory hdirectory
  refine ⟨nodup_map_key_iff_keyParts ht hdirectory, ?_, ?_, ?_⟩
  · intro corpus hcorpus
    rw [hload] at hcorpus
    exact length_files_of_collect hcorpus
  · intro hkeys
    rw [hload]
    exact @collect_of_nodup (fun names => compileFile t (library.descend names)) _ {} hkeys
  · intro hbackslash
    have hplain : ∀ names ∈ sourceNames t library, ∀ name ∈ names, IsPlain name := by
      intro names hnames name hname
      obtain ⟨hslash, hempty, hhere, hup⟩ := isName_of_mem_sourceNames ht hdirectory hnames name hname
      exact ⟨hslash, hbackslash names hnames name hname, hempty, hhere, hup⟩
    refine ⟨?_, fun hkeys now build hempty => outcome_compileLibrary_of_nodup ht hdirectory hplain hkeys hempty⟩
    apply nodup_map_key_iff (nodup_sourceNames ht.wellFormed library) _ hplain
    exact fun names hnames => (isSource_of_mem_sourceNames ht.wellFormed hdirectory hnames).1

end

/-! ### Two small libraries -/

theorem sourceNames_of_pairwise (hlibrary : t.locate library = .ok root) (hroot : t.isDirectoryAt root = true)
    (hfiles : (t.entries.filter fun (l, e) =>
        e.isFile && root.isPrefixOf l && l.getLast?.any (hasSuffix sourceSuffix)).map (fun (l, _) => l.drop root.length)
      = sources)
    (hsorted : sources.Pairwise fun a b => ! (b < a : Bool))
    : sourceNames t library = sources := by
  unfold sourceNames filesBelow
  rw [hlibrary]
  dsimp only
  rw [hroot, if_neg (by simp)]
  exact (congrArg (List.mergeSort · _) hfiles).trans (List.mergeSort_of_pairwise hsorted)

def plainTree : FileTree where
  entries :=
    [(["lib"], .directory 0), (["lib", "cc"], .directory 0), (["lib", "cc", "completion.lua"], .file markerLine 0),
      (["lib", "shell.lua"], .file [] 0), (["build"], .directory 0)]

theorem sourceNames_plainTree
    : sourceNames plainTree { parts := ["lib"] } = [["cc", "completion.lua"], ["shell.lua"]] :=
  @sourceNames_of_pairwise plainTree ["lib"] _ _ rfl rfl rfl (by decide)

theorem plainTree_keeps_entries
    : loadLibrary plainTree { parts := ["lib"] }
          = .ok ⟨[("cc/completion", { marker := some "" }), ("shell", {})]⟩ ∧
        (outcome (compileLibrary 1 { parts := ["lib"] } { parts := ["build"] } plainTree)
            = .ok ⟨[("cc/completion", { marker := some "" }), ("shell", {})]⟩ ∨
          ∃ names ∈ [["cc", "completion.lua"], ["shell.lua"]], ∃ e,
            Withheld (compileFile plainTree { parts := "lib" :: names }) e ∧
              outcome (compileLibrary 1 { parts := ["lib"] } { parts := ["build"] } plainTree) = .error e) := by
  have hlegal : plainTree.Legal := legal_of_entries (by decide) (by decide)
  obtain ⟨-, -, hload, hbackslash⟩ := @loadLibrary_keeps_entries plainTree { parts := ["lib"] } hlegal rfl _
  obtain ⟨hkeys, hcompile⟩ := hbackslash (by rw [sourceNames_plainTree]; decide)
  have hnodup := hkeys.2 (by
    rw [sourceNames_plainTree]
    rintro ⟨directory, h, -⟩
    simp only [List.mem_cons, List.not_mem_nil, or_false] at h
    obtain h | h := h
    · exact absurd (congrArg List.getLast? h) (by simp)
    · exact absurd (congrArg List.getLast? h) (by simp))
  have hloaded : loadLibrary plainTree { parts := ["lib"] }
      = .ok ⟨[("cc/completion", { marker := some "" }), ("shell", {})]⟩ := by
    have hcompletion : compileFile plainTree { parts := ["lib", "cc", "completion.lua"] } = .ok { marker := some "" } :=
      (@compileFile_eq_ok_iff plainTree _ ["lib", "cc", "completion.lua"] markerLine 0 rfl rfl _).2 compiles_markerLine
    have hshell : compileFile plainTree { parts := ["lib", "shell.lua"] } = .ok {} :=
      (@compileFile_eq_ok_iff plainTree _ ["lib", "shell.lua"] [] 0 rfl rfl _).2 compiles_nil
    have hnames : key ["cc", "completion.lua"] = "cc/completion" ∧ key ["shell.lua"] = "shell" := by decide
    rw [hload hnodup, sourceNames_plainTree]
    simp [Path.descend, hcompletion, hshell, hnames, Except.map, pure, Except.pure, bind, Except.bind]
  refine ⟨hloaded, ?_⟩
  rw [← hloaded, ← sourceNames_plainTree]
  apply hcompile hnodup
  intro l htop hne
  by_contra hfile
  obtain ⟨e, hfile⟩ := Option.ne_none_iff_exists'.1 hfile
  have hmem := mem_entries_of_lookup? (file?_eq_some_iff.1 hfile).1 (by rintro rfl; exact absurd htop (by decide))
  have hnone : ∀ entry ∈ plainTree.entries, ["build"] <+: entry.1 → entry.1 = ["build"] := by decide
  exact hne (hnone _ hmem htop)

def twinTree : FileTree where
  entries :=
    [(["lib"], .directory 0), (["lib", "a"], .directory 0), (["lib", "a", "b.lua"], .file [] 0),
      (["lib", "a\\b.lua"], .file markerLine 0), (["build"], .directory 0)]

def twinTree' : FileTree :=
  (twinTree.insert ["build", "a"] (.directory 1)).insert ["build", "a", "b.decl.json"] (.file (artifactBytes {}) 1)

theorem sourceNames_twinTree : sourceNames twinTree { parts := ["lib"] } = [["a", "b.lua"], ["a\\b.lua"]] :=
  @sourceNames_of_pairwise twinTree ["lib"] _ _ rfl rfl rfl (by decide)

theorem compileFile_twinTree
    : compileFile twinTree { parts := ["lib", "a", "b.lua"] } = .ok {} ∧
        compileFile twinTree { parts := ["lib", "a\\b.lua"] } = .ok { marker := some "" } := by
  constructor
  · exact (@compileFile_eq_ok_iff twinTree _ ["lib", "a", "b.lua"] [] 0 rfl rfl _).2 compiles_nil
  · exact (@compileFile_eq_ok_iff twinTree _ ["lib", "a\\b.lua"] markerLine 0 rfl rfl _).2 compiles_markerLine

theorem writeArtifact_twinTree
    : writeArtifact 1 {} { parts := ["build", "a", "b.decl.json"] } twinTree = .ok () twinTree' := by
  rw [writeArtifact_eq, Artifact.serialize_eq (by decide)]
  rfl

theorem compileSource_twinTree
    : compileSource 1 { parts := ["lib", "a", "b.lua"] } { parts := ["build", "a", "b.decl.json"] } twinTree
          = .ok {} twinTree' ∧
        compileSource 1 { parts := ["lib", "a\\b.lua"] } { parts := ["build", "a", "b.decl.json"] } twinTree'
          = .ok {} twinTree' := by
  constructor
  · have hmiss : cached? twinTree { parts := ["lib", "a", "b.lua"] } { parts := ["build", "a", "b.decl.json"] }
        = .ok none := rfl
    rw [compileSource_eq, hmiss, compileFile_twinTree.1]
    dsimp only
    rw [writeArtifact_twinTree]
  · have hhit : cached? twinTree' { parts := ["lib", "a\\b.lua"] } { parts := ["build", "a", "b.decl.json"] }
        = .ok (some {}) :=
      @cached?_of_lt twinTree' _ _ _ _ ["build", "a", "b.decl.json"] ["lib", "a\\b.lua"] {} markerLine 1 0 rfl rfl
        compiles_nil.storable (by decide) rfl rfl (by decide)
    rw [compileSource_eq, hhit]

theorem not_kept_twinTree
    : twinTree.Legal ∧ sourceNames twinTree { parts := ["lib"] } = [["a", "b.lua"], ["a\\b.lua"]] ∧
        key ["a", "b.lua"] = key ["a\\b.lua"] ∧
        loadLibrary twinTree { parts := ["lib"] } = .ok ⟨[("a/b", { marker := some "" })]⟩ ∧
        compileFile twinTree { parts := ["lib", "a\\b.lua"] } = .ok { marker := some "" } ∧
        outcome (compileLibrary 1 { parts := ["lib"] } { parts := ["build"] } twinTree) = .ok ⟨[("a/b", {})]⟩ := by
  have hlegal : twinTree.Legal := legal_of_entries (by decide) (by decide)
  have hkeys : key ["a", "b.lua"] = "a/b" ∧ key ["a\\b.lua"] = "a/b" := by decide
  have hdirectory : twinTree.isDirectory { parts := ["lib"] } = .ok true := rfl
  refine ⟨hlegal, sourceNames_twinTree, hkeys.1.trans hkeys.2.symm, ?_, compileFile_twinTree.2, ?_⟩
  · rw [loadLibrary_of_isDirectory hdirectory, sourceNames_twinTree]
    simp only [Path.descend, List.singleton_append, collect_cons, compileFile_twinTree, hkeys]
    rfl
  · have hpath : artifactPath { parts := ["build"] } "a/b" = { parts := ["build", "a", "b.decl.json"] } := rfl
    obtain ⟨hfirst, hsecond⟩ := compileSource_twinTree
    rw [← hpath] at hfirst hsecond
    rw [compileLibrary_eq, hdirectory, sourceNames_twinTree]
    dsimp only
    rw [compileSources_of_ok (by rw [hkeys.1]; exact hfirst), compileSources_of_ok (by rw [hkeys.2]; exact hsecond),
      hkeys.1, hkeys.2]
    rfl

end Build

end LuaTypes
