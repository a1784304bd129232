import LuaTypes.Proofs.Build.Coherent

/-!
Compiling a library gives the same as loading it, whatever artifacts are left from earlier times.
-/

namespace LuaTypes.Build

open Declaration FileTree

variable {p : Project} {used : List String → Prop} {s : Scene} {t t' : FileTree}

/-! ### Sources -/

theorem compileFile_congr {library : Path} {root : Location} {names : List String}
    (hlibrary : t.locate library = .ok root) (hlibrary' : t'.locate library = .ok root)
    (hnames : ∀ name ∈ names, name ≠ Path.up) (h : ∀ l, root <+: l → t'.lookup? l = t.lookup? l)
    : compileFile t' (library.descend names) = compileFile t (library.descend names) := by
  have hlocate : t'.locate (library.descend names) = t.locate (library.descend names) := by
    by_cases hfits : Fits (library.descend names)
    · rw [locate_descend hlibrary hfits, locate_descend hlibrary' hfits]
      exact walk_congr h (List.prefix_refl _) hnames
    · exact locate_of_not_fits hfits t' t
  unfold compileFile
  rw [readText_congr hlocate]
  intro place hplace
  apply h
  rw [locate_descend hlibrary (fits_of_locate hplace)] at hplace
  rw [eq_follow_of_walk hplace, follow_of_ne_up hnames]
  exact List.prefix_append _ _

theorem mem_sourceNames_iff (h : t.WellFormed) {library : Path} {root : Location}
    (hlibrary : t.locate library = .ok root) (hroot : t.isDirectoryAt root = true) {names : List String}
    : names ∈ sourceNames t library ↔ IsSource t root names := by
  unfold sourceNames filesBelow
  rw [hlibrary]
  dsimp only
  rw [hroot, if_neg (by simp), List.mem_mergeSort, List.mem_map]
  constructor
  · rintro ⟨⟨l, e⟩, he, rfl⟩
    rw [List.mem_filter, Bool.and_eq_true, Bool.and_eq_true, List.isPrefixOf_iff_prefix] at he
    obtain ⟨he, ⟨hfile, names, rfl⟩, hsuffix⟩ := he
    dsimp only at hfile hsuffix ⊢
    rw [List.drop_left]
    have hlookup : t.lookup? (root ++ names) = some e := by
      apply h.lookup?_eq_some _ he
      intro hnil
      rw [hnil] at hsuffix
      cases hsuffix
    cases e with
    | directory => cases hfile
    | file content modified =>
      refine ⟨?_, content, modified, hlookup⟩
      by_cases hnil : names = []
      · subst hnil
        obtain ⟨_, hroot⟩ := isDirectoryAt_iff.1 hroot
        rw [List.append_nil, hroot] at hlookup
        cases hlookup
      · rw [List.getLast?_append_of_ne_nil _ hnil] at hsuffix
        exact hsuffix
  · rintro ⟨hsuffix, content, modified, hlookup⟩
    have hnil : names ≠ [] := by
      rintro rfl
      cases hsuffix
    refine ⟨(root ++ names, .file content modified), ?_, List.drop_left⟩
    rw [List.mem_filter, Bool.and_eq_true, Bool.and_eq_true, List.isPrefixOf_iff_prefix]
    refine ⟨?_, ⟨rfl, List.prefix_append _ _⟩, ?_⟩
    · unfold lookup? at hlookup
      rw [if_neg (by simp [hnil]), List.lookup_eq_some_iff] at hlookup
      obtain ⟨before, after, hentries, -⟩ := hlookup
      rw [hentries]
      simp
    · rw [List.getLast?_append_of_ne_nil _ hnil]
      exact hsuffix

/-! ### Libraries -/

theorem loadLibrary_eq (t : FileTree) (library : Path)
    : loadLibrary t library =
        match t.isDirectory library with
        | .error e => .error (.access e)
        | .ok true =>
          (sourceNames t library).foldlM (fun corpus names => do
            return corpus.insert (key names) (← compileFile t (library.descend names))) {}
        | .ok false => .error (.noLibrary library) := by
  unfold loadLibrary
  cases t.isDirectory library with
  | error => rfl
  | ok b => cases b <;> rfl

theorem locate_of_isDirectory {path : Path} (h : t.isDirectory path = .ok true)
    : t.locate path = .ok (follow (origin t.working path) path.parts) := by
  cases hlocate : t.locate path with
  | ok place => rw [eq_follow_of_locate hlocate]
  | error fault =>
    exfalso
    unfold FileTree.isDirectory find? at h
    rw [hlocate] at h
    cases fault <;> cases h

theorem isDirectoryAt_of_isDirectory {path : Path} {place : Location} (h : t.isDirectory path = .ok true)
    (hlocate : t.locate path = .ok place)
    : t.isDirectoryAt place = true := by
  unfold FileTree.isDirectory at h
  rw [find?_of_locate hlocate] at h
  exact Except.ok.inj h

/-! ### Artifacts -/

theorem isUpToDate_eq (t : FileTree) (source artifact : Path)
    : isUpToDate t source artifact =
        match t.find? artifact with
        | .error e => .error e
        | .ok none => .ok false
        | .ok (some a) =>
          match t.find? source with
          | .error e => .error e
          | .ok none => .ok false
          | .ok (some s) => .ok (s.modified < a.modified) := by
  unfold isUpToDate
  cases t.find? artifact with
  | error => rfl
  | ok a =>
    cases a with
    | none => rfl
    | some a =>
      change (t.find? source >>= _) = _
      cases t.find? source with
      | error => rfl
      | ok s => cases s <;> rfl

theorem bind_eq {ε α β : Type} (x : Action ε α) (f : α → Action ε β) (t : FileTree)
    : (x >>= f) t =
        match x t with
        | .ok a t => f a t
        | .error e t => .error e t := by
  change EStateM.bind x f t = _
  unfold EStateM.bind
  cases x t <;> rfl

theorem isUpToDate_of_lt {source artifact : Path} {place place' : Location} {file : File}
    {content : List UInt8} {modified modified' : Int} (hartifact : t.locate artifact = .ok place)
    (hplace : t.lookup? place = some (.file (artifactBytes file) modified)) (hsource : t.locate source = .ok place')
    (hplace' : t.lookup? place' = some (.file content modified')) (hlt : modified' < modified)
    : isUpToDate t source artifact = .ok true := by
  rw [isUpToDate_eq, find?_of_locate hartifact, hplace, find?_of_locate hsource, hplace']
  exact congrArg Except.ok (decide_eq_true hlt)

variable [Artifact.Codec]

theorem cached?_eq (t : FileTree) (source artifact : Path)
    : cached? t source artifact =
        match isUpToDate t source artifact with
        | .error e => .error e
        | .ok false => .ok none
        | .ok true =>
          match readArtifact t artifact with
          | .ok file => .ok (some file)
          | .error (.unreadable (.access e)) => .error e
          | .error _ => .ok none := by
  unfold cached?
  cases isUpToDate t source artifact with
  | error => rfl
  | ok b =>
    cases b with
    | false => rfl
    | true =>
      change (match readArtifact t artifact with
        | .ok file => pure (some file)
        | .error (.unreadable (.access e)) => throw e
        | .error _ => pure none : Except AccessError (Option File)) = _
      cases readArtifact t artifact with
      | ok => rfl
      | error e =>
        cases e with
        | invalid => rfl
        | unreadable e => cases e <;> rfl

theorem cached?_of_lt [Artifact.LawfulCodec] {source artifact : Path} {place place' : Location} {file : File}
    {content : List UInt8} {modified modified' : Int} (hartifact : t.locate artifact = .ok place)
    (hplace : t.lookup? place = some (.file (artifactBytes file) modified)) (hstorable : file.Storable)
    (hnesting : file.nesting < Artifact.Codec.limit) (hsource : t.locate source = .ok place')
    (hplace' : t.lookup? place' = some (.file content modified')) (hlt : modified' < modified)
    : cached? t source artifact = .ok (some file) := by
  rw [cached?_eq, isUpToDate_of_lt hartifact hplace hsource hplace' hlt,
    readArtifact_of_nesting hartifact hplace hstorable hnesting]

theorem cached?_of_not_upToDate {source artifact : Path} (h : isUpToDate t source artifact = .ok false)
    : cached? t source artifact = .ok none := by
  rw [cached?_eq, h]

theorem compileSource_eq (now : Int) (source artifact : Path) (t : FileTree)
    : compileSource now source artifact t =
        match cached? t source artifact with
        | .error e => .error (.access e) t
        | .ok (some file) => .ok file t
        | .ok none =>
          match compileFile t source with
          | .error e => .error e t
          | .ok file =>
            match writeArtifact now file artifact t with
            | .ok () t => .ok file t
            | .error e t => .error e t := by
  change (check ((cached? t source artifact).mapError .access) >>= _ : Action Error File) t = _
  rw [bind_eq]
  cases cached? t source artifact with
  | error => rfl
  | ok hit =>
    cases hit with
    | some => rfl
    | none =>
      change (check (compileFile t source) >>= fun file => do
        writeArtifact now file artifact
        return file : Action Error File) t = _
      rw [bind_eq]
      cases compileFile t source with
      | error => rfl
      | ok file =>
        change (writeArtifact now file artifact >>= fun _ => pure file : Action Error File) t = _
        rw [bind_eq]
        dsimp only
        cases writeArtifact now file artifact t <;> rfl

theorem writeArtifact_eq (now : Int) (file : File) (artifact : Path) (t : FileTree)
    : writeArtifact now file artifact t =
        match ensurePath now artifact.parent t with
        | .error e t => .error (.access e) t
        | .ok () t =>
          match Artifact.serialize file with
          | .error refusal => .error (.refused refusal) t
          | .ok text =>
            match writeText now artifact text t with
            | .ok () t => .ok () t
            | .error e t => .error (.access e) t := by
  unfold writeArtifact
  rw [bind_eq, mapError]
  cases ensurePath now artifact.parent t with
  | error => rfl
  | ok _ t =>
    dsimp only
    rw [bind_eq]
    cases Artifact.serialize file with
    | error => rfl
    | ok text =>
      change mapError Error.access (writeText now artifact text) t = _
      rw [mapError]
      dsimp only
      cases writeText now artifact text t <;> rfl

theorem writeArtifact_spec (now : Int) (file : File) {build : Path} {top : Location} {key : String}
    (hbuild : t.locate build = .ok top) (hpass : Passable t build top (trail key).dropLast)
    (hfits : Fits (build.descend (trail key)))
    (hshort : ∀ name ∈ trail key, name.utf8ByteSize ≤ nameLimit)
    (hplace : t.isDirectoryAt (follow top (trail key)) = false)
    (hclear : ∀ w, w <+: (trail key).dropLast → follow top w ≠ follow top (trail key))
    : ∃ t', Grows now (On top (trail key).dropLast) t t' ∧
        t'.isDirectoryAt (follow top (trail key)) = false ∧
        t'.locate (artifactPath build key) = .ok (follow top (trail key)) ∧
        writeArtifact now file (artifactPath build key) t =
          match Artifact.serialize file with
          | .error refusal => .error (.refused refusal) t'
          | .ok text => .ok () (t'.insert (follow top (trail key)) (.file (Text.encodeUtf8 text.toList) now)) := by
  have hparent : (artifactPath build key).parent = build.descend (trail key).dropLast := by
    rw [artifactPath_eq, Path.parent, Path.descend, Path.descend,
      List.dropLast_append_of_ne_nil (trail_ne_nil key)]
  have hlevels : (trail key).dropLast.length ≤ (artifactPath build key).parent.parts.length := by
    rw [hparent, Path.descend, List.length_append]
    omega
  obtain ⟨t', hmade, hgrows, hthere⟩ := ensureDirectories_spec now hlevels hbuild hpass
  have hplace' : t'.isDirectoryAt (follow top (trail key)) = false := by
    unfold FileTree.isDirectoryAt at hplace ⊢
    rw [(hgrows.lookup? _).resolve_right]
    · exact hplace
    · rintro ⟨⟨w, hw, heq⟩, -⟩
      exact hclear w hw heq.symm
  have hlocate : t'.locate (artifactPath build key) = .ok (follow top (trail key)) := by
    rw [artifactPath_eq, locate_descend (locate_mono (fun _ hl => hgrows.isDirectoryAt hl)
      hgrows.working hbuild) hfits]
    apply walk_eq_follow _ hshort
    intro w hw hne
    exact hthere w ((prefix_dropLast_iff (trail_ne_nil key)).2 ⟨hw, hne⟩)
  refine ⟨t', hgrows, hplace', hlocate, ?_⟩
  rw [writeArtifact_eq, hparent, ensurePath]
  rw [hparent] at hmade
  rw [hmade]
  dsimp only
  cases Artifact.serialize file with
  | error => rfl
  | ok text =>
    dsimp only
    rw [writeText_eq, hlocate]
    dsimp only
    rw [hplace', if_neg (by simp)]

/-! ### One source -/

variable {names : List String}

theorem Coherent.cached?_spec [Artifact.LawfulCodec] (h : Coherent p used s) (husable : p.Usable used)
    (hapart : Apart p.top used) (hlibrary : s.tree.locate p.library = .ok p.root)
    (hsource : IsSource s.tree p.root names)
    : cached? s.tree (p.library.descend names) (artifactPath p.build (key names)) = .ok none ∨
        ∃ file, cached? s.tree (p.library.descend names) (artifactPath p.build (key names)) =
            .ok (some file) ∧
          compileFile s.tree (p.library.descend names) = .ok file := by
  have hnames := h.sources names hsource
  cases h.locate_artifactPath husable hnames with
  | inl hmissing =>
    obtain ⟨fault, hfault, hartifact⟩ := hmissing
    left
    apply cached?_of_not_upToDate
    rw [isUpToDate_eq, find?_of_error hartifact hfault]
  | inr hartifact =>
    cases he : s.tree.lookup? (artifactPlace p.top names) with
    | none =>
      left
      apply cached?_of_not_upToDate
      rw [isUpToDate_eq, find?_of_locate hartifact, he]
    | some e =>
      obtain ⟨file, content, modified, rfl, hfits, hshort, hcompiles, hcontent⟩ :=
        h.artifact husable hapart hnames he
      obtain ⟨-, content', modified', hfile⟩ := hsource
      cases locate_source husable hnames hlibrary hfits hshort with
      | inl hmissing =>
        obtain ⟨fault, hfault, hlocate⟩ := hmissing
        left
        apply cached?_of_not_upToDate
        rw [isUpToDate_eq, find?_of_locate hartifact, he, find?_of_error hlocate hfault]
      | inr hlocate =>
        -- An artifact that is newer than its source was written for the content that is there now.
        by_cases hlt : modified' < modified
        · have hsame := hcontent content' modified' hfile hlt
          subst hsame
          rw [cached?_eq, isUpToDate_of_lt hartifact he hlocate hfile hlt]
          obtain hread | ⟨e, hread⟩ := readArtifact_artifactBytes hartifact he hcompiles.storable
          · rw [hread]
            exact .inr ⟨file, rfl, (compileFile_eq_ok_iff hlocate hfile).2 hcompiles⟩
          · rw [hread]
            exact .inl rfl
        · left
          apply cached?_of_not_upToDate
          rw [isUpToDate_eq, find?_of_locate hartifact, he, find?_of_locate hlocate, hfile]
          exact congrArg Except.ok (decide_eq_false hlt)

def Yields (compiled result : Except Error File) : Prop :=
  result = compiled ∨ ∃ e, Refused compiled e ∧ result = .error e

theorem Yields.eq_of_nesting [Artifact.LawfulCodec] {file : File} {result : Except Error File}
    (h : Yields (.ok file) result) (hnesting : file.nesting < Artifact.Codec.limit)
    : result = .ok file := by
  obtain rfl | ⟨e, hrefused, -⟩ := h
  · rfl
  · cases hrefused with
    | intro hserialize =>
      rw [Artifact.serialize_eq hnesting] at hserialize
      cases hserialize

theorem Coherent.compileSource_of_miss [Artifact.LawfulCodec] (h : Coherent p used s) (husable : p.Usable used)
    (hlibrary : s.tree.locate p.library = .ok p.root) (hsource : IsSource s.tree p.root names)
    (hmiss : cached? s.tree (p.library.descend names) (artifactPath p.build (key names)) = .ok none)
    : ∃ tree result, compileSource s.now (p.library.descend names) (artifactPath p.build (key names)) s.tree =
          leaving tree result ∧
        Yields (compileFile s.tree (p.library.descend names)) result ∧
        Coherent p used { s with tree } ∧ Extends p s.tree tree ∧
        ∀ file, result = .ok file →
          tree.locate (artifactPath p.build (key names)) = .ok (artifactPlace p.top names) ∧
          tree.lookup? (artifactPlace p.top names) = some (.file (artifactBytes file) s.now) := by
  have hnames := h.sources names hsource
  rw [compileSource_eq, hmiss]
  dsimp only
  cases hcompile : compileFile s.tree (p.library.descend names) with
  | error e => exact ⟨s.tree, .error e, rfl, .inl rfl, h, .refl p s.tree, by simp⟩
  | ok file =>
    obtain ⟨place, content, modified, hlocate, hfile⟩ := exists_of_compileFile hcompile
    have hcompiles := (compileFile_eq_ok_iff hlocate hfile).1 hcompile
    have hfits := fits_of_locate hlocate
    rw [locate_descend hlibrary hfits] at hlocate
    rw [eq_follow_of_walk hlocate, follow_of_ne_up (husable.ordinary names hnames)] at hfile
    obtain ⟨t', hgrows, hplace, hartifact, hwrite⟩ := writeArtifact_spec s.now file h.build
      (h.passable husable hnames) (husable.spacious.fits names hnames)
      (husable.spacious.short names hnames) (h.isDirectoryAt_artifactPlace husable hnames)
      fun w hw => husable.spacious.clear names names hnames hnames w hw
    obtain ⟨hgrown, hextends⟩ := h.grow husable hnames hgrows
    dsimp only
    rw [hwrite]
    cases hserialize : Artifact.serialize file with
    | error refusal =>
      exact ⟨t', .error (.refused refusal), rfl, .inr ⟨_, .intro hserialize, rfl⟩, hgrown, hextends, by simp⟩
    | ok text =>
      cases Artifact.eq_ofFile_of_serialize hserialize
      rw [← hextends.lookup?_root husable (List.prefix_append _ _)] at hfile
      obtain ⟨hcoherent, hextends'⟩ :=
        hgrown.insert husable hnames hcompiles hfile hfits (short_of_walk hlocate) hplace rfl
      refine ⟨_, .ok file, rfl, .inl rfl, hcoherent, hextends.trans hextends', ?_⟩
      intro file' hfile'
      cases hfile'
      constructor
      · exact locate_mono (fun l hl => isDirectoryAt_insert_of_ne hplace hl) rfl hartifact
      · have hne : artifactPlace p.top names ≠ [] := by
          intro hnil
          have hroot : t'.isDirectoryAt [] = true := isDirectoryAt_iff.2 ⟨0, lookup?_nil t'⟩
          rw [← hnil] at hroot
          cases hplace.symm.trans hroot
        exact lookup?_insert .. ▸ if_pos ⟨rfl, hne⟩

theorem Coherent.compileSource_spec [Artifact.LawfulCodec] (h : Coherent p used s) (husable : p.Usable used)
    (hapart : Apart p.top used) (hlibrary : s.tree.locate p.library = .ok p.root)
    (hsource : IsSource s.tree p.root names)
    : ∃ tree result, compileSource s.now (p.library.descend names) (artifactPath p.build (key names)) s.tree =
          leaving tree result ∧
        Yields (compileFile s.tree (p.library.descend names)) result ∧
        Coherent p used { s with tree } ∧ Extends p s.tree tree := by
  cases h.cached?_spec husable hapart hlibrary hsource with
  | inr hhit =>
    obtain ⟨file, hcached, hcompile⟩ := hhit
    rw [compileSource_eq, hcached, hcompile]
    exact ⟨s.tree, .ok file, rfl, .inl rfl, h, .refl p s.tree⟩
  | inl hmiss =>
    obtain ⟨tree, result, hcompile, hyields, hcoherent, hextends, -⟩ :=
      h.compileSource_of_miss husable hlibrary hsource hmiss
    exact ⟨tree, result, hcompile, hyields, hcoherent, hextends⟩

/-! ### All sources -/

theorem Coherent.compileSources_spec [Artifact.LawfulCodec] (h : Coherent p used s) (husable : p.Usable used)
    (hapart : Apart p.top used) (hlibrary : s.tree.locate p.library = .ok p.root)
    {sources : List (List String)} (hsources : ∀ names ∈ sources, IsSource s.tree p.root names)
    {load : List String → Except Error File}
    (hload : ∀ names ∈ sources, compileFile s.tree (p.library.descend names) = load names)
    (corpus : Corpus)
    : ∃ tree result, compileSources s.now p.library p.build corpus sources s.tree = leaving tree result ∧
        (result = sources.foldlM (fun corpus names => do return corpus.insert (key names) (← load names)) corpus ∨
          ∃ names ∈ sources, ∃ e, Refused (load names) e ∧ result = .error e) ∧
        Coherent p used { s with tree } := by
  -- A step writes below the build directory only, so the sources to come are as they were.
  induction sources generalizing s corpus with
  | nil => exact ⟨s.tree, .ok corpus, rfl, .inl rfl, h⟩
  | cons names sources ih =>
    obtain ⟨tree, result, hcompile, hyields, hcoherent, hextends⟩ :=
      h.compileSource_spec husable hapart hlibrary (hsources names (by simp))
    rw [hload names (by simp)] at hyields
    rw [compileSources, bind_eq, hcompile]
    obtain rfl | ⟨e, hrefused, rfl⟩ := hyields
    case inr => exact ⟨tree, .error e, rfl, .inr ⟨names, List.mem_cons_self, e, hrefused, rfl⟩, hcoherent⟩
    rw [List.foldlM_cons]
    cases hfile : load names with
    | error e => exact ⟨tree, .error e, rfl, .inl rfl, hcoherent⟩
    | ok file =>
      have hroot : ∀ l, p.root <+: l → tree.lookup? l = s.tree.lookup? l :=
        fun l hl => hextends.lookup?_root husable hl
      have hlibrary' := locate_mono hextends.directory hextends.working hlibrary
      have hsources' : ∀ names' ∈ sources, IsSource tree p.root names' := by
        intro names' hnames'
        obtain ⟨hsuffix, content, modified, hplace⟩ := hsources names' (by simp [hnames'])
        exact ⟨hsuffix, content, modified, (hroot _ (List.prefix_append _ _)).trans hplace⟩
      have hload' : ∀ names' ∈ sources, compileFile tree (p.library.descend names') = load names' := by
        intro names' hnames'
        rw [← hload names' (by simp [hnames'])]
        apply compileFile_congr hlibrary hlibrary' _ hroot
        exact husable.ordinary names' (h.sources names' (hsources names' (by simp [hnames'])))
      obtain ⟨tree', result', hrest, hyields', hcoherent'⟩ :=
        @ih { s with tree } hcoherent hlibrary' hsources' hload' (corpus.insert (key names) file)
      refine ⟨tree', result', hrest, hyields'.imp_right ?_, hcoherent'⟩
      rintro ⟨names', hnames', hrefused⟩
      exact ⟨names', List.mem_cons_of_mem _ hnames', hrefused⟩

theorem compileSources_of_ok {now : Int} {library build : Path} {file : File}
    (h : compileSource now (library.descend names) (artifactPath build (key names)) t = .ok file t')
    (corpus : Corpus) (rest : List (List String))
    : compileSources now library build corpus (names :: rest) t
        = compileSources now library build (corpus.insert (key names) file) rest t' := by
  rw [compileSources, bind_eq, h]

theorem compileLibrary_eq (now : Int) (library build : Path) (t : FileTree)
    : compileLibrary now library build t =
        match t.isDirectory library with
        | .error e => .error (.access e) t
        | .ok true => compileSources now library build {} (sourceNames t library) t
        | .ok false => .error (.noLibrary library) t := by
  change (check ((t.isDirectory library).mapError .access) >>= fun b =>
    if b then compileSources now library build {} (sourceNames t library)
    else throw (.noLibrary library) : Action Error Corpus) t = _
  rw [bind_eq]
  cases t.isDirectory library with
  | error => rfl
  | ok b => cases b <;> rfl

def Project.Refuses (p : Project) (s : Scene) : Prop :=
  ∃ names ∈ sourceNames s.tree p.library, ∃ e,
    Refused (compileFile s.tree (p.library.descend names)) e ∧ p.compiled s = .error e

theorem Coherent.compile_spec [Artifact.LawfulCodec] (h : Coherent p used s) (husable : p.Usable used)
    (hapart : Apart p.top used)
    : (p.compiled s = p.loaded s ∨ p.Refuses s) ∧ Coherent p used (p.perform s .compile) := by
  unfold Project.Refuses Project.compiled Project.loaded Project.perform Project.compile
  rw [compileLibrary_eq, loadLibrary_eq]
  cases hdirectory : s.tree.isDirectory p.library with
  | error e => exact ⟨.inl rfl, h⟩
  | ok there =>
    cases there with
    | false => exact ⟨.inl rfl, h⟩
    | true =>
      have hlibrary := locate_of_isDirectory hdirectory
      rw [h.working] at hlibrary
      obtain ⟨tree, result, hcompile, hyields, hcoherent⟩ := h.compileSources_spec husable hapart hlibrary
        (fun names hnames => (mem_sourceNames_iff h.wellFormed hlibrary
          (isDirectoryAt_of_isDirectory hdirectory hlibrary)).1 hnames)
        (fun _ _ => rfl) {}
      dsimp only
      rw [hcompile, outcome_leaving, remains_leaving]
      exact ⟨hyields, hcoherent⟩

theorem Coherent.perform [Artifact.LawfulCodec] (h : Coherent p used s) (husable : p.Usable used)
    (hapart : Apart p.top used) {step : Step} (hstep : step.Uses used)
    : Coherent p used (p.perform s step) := by
  cases step with
  | write names content => exact coherent_put h husable hstep content
  | delete names => exact coherent_unlink h husable names
  | advance time => exact coherent_advance h time
  | compile => exact (h.compile_spec husable hapart).2

theorem Coherent.run [Artifact.LawfulCodec] (h : Coherent p used s) (husable : p.Usable used)
    (hapart : Apart p.top used) {steps : List Step} (hsteps : ∀ step ∈ steps, step.Uses used)
    : Coherent p used (p.run s steps) := by
  induction steps generalizing s with
  | nil => exact h
  | cons step steps ih =>
    exact ih (h.perform husable hapart (hsteps step (by simp))) fun q hq => hsteps q (by simp [hq])

/-! ### Runs -/

/--
Does compiling give the same as loading, at any time in any run on the sources in use? All that may come between is a
file that the codec refuses.
-/
def Project.Reliable (p : Project) (used : List String → Prop) : Prop :=
  ∀ s, p.Fresh used s → ∀ steps : List Step, (∀ step ∈ steps, step.Uses used) →
    p.compiled (p.run s steps) = p.loaded (p.run s steps) ∨ p.Refuses (p.run s steps)

theorem Project.Usable.reliable [Artifact.LawfulCodec] (husable : p.Usable used) (hapart : Apart p.top used)
    : p.Reliable used := by
  intro s hfresh steps hsteps
  exact ((hfresh.coherent.run husable hapart hsteps).compile_spec husable hapart).1

end LuaTypes.Build
