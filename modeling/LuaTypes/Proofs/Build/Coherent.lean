import LuaTypes.Proofs.Build.Run

/-!
Coherence of the artifacts of a library with its sources: a source is read from its artifact only as long
as both say the same.
-/

namespace LuaTypes.Build

open Declaration FileTree

/--
The sources in use lie in a library apart from its build directory, which has room for their artifacts.
-/
structure Project.Usable (p : Project) (used : List String → Prop) : Prop where
  outside : ¬ p.root <+: p.top
  above : ¬ p.top <+: p.root
  ordinary : ∀ names, used names → ∀ name ∈ names, name ≠ Path.up
  spacious : Spacious p.build p.top used

def IsSource (t : FileTree) (root : Location) (names : List String) : Prop :=
  names.getLast?.any (hasSuffix sourceSuffix) = true ∧
    ∃ content modified, t.lookup? (root ++ names) = some (.file content modified)

variable {p : Project} {used : List String → Prop} {s s' : Scene} {names : List String}

theorem Project.Usable.not_above (h : p.Usable used) {l : Location} (htop : p.top <+: l)
    : ¬ p.root <+: l := by
  intro hroot
  cases List.prefix_or_prefix_of_prefix htop hroot with
  | inl h' => exact h.above h'
  | inr h' => exact h.outside h'

theorem prefix_dropLast_iff {way w : List String} (h : way ≠ [])
    : w <+: way.dropLast ↔ w <+: way ∧ w ≠ way := by
  have hway := List.dropLast_append_getLast h
  generalize way.dropLast = init at hway ⊢
  generalize way.getLast h = last at hway
  subst hway
  rw [List.prefix_concat_iff]
  constructor
  · intro hw
    refine ⟨.inr hw, ?_⟩
    rintro rfl
    have := hw.length_le
    rw [List.length_append, List.length_singleton] at this
    omega
  · rintro ⟨hw, hne⟩
    exact hw.resolve_left hne

theorem top_ne_artifactPlace (husable : p.Usable used) (hnames : used names)
    : artifactPlace p.top names ≠ p.top := by
  exact Ne.symm (husable.spacious.clear names names hnames hnames [] (List.nil_prefix))

theorem prefix_artifactPlace (husable : p.Usable used) (hnames : used names)
    : p.top <+: artifactPlace p.top names := by
  exact husable.spacious.inside names hnames _ (List.prefix_refl _)

theorem locate_source (husable : p.Usable used) (hnames : used names)
    (hlibrary : s.tree.locate p.library = .ok p.root) (hfits : Fits (p.library.descend names))
    (hshort : ∀ name ∈ names, name.utf8ByteSize ≤ nameLimit)
    : (∃ fault, fault ≠ .tooLong ∧ s.tree.locate (p.library.descend names) = .error fault) ∨
        s.tree.locate (p.library.descend names) = .ok (p.root ++ names) := by
  rw [locate_descend hlibrary hfits]
  cases hwalk : s.tree.walk p.root names with
  | error fault =>
    left
    refine ⟨fault, ?_, rfl⟩
    rintro rfl
    exact walk_ne_tooLong hshort hwalk
  | ok place =>
    right
    rw [eq_follow_of_walk hwalk, follow_of_ne_up (husable.ordinary names hnames)]

/--
What may stand in the build directory: directories for artifacts, and artifacts that tell what an older
source says.
-/
inductive Built (p : Project) (used : List String → Prop) (s : Scene) (l : Location) : Entry → Prop where
  | directory {names w modified} : used names → w <+: (trail (key names)).dropLast → l = follow p.top w →
      Built p used s l (.directory modified)
  | artifact {names file content modified} : used names → l = artifactPlace p.top names →
      Fits (p.library.descend names) → (∀ name ∈ names, name.utf8ByteSize ≤ nameLimit) →
      modified ≤ s.now → Compiles content file →
      (∀ content' modified', s.tree.lookup? (p.root ++ names) = some (.file content' modified') →
        modified' < modified → content' = content) →
      Built p used s l (.file (artifactBytes file) modified)

structure Coherent (p : Project) (used : List String → Prop) (s : Scene) : Prop where
  working : s.tree.working = p.working
  wellFormed : s.tree.WellFormed
  build : s.tree.locate p.build = .ok p.top
  directory : s.tree.isDirectoryAt p.top = true
  built : ∀ l e, p.top <+: l → l ≠ p.top → s.tree.lookup? l = some e → Built p used s l e
  sources : ∀ names, IsSource s.tree p.root names → used names

/--
A build directory without artifacts, and a library with sources in use only.
-/
structure Project.Fresh (p : Project) (used : List String → Prop) (s : Scene) : Prop where
  working : s.tree.working = p.working
  wellFormed : s.tree.WellFormed
  build : s.tree.locate p.build = .ok p.top
  directory : s.tree.isDirectoryAt p.top = true
  empty : ∀ l, p.top <+: l → l ≠ p.top → s.tree.lookup? l = none
  sources : ∀ names, IsSource s.tree p.root names → used names

theorem Project.Fresh.coherent (h : p.Fresh used s) : Coherent p used s where
  working := h.working
  wellFormed := h.wellFormed
  build := h.build
  directory := h.directory
  built := by
    intro l e htop hne he
    rw [h.empty l htop hne] at he
    cases he
  sources := h.sources

/-! ### Places of artifacts -/

theorem Coherent.isDirectoryAt_artifactPlace (h : Coherent p used s) (husable : p.Usable used)
    (hnames : used names)
    : s.tree.isDirectoryAt (artifactPlace p.top names) = false := by
  cases hdirectory : s.tree.isDirectoryAt (artifactPlace p.top names) with
  | false => rfl
  | true =>
    obtain ⟨modified, he⟩ := isDirectoryAt_iff.1 hdirectory
    cases h.built _ _ (prefix_artifactPlace husable hnames) (top_ne_artifactPlace husable hnames) he with
    | @directory names' w _ hnames' hw hplace =>
      exact absurd hplace.symm (husable.spacious.clear names names' hnames hnames' w hw)

theorem Coherent.artifact (h : Coherent p used s) (husable : p.Usable used) (hapart : Apart p.top used)
    (hnames : used names) {e : Entry} (he : s.tree.lookup? (artifactPlace p.top names) = some e)
    : ∃ file content modified, e = .file (artifactBytes file) modified ∧
        Fits (p.library.descend names) ∧ (∀ name ∈ names, name.utf8ByteSize ≤ nameLimit) ∧
        Compiles content file ∧
        ∀ content' modified', s.tree.lookup? (p.root ++ names) = some (.file content' modified') →
          modified' < modified → content' = content := by
  have hbuilt := h.built _ e (prefix_artifactPlace husable hnames)
    (top_ne_artifactPlace husable hnames) he
  generalize hl : artifactPlace p.top names = l at hbuilt
  cases hbuilt with
  | @directory names' w _ hnames' hw hplace =>
    rw [← hl] at hplace
    exact absurd hplace.symm (husable.spacious.clear names names' hnames hnames' w hw)
  | @artifact names' file content modified hnames' hplace hfits hshort hmodified hcompiles hcontent =>
    rw [← hl] at hplace
    have hsame := hapart names names' hnames hnames' hplace
    subst hsame
    exact ⟨file, content, modified, rfl, hfits, hshort, hcompiles, hcontent⟩

theorem Coherent.locate_artifactPath (h : Coherent p used s) (husable : p.Usable used)
    (hnames : used names)
    : (∃ fault, fault ≠ .tooLong ∧ s.tree.locate (artifactPath p.build (key names)) = .error fault) ∨
        s.tree.locate (artifactPath p.build (key names)) = .ok (artifactPlace p.top names) := by
  rw [artifactPath_eq, locate_descend h.build (husable.spacious.fits names hnames)]
  cases hwalk : s.tree.walk p.top (trail (key names)) with
  | error fault =>
    left
    refine ⟨fault, ?_, rfl⟩
    rintro rfl
    exact walk_ne_tooLong (husable.spacious.short names hnames) hwalk
  | ok place =>
    right
    rw [eq_follow_of_walk hwalk]
    rfl

theorem Coherent.passable (h : Coherent p used s) (husable : p.Usable used) (hnames : used names)
    : Passable s.tree p.build p.top (trail (key names)).dropLast where
  fits := by
    intro w hw
    exact (husable.spacious.fits names hnames).of_isPrefix (hw.trans (List.dropLast_prefix _))
  short := by
    intro name hname
    exact husable.spacious.short names hnames name (List.mem_of_mem_dropLast hname)
  no_file := by
    intro w hw e he
    by_cases htop : follow p.top w = p.top
    · obtain ⟨_, hdirectory⟩ := isDirectoryAt_iff.1 h.directory
      rw [htop, hdirectory] at he
      cases he
      rfl
    · have hinside := husable.spacious.inside names hnames w (hw.trans (List.dropLast_prefix _))
      generalize hl : follow p.top w = l at he htop hinside
      cases h.built l e hinside htop he with
      | directory => rfl
      | @artifact names' _ _ _ hnames' hplace =>
        rw [← hl] at hplace
        exact absurd hplace (husable.spacious.clear names' names hnames' hnames w hw)

/-! ### Changes outside of the build directory -/

theorem Coherent.outside (h : Coherent p used s) (hworking : s'.tree.working = s.tree.working)
    (hwell : s'.tree.WellFormed)
    (hdirectory : ∀ l, s.tree.isDirectoryAt l = true → s'.tree.isDirectoryAt l = true)
    (hnow : s.now ≤ s'.now) (hsame : ∀ l, p.top <+: l → s'.tree.lookup? l = s.tree.lookup? l)
    (hfile : ∀ names content modified,
      s'.tree.lookup? (p.root ++ names) = some (.file content modified) →
        s.tree.lookup? (p.root ++ names) = some (.file content modified) ∨
          used names ∧ s.now ≤ modified)
    : Coherent p used s' where
  working := hworking.trans h.working
  wellFormed := hwell
  build := locate_mono hdirectory hworking h.build
  directory := hdirectory _ h.directory
  built := by
    intro l e htop hne he
    rw [hsame l htop] at he
    cases h.built l e htop hne he with
    | directory hnames hw hl => exact .directory hnames hw hl
    | artifact hnames hl hfits hshort hmodified hcompiles hcontent =>
      refine .artifact hnames hl hfits hshort (by omega) hcompiles ?_
      intro content' modified' hsource hlt
      cases hfile _ _ _ hsource with
      | inl hold => exact hcontent _ _ hold hlt
      | inr hnew => omega
  sources := by
    rintro names ⟨hsuffix, content, modified, hsource⟩
    cases hfile _ _ _ hsource with
    | inl hold => exact h.sources names ⟨hsuffix, content, modified, hold⟩
    | inr hnew => exact hnew.1

theorem coherent_put (h : Coherent p used s) (husable : p.Usable used) {names : List String}
    (hnames : used names) (content : List UInt8)
    : Coherent p used { s with tree := s.tree.put s.now (p.root ++ names) content } := by
  have hbelow : ∀ l, l <+: p.root ++ names → ¬ p.top <+: l := by
    intro l hl htop
    exact husable.not_above (htop.trans hl) (List.prefix_append _ _)
  have hlookup := lookup?_put s.now (p.root ++ names) content s.tree
  apply h.outside
  · exact working_put _ _ _ _
  · exact h.wellFormed.put _ _ _
  · exact fun l hl => isDirectoryAt_put hl
  · exact Int.le_refl _
  · intro l htop
    exact lookup?_put_beside (fun hl => hbelow l hl htop) content
  · intro names' content' modified hfile
    dsimp only at hfile
    cases hlookup (p.root ++ names') with
    | inl hsame => exact .inl (hsame.symm.trans hfile)
    | inr hnew =>
      cases hnew with
      | inl hnew =>
        have hsame := List.append_cancel_left hnew.1
        subst hsame
        rw [hnew.2] at hfile
        cases hfile
        exact .inr ⟨hnames, Int.le_refl _⟩
      | inr hnew =>
        rw [hnew.2.2.2] at hfile
        cases hfile

theorem coherent_unlink (h : Coherent p used s) (husable : p.Usable used) (names : List String)
    : Coherent p used { s with tree := s.tree.unlink (p.root ++ names) } := by
  cases unlink_spec (p.root ++ names) s.tree with
  | inl hsame =>
    rw [hsame]
    exact h
  | inr hunlink =>
    obtain ⟨⟨content, modified, hplace⟩, hunlink⟩ := hunlink
    apply h.outside
    · exact working_unlink _ _
    · exact h.wellFormed.unlink _
    · intro l hl
      unfold FileTree.isDirectoryAt at hl ⊢
      rw [hunlink, if_neg]
      · exact hl
      · rintro rfl
        rw [hplace] at hl
        cases hl
    · exact Int.le_refl _
    · intro l htop
      dsimp only
      rw [hunlink, if_neg]
      rintro rfl
      exact husable.not_above htop (List.prefix_append _ _)
    · intro names' content' modified' hfile
      dsimp only at hfile
      rw [hunlink] at hfile
      split at hfile
      · cases hfile
      · exact .inl hfile

theorem coherent_advance (h : Coherent p used s) (time : Nat)
    : Coherent p used { s with now := s.now + time } := by
  apply h.outside
  · rfl
  · exact h.wellFormed
  · exact fun _ hl => hl
  · dsimp only
    omega
  · exact fun _ _ => rfl
  · exact fun _ _ _ hfile => .inl hfile

/-! ### Changes within the build directory -/

variable {t t' : FileTree}

structure Extends (p : Project) (t t' : FileTree) : Prop where
  working : t'.working = t.working
  directory : ∀ l, t.isDirectoryAt l = true → t'.isDirectoryAt l = true
  same : ∀ l, ¬ p.top <+: l → t'.lookup? l = t.lookup? l

theorem Extends.refl (p : Project) (t : FileTree) : Extends p t t where
  working := rfl
  directory := fun _ hl => hl
  same := fun _ _ => rfl

theorem Extends.trans {t'' : FileTree} (h : Extends p t t') (h' : Extends p t' t'') : Extends p t t'' where
  working := h'.working.trans h.working
  directory := fun l hl => h'.directory l (h.directory l hl)
  same := fun l hl => (h'.same l hl).trans (h.same l hl)

theorem Extends.lookup?_root (h : Extends p t t') (husable : p.Usable used) {l : Location} (hroot : p.root <+: l)
    : t'.lookup? l = t.lookup? l :=
  h.same l fun htop => husable.not_above htop hroot

theorem Coherent.inside (h : Coherent p used s) (husable : p.Usable used) {tree : FileTree}
    (hextends : Extends p s.tree tree) (hwell : tree.WellFormed)
    (hnew : ∀ l e, tree.lookup? l = some e → s.tree.lookup? l = some e ∨ Built p used { s with tree } l e)
    : Coherent p used { s with tree } where
  working := hextends.working.trans h.working
  wellFormed := hwell
  build := locate_mono hextends.directory hextends.working h.build
  directory := hextends.directory _ h.directory
  sources := by
    rintro names ⟨hsuffix, content, modified, hfile⟩
    dsimp only at hfile
    rw [hextends.lookup?_root husable (List.prefix_append _ _)] at hfile
    exact h.sources names ⟨hsuffix, content, modified, hfile⟩
  built := by
    intro l e htop hne he
    cases hnew l e he with
    | inr hbuilt => exact hbuilt
    | inl hold =>
      cases h.built l e htop hne hold with
      | directory hnames hw hl => exact .directory hnames hw hl
      | artifact hnames hl hfits hshort hmodified hcompiles hcontent =>
        refine .artifact hnames hl hfits hshort hmodified hcompiles ?_
        intro content' modified' hfile hlt
        dsimp only at hfile
        rw [hextends.lookup?_root husable (List.prefix_append _ _)] at hfile
        exact hcontent content' modified' hfile hlt

theorem Coherent.grow (h : Coherent p used s) (husable : p.Usable used) (hnames : used names)
    (hgrows : Grows s.now (On p.top (trail (key names)).dropLast) s.tree t')
    : Coherent p used { s with tree := t' } ∧ Extends p s.tree t' := by
  have hon : ∀ l, On p.top (trail (key names)).dropLast l → p.top <+: l := by
    rintro l ⟨w, hw, rfl⟩
    exact husable.spacious.inside names hnames w (hw.trans (List.dropLast_prefix _))
  have hextends : Extends p s.tree t' := by
    refine ⟨hgrows.working, fun l hl => hgrows.isDirectoryAt hl, ?_⟩
    intro l hl
    apply (hgrows.lookup? l).resolve_right
    rintro ⟨hnew, -⟩
    exact hl (hon l hnew)
  refine ⟨h.inside husable hextends (hgrows.wellFormed h.wellFormed) ?_, hextends⟩
  intro l e he
  cases hgrows.lookup? l with
  | inl hold => exact .inl (hold.symm.trans he)
  | inr hnew =>
    rw [hnew.2.2] at he
    cases he
    obtain ⟨⟨w, hw, hl⟩, -⟩ := hnew
    exact .inr (.directory hnames hw hl)

theorem Coherent.insert (h : Coherent p used s) (husable : p.Usable used) (hnames : used names)
    {file : File} {content : List UInt8} {modified : Int} (hcompiles : Compiles content file)
    (hsource : s.tree.lookup? (p.root ++ names) = some (.file content modified))
    (hfits : Fits (p.library.descend names)) (hshort : ∀ name ∈ names, name.utf8ByteSize ≤ nameLimit)
    (hplace : s.tree.isDirectoryAt (artifactPlace p.top names) = false)
    {tree : FileTree}
    (htree : tree = s.tree.insert (artifactPlace p.top names) (.file (artifactBytes file) s.now))
    : Coherent p used { s with tree } ∧ Extends p s.tree tree := by
  have hextends : Extends p s.tree tree := by
    subst htree
    refine ⟨rfl, fun l hl => isDirectoryAt_insert_of_ne hplace hl, ?_⟩
    intro l hl
    rw [lookup?_insert, if_neg]
    rintro ⟨hplace, -⟩
    rw [hplace] at hl
    exact hl (prefix_artifactPlace husable hnames)
  have hwell : tree.WellFormed := htree ▸ h.wellFormed.insert _ _
  refine ⟨h.inside husable hextends hwell ?_, hextends⟩
  intro l e he
  rw [htree, lookup?_insert] at he
  split at he
  next hl =>
    cases he
    refine .inr (.artifact hnames hl.1 hfits hshort (Int.le_refl _) hcompiles ?_)
    intro content' modified' hfile hlt
    dsimp only at hfile
    rw [hextends.lookup?_root husable (List.prefix_append _ _), hsource] at hfile
    cases hfile
    rfl
  next => exact .inl he

end LuaTypes.Build
