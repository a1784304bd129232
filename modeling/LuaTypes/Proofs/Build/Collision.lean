import Mathlib.Data.List.Permutation
import LuaTypes.Proofs.Build.Cache

/-!
Two sources with one place for their artifacts: sooner or later one of them is read from the artifact of
the other.
-/

namespace LuaTypes.Build

open Declaration FileTree

/--
The sources in use can be there together, and have keys of their own.
-/
structure Project.Compatible (p : Project) (used : List String → Prop) : Prop where
  suffix : ∀ names, used names → names.getLast?.any (hasSuffix sourceSuffix) = true
  fits : ∀ names, used names → Fits (p.library.descend names)
  short : ∀ names, used names → ∀ name ∈ names, name.utf8ByteSize ≤ nameLimit
  apart : ∀ names names', used names → used names' → names <+: names' → names = names'
  distinct : ∀ names names', used names → used names' → key names = key names' → names = names'

structure Project.Bare (p : Project) (s : Scene) : Prop where
  fresh : p.Fresh (fun _ => False) s
  library : s.tree.locate p.library = .ok p.root
  above : ∀ l, l <+: p.root → s.tree.isDirectoryAt l = true
  below : ∀ l, p.root <+: l → l ≠ p.root → s.tree.lookup? l = none

structure Stands (p : Project) (t : FileTree) (names : List String) (content : List UInt8) (modified : Int)
    : Prop where
  located : t.locate (p.library.descend names) = .ok (p.root ++ names)
  found : t.lookup? (p.root ++ names) = some (.file content modified)

variable {p : Project} {used : List String → Prop} {s : Scene} {t : FileTree}
  {names names' : List String} {content content' : List UInt8} {modified now : Int}

/-! ### Writing of two sources -/

theorem stands_put (hlibrary : t.locate p.library = .ok p.root) (hfits : Fits (p.library.descend names))
    (hshort : ∀ name ∈ names, name.utf8ByteSize ≤ nameLimit) (hup : ∀ name ∈ names, name ≠ Path.up)
    (hfree : t.isFree (p.root ++ names) = true) (content : List UInt8)
    : Stands p (t.put now (p.root ++ names) content) names content now := by
  have hput := @put_of_isFree t now _ hfree content
  have hlibrary' : (t.put now (p.root ++ names) content).locate p.library = .ok p.root :=
    locate_mono (fun l hl => isDirectoryAt_put hl) (working_put _ _ _ _) hlibrary
  refine ⟨?_, hput.1⟩
  have hwalk : (t.put now (p.root ++ names) content).walk p.root names = .ok (follow p.root names) := by
    apply walk_eq_follow _ hshort
    intro w hw hne
    rw [follow_of_ne_up fun name hname => hup name (hw.subset hname)]
    apply hput.2 _ ((List.prefix_append_right_inj _).2 hw)
    intro heq
    exact hne (List.append_cancel_left heq)
  rw [locate_descend hlibrary' hfits, hwalk, follow_of_ne_up hup]

theorem Stands.put (h : Stands p t names content modified) (hne : names' ≠ names)
    (now : Int) (content' : List UInt8)
    : Stands p (t.put now (p.root ++ names') content') names content modified := by
  constructor
  case located => exact locate_mono (fun l hl => isDirectoryAt_put hl) (working_put _ _ _ _) h.located
  case found =>
    rcases lookup?_put now (p.root ++ names') content' t (p.root ++ names) with hsame | hnew | hnew
    · exact hsame.trans h.found
    · exact absurd (List.append_cancel_left hnew.1).symm hne
    · rw [h.found] at hnew
      cases hnew.2.2.1

theorem Project.Bare.isFree (h : p.Bare s) (hnames : names ≠ []) : s.tree.isFree (p.root ++ names) = true := by
  have hnone : ∀ l, l <+: p.root ++ names → ¬ l <+: p.root → s.tree.lookup? l = none := by
    intro l hl hroot
    apply h.below
    · exact (List.prefix_or_prefix_of_prefix hl (List.prefix_append _ _)).resolve_left hroot
    · rintro rfl
      exact hroot (List.prefix_refl _)
  rw [isFree_iff]
  constructor
  · intro l hl hne e he
    by_cases hroot : l <+: p.root
    · obtain ⟨_, hdirectory⟩ := isDirectoryAt_iff.1 (h.above l hroot)
      rw [he] at hdirectory
      cases hdirectory
      rfl
    · rw [hnone l hl hroot] at he
      cases he
  · unfold FileTree.isDirectoryAt
    rw [hnone _ (List.prefix_refl _)]
    · rfl
    · intro hroot
      apply hnames
      have := hroot.length_le
      rw [List.length_append] at this
      exact List.length_eq_zero_iff.1 (by omega)

theorem Project.Bare.isFree_put (h : p.Bare s) (hnames' : names' ≠ [])
    (hbelow : ¬ names <+: names') (hbelow' : ¬ names' <+: names) (content : List UInt8)
    : (s.tree.put s.now (p.root ++ names) content).isFree (p.root ++ names') = true := by
  have hfree := isFree_iff.1 (h.isFree hnames')
  have hlookup := lookup?_put s.now (p.root ++ names) content s.tree
  rw [isFree_iff]
  constructor
  · intro l hl hne e he
    rcases hlookup l with hsame | hnew | hnew
    · rw [hsame] at he
      exact hfree.1 l hl hne e he
    · rw [hnew.1] at hl
      exact absurd ((List.prefix_append_right_inj _).1 hl) hbelow
    · rw [hnew.2.2.2] at he
      cases he
      rfl
  · rcases hlookup (p.root ++ names') with hsame | hnew | hnew
    · unfold FileTree.isDirectoryAt
      rw [hsame]
      exact hfree.2
    · have := List.append_cancel_left hnew.1
      exact absurd (this ▸ List.prefix_refl _) hbelow'
    · exact absurd ((List.prefix_append_right_inj _).1 hnew.1) hbelow'

/-! ### Two sources in a library -/

theorem nodup_sourceNames (h : t.WellFormed) (library : Path) : (sourceNames t library).Nodup := by
  unfold sourceNames filesBelow
  split
  next => exact List.nodup_nil
  next root hroot =>
    split
    next => exact List.nodup_nil
    next =>
      rw [(List.mergeSort_perm _ _).nodup_iff]
      apply List.Nodup.map_on
      · rintro ⟨l, e⟩ he ⟨l', e'⟩ he' heq
        rw [List.mem_filter, Bool.and_eq_true, Bool.and_eq_true, List.isPrefixOf_iff_prefix] at he he'
        obtain ⟨he, ⟨-, names, rfl⟩, -⟩ := he
        obtain ⟨he', ⟨-, names', rfl⟩, -⟩ := he'
        dsimp only at heq
        rw [List.drop_left, List.drop_left] at heq
        subst heq
        exact List.inj_on_of_nodup_map h he he' rfl
      · exact (List.Nodup.of_map _ h).filter _

section

variable {a b : List String} {ca cb : List UInt8} {ma mb : Int} {fa fb : File} {tree : FileTree}

theorem loaded_of_two (hdirectory : s.tree.isDirectory p.library = .ok true)
    (hsources : sourceNames s.tree p.library = [a, b]) (hkeys : key a ≠ key b)
    (ha : compileFile s.tree (p.library.descend a) = .ok fa)
    (hb : compileFile s.tree (p.library.descend b) = .ok fb)
    : p.loaded s = .ok ⟨[(key a, fa), (key b, fb)]⟩ := by
  unfold Project.loaded
  rw [loadLibrary_eq, hdirectory]
  dsimp only
  rw [hsources]
  simp [ha, hb, Corpus.insert, Corpus.insertFile, hkeys, bind, Except.bind, pure, Except.pure]

theorem Stands.compileFile (h : Stands p t a ca ma) (hcompiles : Compiles ca fa)
    : compileFile t (p.library.descend a) = .ok fa := by
  exact (compileFile_eq_ok_iff h.located h.found).2 hcompiles

theorem Stands.extends (h : Stands p t a ca ma) (husable : p.Usable used) (hextends : Extends p t tree)
    : Stands p tree a ca ma where
  located := locate_mono hextends.directory hextends.working h.located
  found := by
    rw [hextends.same, h.found]
    intro htop
    exact husable.not_above htop (List.prefix_append _ _)

theorem sourceNames_of_two (h : Coherent p used s) (hused : ∀ names, used names ↔ names = a ∨ names = b)
    (hlibrary : s.tree.locate p.library = .ok p.root) (hroot : s.tree.isDirectoryAt p.root = true)
    (ha : IsSource s.tree p.root a) (hb : IsSource s.tree p.root b) (hne : a ≠ b)
    : sourceNames s.tree p.library = [a, b] ∨ sourceNames s.tree p.library = [b, a] := by
  rw [← List.perm_pair, List.perm_ext_iff_of_nodup (nodup_sourceNames h.wellFormed _) (by simpa using hne)]
  intro names
  rw [mem_sourceNames_iff h.wellFormed hlibrary hroot, List.mem_pair]
  constructor
  · intro hsource
    exact (hused names).1 (h.sources names hsource)
  · rintro (rfl | rfl)
    · exact ha
    · exact hb

variable [Artifact.Codec]

theorem compile_of_two {t₁ t₂ : FileTree} (hdirectory : s.tree.isDirectory p.library = .ok true)
    (hsources : sourceNames s.tree p.library = [a, b]) (hkeys : key a ≠ key b)
    (ha : compileSource s.now (p.library.descend a) (artifactPath p.build (key a)) s.tree = .ok fa t₁)
    (hb : compileSource s.now (p.library.descend b) (artifactPath p.build (key b)) t₁ = .ok fb t₂)
    : p.compile s = .ok ⟨[(key a, fa), (key b, fb)]⟩ t₂ := by
  have hinsert : (Corpus.insert (Corpus.insert {} (key a) fa) (key b) fb).files =
      [(key a, fa), (key b, fb)] := by
    simp [Corpus.insert, Corpus.insertFile, hkeys]
  unfold Project.compile
  rw [compileLibrary_eq, hdirectory]
  dsimp only
  rw [hsources, compileSources_of_ok ha, compileSources_of_ok hb]
  exact congrArg (fun files => EStateM.Result.ok (Corpus.mk files) t₂) hinsert

theorem compileSource_of_lt [Artifact.LawfulCodec] (h : Stands p t a ca ma)
    (hartifact : t.locate (artifactPath p.build (key a)) = .ok (artifactPlace p.top a))
    (hplace : t.lookup? (artifactPlace p.top a) = some (.file (artifactBytes fa) modified))
    (hstorable : fa.Storable) (hnesting : fa.nesting < Artifact.Codec.limit) (hlt : ma < modified) (now : Int)
    : compileSource now (p.library.descend a) (artifactPath p.build (key a)) t = .ok fa t := by
  rw [compileSource_eq, cached?_of_lt hartifact hplace hstorable hnesting h.located h.found hlt]

def Project.Disagrees (p : Project) (s : Scene) : Prop :=
  ∃ corpus, p.compiled s = .ok corpus ∧ p.loaded s ≠ .ok corpus

theorem not_disagrees (h : p.compiled s = p.loaded s ∨ p.Refuses s) : ¬ p.Disagrees s := by
  rintro ⟨corpus, hcompiled, hloaded⟩
  obtain h | ⟨_, _, e, _, h⟩ := h
  · exact hloaded (h.symm.trans hcompiled)
  · cases h.symm.trans hcompiled

theorem disagrees_of_files {files files' : List (String × File)} (hcompile : p.compile s = .ok ⟨files⟩ tree)
    (hload : p.loaded s = .ok ⟨files'⟩) (hne : files ≠ files')
    : p.Disagrees s := by
  refine ⟨⟨files⟩, by rw [Project.compiled, hcompile]; rfl, ?_⟩
  rw [hload]
  intro h
  cases h
  exact hne rfl

theorem disagrees_of_shared [Artifact.LawfulCodec] {modified : Int} (h : Coherent p used s)
    (hused : ∀ names, used names ↔ names = a ∨ names = b)
    (hlibrary : s.tree.locate p.library = .ok p.root) (hroot : s.tree.isDirectoryAt p.root = true)
    (hkeys : key a ≠ key b) (ha : Stands p s.tree a ca ma) (hb : Stands p s.tree b cb mb)
    (hsourcea : IsSource s.tree p.root a) (hsourceb : IsSource s.tree p.root b)
    (hlta : ma < modified) (hltb : mb < modified) (hca : Compiles ca fa) (hcb : Compiles cb fb)
    (hnesting : fb.nesting < Artifact.Codec.limit) (hne : fa ≠ fb)
    (hlocatea : s.tree.locate (artifactPath p.build (key a)) = .ok (artifactPlace p.top a))
    (hlocateb : s.tree.locate (artifactPath p.build (key b)) = .ok (artifactPlace p.top b))
    (hplacea : s.tree.lookup? (artifactPlace p.top a) = some (.file (artifactBytes fb) modified))
    (hplaceb : s.tree.lookup? (artifactPlace p.top b) = some (.file (artifactBytes fb) modified))
    : p.Disagrees s := by
  have hdirectory := isDirectory_of_locate hlibrary hroot
  have hita := compileSource_of_lt ha hlocatea hplacea hcb.storable hnesting hlta s.now
  have hitb := compileSource_of_lt hb hlocateb hplaceb hcb.storable hnesting hltb s.now
  have hab : a ≠ b := by
    rintro rfl
    exact hkeys rfl
  cases sourceNames_of_two h hused hlibrary hroot hsourcea hsourceb hab with
  | inl hsources =>
    exact disagrees_of_files (compile_of_two hdirectory hsources hkeys hita hitb)
      (loaded_of_two hdirectory hsources hkeys (ha.compileFile hca) (hb.compileFile hcb)) (by simp [Ne.symm hne])
  | inr hsources =>
    exact disagrees_of_files (compile_of_two hdirectory hsources hkeys.symm hitb hita)
      (loaded_of_two hdirectory hsources hkeys.symm (hb.compileFile hcb) (ha.compileFile hca))
      (by simp [Ne.symm hne])

theorem disagrees_of_two [Artifact.LawfulCodec] (husable : p.Usable used) (h : Coherent p used s)
    (hused : ∀ names, used names ↔ names = a ∨ names = b)
    (hdirectory : s.tree.isDirectory p.library = .ok true)
    (hsources : sourceNames s.tree p.library = [a, b]) (hkeys : key a ≠ key b)
    (hplace : artifactPlace p.top a = artifactPlace p.top b)
    (hempty : s.tree.lookup? (artifactPlace p.top a) = none)
    (ha : Stands p s.tree a ca ma) (hb : Stands p s.tree b cb mb) (hma : ma < s.now) (hmb : mb < s.now)
    (hca : Compiles ca fa) (hcb : Compiles cb fb) (hnestinga : fa.nesting < Artifact.Codec.limit)
    (hnestingb : fb.nesting < Artifact.Codec.limit) (hne : fa ≠ fb)
    : p.Disagrees s ∨ p.Disagrees (p.perform s .compile) := by
  have huseda := (hused a).2 (.inl rfl)
  have husedb := (hused b).2 (.inr rfl)
  have hlibrary := locate_of_isDirectory hdirectory
  rw [h.working] at hlibrary
  change s.tree.locate p.library = .ok p.root at hlibrary
  have hroot := isDirectoryAt_of_isDirectory hdirectory hlibrary
  have hsourcea := (mem_sourceNames_iff h.wellFormed hlibrary hroot).1 (hsources ▸ List.mem_cons_self)
  have hsourceb := (mem_sourceNames_iff h.wellFormed hlibrary hroot).1
    (hsources ▸ List.mem_cons_of_mem a List.mem_cons_self)
  have hloaded := loaded_of_two hdirectory hsources hkeys (ha.compileFile hca) (hb.compileFile hcb)
  have hmissa : cached? s.tree (p.library.descend a) (artifactPath p.build (key a)) = .ok none := by
    apply cached?_of_not_upToDate
    rw [isUpToDate_eq]
    rcases h.locate_artifactPath husable huseda with ⟨fault, hfault, hmissing⟩ | hartifact
    · rw [find?_of_error hmissing hfault]
    · rw [find?_of_locate hartifact, hempty]
  obtain ⟨t₁, resulta, hcompilea, hyieldsa, h₁, hextends₁, hartifact₁⟩ :=
    h.compileSource_of_miss husable hlibrary hsourcea hmissa
  rw [ha.compileFile hca] at hyieldsa
  cases hyieldsa.eq_of_nesting hnestinga
  obtain ⟨hlocatea, hplacea⟩ := hartifact₁ fa rfl
  have hb₁ := hb.extends husable hextends₁
  have hsourceb₁ : IsSource t₁ p.root b := ⟨hsourceb.1, cb, mb, hb₁.found⟩
  have hlibrary₁ := locate_mono hextends₁.directory hextends₁.working hlibrary
  rcases h₁.locate_artifactPath husable husedb with ⟨fault, hfault, hmissing⟩ | hlocateb
  · -- The way to the second artifact is not there yet, so that source is compiled as well.
    right
    have hmissb : cached? t₁ (p.library.descend b) (artifactPath p.build (key b)) = .ok none := by
      apply cached?_of_not_upToDate
      rw [isUpToDate_eq, find?_of_error hmissing hfault]
    obtain ⟨t₂, resultb, hcompileb, hyieldsb, h₂, hextends₂, hartifact₂⟩ :=
      h₁.compileSource_of_miss husable hlibrary₁ hsourceb₁ hmissb
    dsimp only at hcompileb hyieldsb h₂ hextends₂ hartifact₂
    rw [hb₁.compileFile hcb] at hyieldsb
    cases hyieldsb.eq_of_nesting hnestingb
    obtain ⟨hlocateb, hplaceb⟩ := hartifact₂ fb rfl
    have hperform : p.perform s .compile = { s with tree := t₂ } := by
      unfold Project.perform
      rw [compile_of_two hdirectory hsources hkeys hcompilea hcompileb]
      rfl
    have ha₂ := (ha.extends husable hextends₁).extends husable hextends₂
    have hb₂ := hb₁.extends husable hextends₂
    have hlibrary₂ := locate_mono hextends₂.directory hextends₂.working hlibrary₁
    have hroot₂ := hextends₂.directory _ (hextends₁.directory _ hroot)
    have hlocatea₂ := locate_mono hextends₂.directory hextends₂.working hlocatea
    have hplacea₂ := hplaceb
    rw [← hplace] at hplacea₂
    rw [hperform]
    exact disagrees_of_shared h₂ hused hlibrary₂ hroot₂ hkeys ha₂ hb₂ ⟨hsourcea.1, ca, ma, ha₂.found⟩
      ⟨hsourceb.1, cb, mb, hb₂.found⟩ hma hmb hca hcb hnestingb hne hlocatea₂ hlocateb hplacea₂ hplaceb
  · left
    rw [hplace] at hplacea
    have hitb := compileSource_of_lt hb₁ hlocateb hplacea hca.storable hnestinga hmb s.now
    exact disagrees_of_files (compile_of_two hdirectory hsources hkeys hcompilea hitb) hloaded (by simp [hne])

end

/-! ### Exactness -/

theorem Project.Usable.mono {used' : List String → Prop} (h : p.Usable used)
    (hused : ∀ names, used' names → used names)
    : p.Usable used' where
  outside := h.outside
  above := h.above
  ordinary := fun names hnames => h.ordinary names (hused names hnames)
  spacious := {
    inside := fun names hnames => h.spacious.inside names (hused names hnames)
    clear := fun names names' hnames hnames' =>
      h.spacious.clear names names' (hused names hnames) (hused names' hnames')
    fits := fun names hnames => h.spacious.fits names (hused names hnames)
    short := fun names hnames => h.spacious.short names (hused names hnames) }

theorem Project.Fresh.mono {used' : List String → Prop} (h : p.Fresh used s)
    (hused : ∀ names, used names → used' names)
    : p.Fresh used' s where
  working := h.working
  wellFormed := h.wellFormed
  build := h.build
  directory := h.directory
  empty := h.empty
  sources := fun names hnames => hused names (h.sources names hnames)

def markerLine : List UInt8 := [45, 45, 45, 64, 109, 101, 116, 97]

theorem compiles_nil : Compiles [] {} := by
  exact ⟨[], by decide +kernel, by rfl⟩

theorem compiles_markerLine : Compiles markerLine { marker := some "" } := by
  exact ⟨"---@meta".toList, by decide +kernel, by decide +kernel⟩

def twoWrites (a b : List String) : List Step :=
  [.write a [], .write b markerLine, .advance 1]

section

variable [Artifact.Codec] {a b : List String}

theorem Project.Bare.lookup?_twoWrites (hbare : p.Bare s) (husable : p.Usable used) (hnames : used names)
    : (p.run s (twoWrites a b)).tree.lookup? (artifactPlace p.top names) = none := by
  have hinside := prefix_artifactPlace husable hnames
  have hbeside : ∀ names', ¬ artifactPlace p.top names <+: p.root ++ names' := by
    intro names' hbelow
    exact husable.not_above (hinside.trans hbelow) (List.prefix_append _ _)
  change ((s.tree.put s.now (p.root ++ a) []).put s.now (p.root ++ b) markerLine).lookup?
    (artifactPlace p.top names) = none
  rw [lookup?_put_beside (hbeside b), lookup?_put_beside (hbeside a)]
  exact hbare.fresh.empty _ hinside (top_ne_artifactPlace husable hnames)

theorem Project.Bare.twoWrites_spec (hbare : p.Bare s) (husable : p.Usable used)
    (hcompatible : p.Compatible used) (ha : used a) (hb : used b) (hab : a ≠ b)
    : Coherent p (fun names => names = a ∨ names = b) (p.run s (twoWrites a b)) ∧
        (p.run s (twoWrites a b)).tree.isDirectory p.library = .ok true ∧
        Stands p (p.run s (twoWrites a b)).tree a [] s.now ∧
        Stands p (p.run s (twoWrites a b)).tree b markerLine s.now := by
  have hne : ∀ names, used names → names ≠ [] := by
    rintro names hnames rfl
    cases hcompatible.suffix [] hnames
  have hbelow : ¬ a <+: b := fun h => hab (hcompatible.apart a b ha hb h)
  have hbelow' : ¬ b <+: a := fun h => hab (hcompatible.apart b a hb ha h).symm
  have hpair : ∀ names, names = a ∨ names = b → used names := by
    rintro names (rfl | rfl)
    · exact ha
    · exact hb
  have hlibrary := locate_mono (fun l hl => isDirectoryAt_put hl)
    (working_put s.now (p.root ++ a) [] s.tree) hbare.library
  refine ⟨?_, ?_, ?_, ?_⟩
  · apply coherent_advance
    apply coherent_put _ (husable.mono hpair) (.inr rfl)
    apply coherent_put _ (husable.mono hpair) (.inl rfl)
    exact (hbare.fresh.mono (by simp)).coherent
  · apply isDirectory_of_locate
    · exact locate_mono (fun l hl => isDirectoryAt_put hl) (working_put _ _ _ _) hlibrary
    · apply isDirectoryAt_put
      apply isDirectoryAt_put
      exact hbare.above _ (List.prefix_refl _)
  · apply Stands.put _ (Ne.symm hab)
    exact stands_put hbare.library (hcompatible.fits a ha) (hcompatible.short a ha)
      (husable.ordinary a ha) (hbare.isFree (hne a ha)) []
  · exact stands_put hlibrary (hcompatible.fits b hb) (hcompatible.short b hb) (husable.ordinary b hb)
      (hbare.isFree_put (hne b hb) hbelow hbelow' []) markerLine

end

theorem Project.Bare.apart_of_reliable [Artifact.Codec] [Artifact.LawfulCodec] (hbare : p.Bare s)
    (husable : p.Usable used) (hcompatible : p.Compatible used) (hreliable : p.Reliable used)
    : Apart p.top used := by
  intro a b ha hb hplace
  by_contra hab
  have hkeys : key a ≠ key b := fun h => hab (hcompatible.distinct a b ha hb h)
  have hpair : ∀ names, names = a ∨ names = b → used names := by
    rintro names (rfl | rfl)
    · exact ha
    · exact hb
  have husable' := husable.mono hpair
  obtain ⟨hcoherent, hdirectory, hstandsa, hstandsb⟩ :=
    hbare.twoWrites_spec husable hcompatible ha hb hab
  have hlater : s.now < (p.run s (twoWrites a b)).now := by
    change s.now < s.now + 1
    omega
  have hfiles : ({} : File) ≠ { marker := some "" } := by
    intro h
    cases congrArg File.marker h
  have hruns := hreliable s (hbare.fresh.mono (by simp))
  have hrun := not_disagrees (hruns (twoWrites a b) (by simp [twoWrites, Step.Uses, ha, hb]))
  have hrun' := not_disagrees (hruns (twoWrites a b ++ [.compile]) (by simp [twoWrites, Step.Uses, ha, hb]))
  have hnesting := Artifact.LawfulCodec.limit_pos
  have hlibrary := locate_of_isDirectory hdirectory
  rw [hcoherent.working] at hlibrary
  have hroot := isDirectoryAt_of_isDirectory hdirectory hlibrary
  rcases sourceNames_of_two hcoherent (fun _ => Iff.rfl) hlibrary hroot
    ⟨hcompatible.suffix a ha, _, _, hstandsa.found⟩ ⟨hcompatible.suffix b hb, _, _, hstandsb.found⟩ hab
    with hsources | hsources
  · rcases disagrees_of_two husable' hcoherent (fun _ => Iff.rfl) hdirectory hsources hkeys hplace
      (hbare.lookup?_twoWrites husable ha) hstandsa hstandsb hlater hlater compiles_nil
      compiles_markerLine hnesting hnesting hfiles with hdiffer | hdiffer
    · exact hrun hdiffer
    · exact hrun' hdiffer
  · rcases disagrees_of_two husable' hcoherent (fun _ => or_comm) hdirectory hsources hkeys.symm
      hplace.symm (hbare.lookup?_twoWrites husable hb) hstandsb hstandsa hlater hlater
      compiles_markerLine compiles_nil hnesting hnesting hfiles.symm with hdiffer | hdiffer
    · exact hrun hdiffer
    · exact hrun' hdiffer

end LuaTypes.Build
