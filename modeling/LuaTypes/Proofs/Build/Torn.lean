import LuaTypes.Proofs.Build.Frame
import LuaTypes.Proofs.Json.Nesting

/-!
Artifacts that have been torn, as by a build that was interrupted while it wrote them. No part of an artifact is read
as an artifact, so that a build goes on from the source, as if the artifact were out of date.
-/

namespace LuaTypes

open Declaration FileTree

namespace Artifact

theorem exists_error_of_prefix [Codec] {f : File} (hf : f.Storable) {text : String}
    (hcut : text.toList <+: (ofFile f).toList) (hne : text ≠ ofFile f)
    : ∃ e, toFile text = .error e := by
  have hstorable : (envelope "file" f.toJson).Storable := by
    simpa [envelope] using File.storable_toJson hf
  obtain ⟨e, hparse⟩ := Json.exists_error_of_prefix hstorable hcut hne
  have hpayload : ∃ e, payload "file" text = .error e := by
    unfold payload
    rw [hparse]
    cases e <;> exact ⟨_, rfl⟩
  obtain ⟨e, hpayload⟩ := hpayload
  refine ⟨e, ?_⟩
  unfold toFile
  rw [hpayload]
  rfl

end Artifact

namespace Build

variable {t t' : FileTree} {place : Location} {now older : Int}

theorem isUpToDate_of_locate {artifact : Path} {a : Entry} (hartifact : t.locate artifact = .ok place)
    (hplace : t.lookup? place = some a) (source : Path)
    : isUpToDate t source artifact = (t.find? source).map fun s => s.any fun s => s.modified < a.modified := by
  rw [isUpToDate_eq, find?_of_locate hartifact, hplace]
  dsimp only
  cases t.find? source with
  | error => rfl
  | ok s => cases s <;> rfl

theorem exists_lookup?_of_find? {p : Path} {e : Entry} (h : t.find? p = .ok (some e)) : ∃ l, t.lookup? l = some e := by
  unfold find? at h
  split at h
  next l _ => exact ⟨l, Except.ok.inj h⟩
  next => cases h
  next => cases h

theorem ensureDirectories_of_isDirectoryAt (now : Int) (levels : Nat) {p : Path} (hplace : t.locate p = .ok place)
    (hthere : t.isDirectoryAt place = true)
    : ensureDirectories now levels p t = .ok () t := by
  obtain ⟨modified, he⟩ := isDirectoryAt_iff.1 hthere
  have hmake : makeDirectory now p t = .error ⟨.alreadyExists, p⟩ t := by
    rw [makeDirectory_eq, hplace]
    dsimp only
    rw [he]
    rfl
  have hkeep : keepDirectory p ⟨.alreadyExists, p⟩ t = .ok () t := by
    rw [keepDirectory_eq, isDirectory_of_locate hplace hthere]
  cases levels with
  | zero =>
    change ensureDirectory now p t = _
    rw [ensureDirectory_eq, hmake]
    exact hkeep
  | succ levels =>
    rw [ensureDirectories_succ, hmake]
    exact hkeep

section

variable [Artifact.Codec]

def IsBroken (content : List UInt8) : Prop :=
  ∀ text, Text.decodeUtf8 content = .ok text →
    ∃ e, Artifact.toFile (String.ofList (Text.unifyLineEnds text)) = .error e

theorem isBroken_of_prefix {f : File} (hf : f.Storable) {text : String}
    (hcut : text.toList <+: (Artifact.ofFile f).toList) (hne : text ≠ Artifact.ofFile f)
    : IsBroken (Text.encodeUtf8 text.toList) := by
  have hascii : Json.IsAscii text.toList := fun c hc => isAscii_ofFile hf c (hcut.subset hc)
  intro cs hcs
  rw [Text.decodeUtf8_encodeUtf8 hascii] at hcs
  cases hcs
  rw [Text.unifyLineEnds_of_printableAscii hascii, String.ofList_toList]
  exact Artifact.exists_error_of_prefix hf hcut hne

/-! ### One source -/

theorem readArtifact_of_isBroken {artifact : Path} {content : List UInt8} {modified : Int}
    (hartifact : t.locate artifact = .ok place) (hplace : t.lookup? place = some (.file content modified))
    (hbroken : IsBroken content)
    : ∃ e, readArtifact t artifact = .error e ∧ ∀ a, e ≠ .unreadable (.access a) := by
  unfold readArtifact
  rw [readText_eq hartifact hplace]
  cases hdecode : Text.decodeUtf8 content with
  | error e => exact ⟨_, rfl, by simp⟩
  | ok text =>
    obtain ⟨e, he⟩ := hbroken text hdecode
    dsimp only
    rw [he]
    exact ⟨_, rfl, by simp⟩

theorem cached?_of_isBroken {artifact : Path} {content : List UInt8} {modified : Int}
    (hartifact : t.locate artifact = .ok place) (hplace : t.lookup? place = some (.file content modified))
    (hbroken : IsBroken content) (source : Path)
    : cached? t source artifact = (t.find? source).map fun _ => none := by
  obtain ⟨e, hread, haccess⟩ := readArtifact_of_isBroken hartifact hplace hbroken
  rw [cached?_eq, isUpToDate_of_locate hartifact hplace]
  cases t.find? source with
  | error => rfl
  | ok s =>
    dsimp only [Except.map]
    cases s.any fun s => s.modified < (Entry.file content modified).modified with
    | false => rfl
    | true =>
      rw [hread]
      match e with
      | .unreadable (.access a) => exact absurd rfl (haccess a)
      | .unreadable (.encoding _) | .invalid _ => rfl

theorem cached?_of_oldest {artifact : Path} {content : List UInt8} (hartifact : t.locate artifact = .ok place)
    (hplace : t.lookup? place = some (.file content older))
    (hold : ∀ l e, t.lookup? l = some e → older ≤ e.modified) (source : Path)
    : cached? t source artifact = (t.find? source).map fun _ => none := by
  rw [cached?_eq, isUpToDate_of_locate hartifact hplace]
  cases hsource : t.find? source with
  | error => rfl
  | ok s =>
    have hnot : s.any (fun s => s.modified < (Entry.file content older).modified) = false := by
      cases s with
      | none => rfl
      | some s =>
        obtain ⟨l, hl⟩ := exists_lookup?_of_find? hsource
        exact decide_eq_false (Int.not_lt.2 (hold l s hl))
    dsimp only [Except.map]
    rw [hnot]

theorem writeArtifact_of_there (now : Int) (file : File) {build : Path} {key : String} {e : Entry}
    (hartifact : t.locate (artifactPath build key) = .ok place) (hplace : t.lookup? place = some e)
    (hfile : e.isFile = true)
    : writeArtifact now file (artifactPath build key) t =
        match Artifact.serialize file with
        | .error refusal => .error (.refused refusal) t
        | .ok text => .ok () (t.insert place (.file (Text.encodeUtf8 text.toList) now)) := by
  obtain ⟨way, name, htrail⟩ : ∃ way name, trail key = way ++ [name] := ⟨_, _, rfl⟩
  have hpath : artifactPath build key = build.descend (way ++ [name]) := by rw [artifactPath_eq, htrail]
  have hfits := fits_of_locate hartifact
  have hparent : (artifactPath build key).parent = build.descend way := by
    simp [hpath, Path.parent, Path.descend, ← List.append_assoc]
  -- A file at the place means that the directories above it are there.
  obtain ⟨top, htop, hthere⟩ : ∃ top, t.locate (build.descend way) = .ok top ∧ t.isDirectoryAt top = true := by
    rw [hpath] at hfits
    have hsub : Fits (build.descend way) := hfits.of_isPrefix (List.prefix_append _ _)
    rw [hpath, locate_of_fits hfits] at hartifact
    have hparts : (build.descend (way ++ [name])).parts = (build.descend way).parts ++ [name] := by
      simp [Path.descend]
    rw [hparts] at hartifact
    obtain ⟨top, htop, hthere, -⟩ := walk_concat_eq_ok_iff.1 hartifact
    exact ⟨top, by rw [locate_of_fits hsub]; exact htop, hthere⟩
  have hfree : t.isDirectoryAt place = false := by
    cases e with
    | file => simp [FileTree.isDirectoryAt, hplace, Entry.isDirectory]
    | directory => cases hfile
  rw [writeArtifact_eq, ensurePath, hparent, ensureDirectories_of_isDirectoryAt now _ htop hthere]
  dsimp only
  cases Artifact.serialize file with
  | error => rfl
  | ok text =>
    dsimp only
    rw [writeText_eq, hartifact]
    dsimp only
    rw [hfree, if_neg (by simp)]

theorem compileSource_of_isBroken (now : Int) {source build : Path} {key : String} {content : List UInt8}
    {modified : Int} (hartifact : t.locate (artifactPath build key) = .ok place)
    (hplace : t.lookup? place = some (.file content modified)) (hbroken : IsBroken content)
    {s : Option Entry} (hsource : t.find? source = .ok s)
    : compileSource now source (artifactPath build key) t =
        match compileFile t source with
        | .error e => .error e t
        | .ok file =>
          match Artifact.serialize file with
          | .error refusal => .error (.refused refusal) t
          | .ok text => .ok file (t.insert place (.file (Text.encodeUtf8 text.toList) now)) := by
  rw [compileSource_eq, cached?_of_isBroken hartifact hplace hbroken, hsource]
  dsimp only [Except.map]
  cases compileFile t source with
  | error => rfl
  | ok file =>
    dsimp only
    rw [writeArtifact_of_there now file hartifact hplace rfl]
    cases Artifact.serialize file <;> rfl

end

/-! ### The whole library -/

theorem locate_source_ne (hplace : IsArtifact place) (library : Path) {names : List String}
    (hnames : names.getLast?.any (hasSuffix sourceSuffix) = true) (t : FileTree)
    : t.locate (library.descend names) ≠ .ok place := by
  intro hlocate
  obtain ⟨init, name, rfl⟩ : ∃ init name, names = init ++ [name] := by
    obtain rfl | ⟨init, name, h⟩ := List.eq_nil_or_concat names
    · cases hnames
    · exact ⟨init, name, by rw [h, List.concat_eq_append]⟩
  rw [List.getLast?_concat, Option.any_some] at hnames
  have hup : name ≠ Path.up := by
    rintro rfl
    revert hnames
    decide
  have hlast : place.getLast? = some name := by
    have hparts : (library.descend (init ++ [name])).parts = (library.parts ++ init) ++ [name] := by
      simp [Path.descend]
    rw [eq_follow_of_locate hlocate, hparts, follow_concat hup, List.getLast?_concat]
  rw [IsArtifact, hlast, Option.any_some] at hplace
  exact not_hasSuffix_both hnames hplace

theorem filter_insertEntry {q : Location × Entry → Bool} (hq : ∀ e, q (place, e) = false) (e : Entry)
    (entries : List (Location × Entry))
    : (insertEntry place e entries).filter q = entries.filter q := by
  induction entries with
  | nil => simp [insertEntry, hq]
  | cons head rest ih =>
    obtain ⟨l, f⟩ := head
    rw [insertEntry]
    split
    next hl =>
      subst hl
      simp [hq]
    next => rw [List.filter_cons, List.filter_cons, ih]

/--
Do two trees differ in one place at most? There the first one may hold a broken artifact, where the second one holds an
artifact that is no newer than anything else.
-/
structure Alike [Artifact.Codec] (place : Location) (older : Int) (t t' : FileTree) : Prop where
  working : t'.working = t.working
  elsewhere : ∀ l, l ≠ place → t'.lookup? l = t.lookup? l
  there : t'.lookup? place = t.lookup? place ∨
    ∃ content modified content', t.lookup? place = some (.file content modified) ∧ IsBroken content ∧
      t'.lookup? place = some (.file content' older)
  oldest : ∀ l e, t.lookup? l = some e → older ≤ e.modified

namespace Alike

variable [Artifact.Codec]

theorem isDirectoryAt (h : Alike place older t t') (l : Location) : t'.isDirectoryAt l = t.isDirectoryAt l := by
  unfold FileTree.isDirectoryAt
  by_cases hl : l = place
  · subst hl
    obtain hsame | ⟨_, _, _, hthere, -, hthere'⟩ := h.there
    · rw [hsame]
    · rw [hthere, hthere']
      rfl
  · rw [h.elsewhere l hl]

theorem isSome_lookup? (h : Alike place older t t') (l : Location)
    : (t'.lookup? l).isSome = (t.lookup? l).isSome := by
  by_cases hl : l = place
  · subst hl
    obtain hsame | ⟨_, _, _, hthere, -, hthere'⟩ := h.there
    · rw [hsame]
    · rw [hthere, hthere']
      rfl
  · rw [h.elsewhere l hl]

theorem walk (h : Alike place older t t') (start : Location) (way : List String)
    : t'.walk start way = t.walk start way := by
  induction way generalizing start with
  | nil => rfl
  | cons name way ih =>
    have hsome := h.isSome_lookup? start
    have hdirectory := h.isDirectoryAt start
    simp only [FileTree.isDirectoryAt] at hdirectory
    rw [FileTree.walk, FileTree.walk, ih]
    cases he : t.lookup? start with
    | none =>
      cases he' : t'.lookup? start with
      | none => rfl
      | some e' =>
        rw [he, he'] at hsome
        cases hsome
    | some e =>
      cases he' : t'.lookup? start with
      | none =>
        rw [he, he'] at hsome
        cases hsome
      | some e' =>
        rw [he, he'] at hdirectory
        cases e <;> cases e'
        case file.file | directory.directory => rfl
        all_goals cases hdirectory

theorem locate (h : Alike place older t t') (p : Path) : t'.locate p = t.locate p := by
  unfold FileTree.locate
  rw [h.working, h.walk]

theorem isDirectory (h : Alike place older t t') (p : Path) : t'.isDirectory p = t.isDirectory p := by
  unfold FileTree.isDirectory find?
  rw [h.locate]
  cases t.locate p with
  | error fault => cases fault <;> rfl
  | ok l => exact congrArg Except.ok (h.isDirectoryAt l)

theorem find? (h : Alike place older t t') {p : Path} (hp : ∀ l, t.locate p = .ok l → t'.lookup? l = t.lookup? l)
    : t'.find? p = t.find? p := by
  unfold FileTree.find?
  rw [h.locate]
  cases hlocate : t.locate p with
  | error fault => cases fault <;> rfl
  | ok l => exact congrArg Except.ok (hp l hlocate)

theorem readText (h : Alike place older t t') {p : Path}
    (hp : ∀ l, t.locate p = .ok l → t'.lookup? l = t.lookup? l)
    : t'.readText p = t.readText p :=
  readText_congr (h.locate p) hp

theorem oldest' (h : Alike place older t t') : ∀ l e, t'.lookup? l = some e → older ≤ e.modified := by
  intro l e he
  by_cases hl : l = place
  · subst hl
    obtain hsame | ⟨_, _, _, -, -, hthere'⟩ := h.there
    · exact h.oldest l e (hsame ▸ he)
    · rw [hthere'] at he
      cases he
      exact Int.le_refl older
  · exact h.oldest l e (h.elsewhere l hl ▸ he)

theorem insert (h : Alike place older t t') (l : Location) {e : Entry} (he : older ≤ e.modified)
    : Alike place older (t.insert l e) (t'.insert l e) where
  working := h.working
  elsewhere m hm := by rw [lookup?_insert, lookup?_insert, h.elsewhere m hm]
  there := by
    rw [lookup?_insert, lookup?_insert]
    split
    · exact .inl rfl
    · exact h.there
  oldest m f hf := by
    rw [lookup?_insert] at hf
    split at hf
    · cases hf
      exact he
    · exact h.oldest m f hf

end Alike

section

variable [Artifact.Codec]

inductive Same (place : Location) (older : Int) {ε α : Type}
    : EStateM.Result ε FileTree α → EStateM.Result ε FileTree α → Prop where
  | ok (x : α) {t t'} (h : Alike place older t t') : Same place older (.ok x t) (.ok x t')
  | error (e : ε) {t t'} (h : Alike place older t t') : Same place older (.error e t) (.error e t')

theorem Same.outcome_eq {ε α : Type} {r r' : EStateM.Result ε FileTree α} (h : Same place older r r')
    : outcome r = outcome r' := by
  cases h <;> rfl

def Keeps {ε α : Type} (place : Location) (older : Int) (x : Action ε α) : Prop :=
  ∀ t t', Alike place older t t' → Same place older (x t) (x t')

namespace Keeps

variable {ε δ α β : Type}

theorem pure (x : α) : Keeps place older (Pure.pure x : Action ε α) := by
  intro t t' h
  exact .ok x h

theorem bind {x : Action ε α} {f : α → Action ε β} (hx : Keeps place older x) (hf : ∀ a, Keeps place older (f a))
    : Keeps place older (x >>= f) := by
  intro t t' h
  have hsame := hx t t' h
  rw [bind_eq, bind_eq]
  generalize x t = r, x t' = r' at hsame
  cases hsame with
  | ok a hu => exact hf a _ _ hu
  | error e hu => exact .error e hu

end Keeps

/-! #### Directories and files -/

variable {p : Path}

theorem keeps_makeDirectory (hnow : older ≤ now) (p : Path) : Keeps place older (makeDirectory now p) := by
  intro t t' h
  rw [makeDirectory_eq, makeDirectory_eq, h.locate]
  cases t.locate p with
  | error fault => exact .error _ h
  | ok l =>
    dsimp only
    rw [h.isSome_lookup?]
    split
    · exact .error _ h
    · exact .ok () (h.insert l hnow)

theorem keeps_keepDirectory (p : Path) (e : AccessError) : Keeps place older (keepDirectory p e) := by
  intro t t' h
  rw [keepDirectory_eq, keepDirectory_eq, h.isDirectory]
  split
  · exact .ok () h
  · exact .error e h

theorem keeps_ensureDirectory (hnow : older ≤ now) (p : Path) : Keeps place older (ensureDirectory now p) := by
  intro t t' h
  have hsame := keeps_makeDirectory hnow p t t' h
  rw [ensureDirectory_eq, ensureDirectory_eq]
  generalize makeDirectory now p t = r, makeDirectory now p t' = r' at hsame
  cases hsame with
  | ok _ hu => exact .ok () hu
  | error e hu => exact keeps_keepDirectory p e _ _ hu

theorem keeps_ensureDirectories (hnow : older ≤ now) (levels : Nat) (p : Path)
    : Keeps place older (ensureDirectories now levels p) := by
  induction levels generalizing p with
  | zero => exact keeps_ensureDirectory hnow p
  | succ levels ih =>
    intro t t' h
    have hsame := keeps_makeDirectory hnow p t t' h
    rw [ensureDirectories_succ, ensureDirectories_succ]
    generalize makeDirectory now p t = r, makeDirectory now p t' = r' at hsame
    cases hsame with
    | ok _ hu => exact .ok () hu
    | error e hu =>
      dsimp only
      split
      · have hparent := ih p.parent _ _ hu
        rename_i u u' _
        generalize ensureDirectories now levels p.parent u = r, ensureDirectories now levels p.parent u' = r'
          at hparent
        cases hparent with
        | ok _ hv => exact keeps_ensureDirectory hnow p _ _ hv
        | error e hv => exact .error e hv
      · exact keeps_keepDirectory p e _ _ hu

theorem keeps_writeText (hnow : older ≤ now) (p : Path) (text : String)
    : Keeps place older (writeText now p text) := by
  intro t t' h
  rw [writeText_eq, writeText_eq, h.locate]
  cases t.locate p with
  | error fault => exact .error _ h
  | ok l =>
    dsimp only
    rw [h.isDirectoryAt]
    split
    · exact .error _ h
    · exact .ok () (h.insert l hnow)

theorem keeps_writeArtifact (hnow : older ≤ now) (file : File) (artifact : Path)
    : Keeps place older (writeArtifact now file artifact) := by
  intro t t' h
  have hpath := keeps_ensureDirectories hnow artifact.parent.parts.length artifact.parent t t' h
  rw [writeArtifact_eq, writeArtifact_eq, ensurePath]
  generalize ensureDirectories now _ artifact.parent t = r, ensureDirectories now _ artifact.parent t' = r' at hpath
  cases hpath with
  | error e hu => exact .error _ hu
  | @ok _ u u' hu =>
    dsimp only
    cases Artifact.serialize file with
    | error refusal => exact .error _ hu
    | ok text =>
      have htext := keeps_writeText hnow artifact text u u' hu
      dsimp only
      generalize writeText now artifact text u = r, writeText now artifact text u' = r' at htext
      cases htext with
      | ok _ hv => exact .ok () hv
      | error e hv => exact .error _ hv

/-! #### Sources -/

theorem Alike.cached? (h : Alike place older t t') {source : Path} (hsource : t.locate source ≠ .ok place)
    (artifact : Path)
    : Build.cached? t' source artifact = Build.cached? t source artifact := by
  have hfind : t'.find? source = t.find? source := by
    apply h.find?
    rintro l hl
    apply h.elsewhere
    rintro rfl
    exact hsource hl
  by_cases hdiffers : t.locate artifact = .ok place ∧ t'.lookup? place ≠ t.lookup? place
  case pos =>
    obtain ⟨hartifact, hne⟩ := hdiffers
    obtain ⟨content, modified, content', hthere, hbroken, hthere'⟩ := h.there.resolve_left hne
    have hartifact' : t'.locate artifact = .ok place := by rw [h.locate, hartifact]
    rw [cached?_of_isBroken hartifact hthere hbroken, cached?_of_oldest hartifact' hthere' h.oldest', hfind]
  case neg =>
    have hartifact : ∀ l, t.locate artifact = .ok l → t'.lookup? l = t.lookup? l := by
      intro l hl
      by_cases hplace : l = place
      · subst hplace
        by_contra hne
        exact hdiffers ⟨hl, hne⟩
      · exact h.elsewhere l hplace
    rw [cached?_eq, cached?_eq, isUpToDate_eq, isUpToDate_eq, h.find? hartifact, hfind]
    unfold readArtifact
    rw [h.readText hartifact]

theorem Alike.compileFile (h : Alike place older t t') {source : Path} (hsource : t.locate source ≠ .ok place)
    : Build.compileFile t' source = Build.compileFile t source := by
  unfold Build.compileFile
  rw [h.readText]
  rintro l hl
  apply h.elsewhere
  rintro rfl
  exact hsource hl

theorem keeps_compileSource (hnow : older ≤ now) {source : Path} (hsource : ∀ t : FileTree, t.locate source ≠ .ok place)
    (artifact : Path)
    : Keeps place older (compileSource now source artifact) := by
  intro t t' h
  rw [compileSource_eq, compileSource_eq, h.cached? (hsource t), h.compileFile (hsource t)]
  split
  · exact .error _ h
  · exact .ok _ h
  · split
    · exact .error _ h
    next file _ =>
      have hsame := keeps_writeArtifact hnow file artifact t t' h
      generalize writeArtifact now file artifact t = r, writeArtifact now file artifact t' = r' at hsame
      cases hsame with
      | ok _ hu => exact .ok file hu
      | error e hu => exact .error _ hu

theorem keeps_compileSources (hnow : older ≤ now) (hplace : IsArtifact place) (library build : Path)
    {sources : List (List String)} (hsources : ∀ names ∈ sources, names.getLast?.any (hasSuffix sourceSuffix) = true)
    (corpus : Corpus)
    : Keeps place older (compileSources now library build corpus sources) := by
  induction sources generalizing corpus with
  | nil => exact .pure corpus
  | cons names rest ih =>
    have hfirst := locate_source_ne hplace library (hsources names (by simp))
    exact (keeps_compileSource hnow hfirst _).bind fun _ => ih (fun n hn => hsources n (by simp [hn])) _

theorem Alike.sourceNames_insert {e : Entry} (h : Alike place older t (t.insert place e)) (hplace : IsArtifact place)
    (library : Path)
    : sourceNames (t.insert place e) library = sourceNames t library := by
  unfold sourceNames filesBelow
  rw [h.locate]
  cases t.locate library with
  | error => rfl
  | ok root =>
    dsimp only
    rw [h.isDirectoryAt]
    congr 3
    apply filter_insertEntry
    intro f
    have hsource : place.getLast?.any (hasSuffix sourceSuffix) = false := by
      unfold IsArtifact at hplace
      cases hlast : place.getLast? with
      | none => rfl
      | some name =>
        rw [hlast] at hplace
        by_contra hsource
        exact not_hasSuffix_both (by simpa using hsource) hplace
    simp [hsource]

theorem alike_insert (hplace : IsArtifact place) {content : List UInt8} {modified : Int}
    (hthere : t.lookup? place = some (.file content modified)) (hbroken : IsBroken content)
    (hold : ∀ l e, t.lookup? l = some e → older ≤ e.modified) (content' : List UInt8)
    : Alike place older t (t.insert place (.file content' older)) where
  working := rfl
  elsewhere l hl := by rw [lookup?_insert, if_neg fun h => hl h.1]
  there := by
    have hne : place ≠ [] := by
      rintro rfl
      cases hplace
    exact .inr ⟨content, modified, content', hthere, hbroken, by rw [lookup?_insert, if_pos ⟨rfl, hne⟩]⟩
  oldest := hold

theorem outcome_compileLibrary_of_isBroken (hplace : IsArtifact place) {content : List UInt8} {modified : Int}
    (ht : t.WellFormed) (hthere : t.lookup? place = some (.file content modified)) (hbroken : IsBroken content)
    (hold : ∀ l e, t.lookup? l = some e → older ≤ e.modified) (hnow : older ≤ now) (library build : Path)
    (content' : List UInt8)
    : outcome (compileLibrary now library build t)
        = outcome (compileLibrary now library build (t.insert place (.file content' older))) := by
  have halike := alike_insert hplace hthere hbroken hold content'
  rw [compileLibrary_eq, compileLibrary_eq, halike.isDirectory, halike.sourceNames_insert hplace]
  split
  next => rfl
  next hdirectory =>
    have hlibrary := locate_of_isDirectory hdirectory
    have hroot := isDirectoryAt_of_isDirectory hdirectory hlibrary
    refine (keeps_compileSources hnow hplace library build ?_ {} _ _ halike).outcome_eq
    exact fun names hnames => ((mem_sourceNames_iff ht hlibrary hroot).1 hnames).1
  next => rfl

/-! ### Torn artifacts -/

/--
What is left of an artifact that was cut short is never used: it is read as no artifact, its source is compiled, and a
build of the library ends as if the artifact were out of date.
-/
theorem torn_artifact_unused [Artifact.LawfulCodec] {f : File} (hf : f.Storable) {whole text : String}
    (hwhole : Artifact.serialize f = .ok whole) (hcut : text.toList <+: whole.toList) (hne : text ≠ whole)
    : (∃ e, Artifact.toFile text = .error e) ∧
        ∀ (t : FileTree) (place : Location) (modified now : Int) (build : Path),
          t.lookup? place = some (.file (Text.encodeUtf8 text.toList) modified) →
            (∀ (source : Path) (key : String) (s : Option Entry), t.locate (artifactPath build key) = .ok place →
              t.find? source = .ok s →
              compileSource now source (artifactPath build key) t =
                match compileFile t source with
                | .error e => .error e t
                | .ok file =>
                  match Artifact.serialize file with
                  | .error refusal => .error (.refused refusal) t
                  | .ok text => .ok file (t.insert place (.file (Text.encodeUtf8 text.toList) now))) ∧
            ∀ (library : Path) (older : Int) (content : List UInt8), t.WellFormed → IsArtifact place → older ≤ now →
              (∀ l e, t.lookup? l = some e → older ≤ e.modified) →
              outcome (compileLibrary now library build t)
                = outcome (compileLibrary now library build (t.insert place (.file content older))) := by
  cases Artifact.eq_ofFile_of_serialize hwhole
  have hbroken := isBroken_of_prefix hf hcut hne
  refine ⟨Artifact.exists_error_of_prefix hf hcut hne, ?_⟩
  intro t place modified now build hthere
  constructor
  · intro source key s hartifact hsource
    exact compileSource_of_isBroken now hartifact hthere hbroken hsource
  · intro library older content ht hplace hnow hold
    exact outcome_compileLibrary_of_isBroken hplace ht hthere hbroken hold hnow library build content

end

def tornTree : FileTree where
  entries :=
    [(["lib"], .directory 1), (["lib", "a.lua"], .file (Text.encodeUtf8 "---@meta".toList) 1),
      (["build"], .directory 2), (["build", "a.decl.json"], .file (Text.encodeUtf8 "\x7b\"v\":\"1\",".toList) 2)]

def metaFile : File :=
  { marker := some "" }

theorem storable_metaFile : metaFile.Storable := by
  intro t ht
  cases ht with
  | base h | member h => exact absurd h List.not_mem_nil
  | key h | field h => exact absurd h List.not_mem_nil
  | param h | result h => exact absurd h List.not_mem_nil

theorem modified_of_mem_entries {l : Location} {e : Entry} (h : ∀ entry ∈ t.entries, older ≤ entry.2.modified)
    (hroot : older ≤ 0) (he : t.lookup? l = some e)
    : older ≤ e.modified := by
  by_cases hl : l = []
  · subst hl
    cases he
    exact hroot
  · exact h (l, e) (mem_entries_of_lookup? he hl)

theorem tornTree_recompiled
    : (∃ e, Artifact.toFile "\x7b\"v\":\"1\"," = .error e) ∧
        compileSource 3 { parts := ["lib", "a.lua"] } (artifactPath { parts := ["build"] } "a") tornTree
          = .ok metaFile (tornTree.insert ["build", "a.decl.json"] (.file (artifactBytes metaFile) 3)) ∧
        outcome (compileLibrary 3 { parts := ["lib"] } { parts := ["build"] } tornTree)
          = outcome (compileLibrary 3 { parts := ["lib"] } { parts := ["build"] }
              (tornTree.insert ["build", "a.decl.json"] (.file [] 0))) := by
  have hcut : "\x7b\"v\":\"1\",".toList <+: (Artifact.ofFile metaFile).toList :=
    List.isPrefixOf_iff_prefix.1 (by decide +kernel)
  have hne : "\x7b\"v\":\"1\"," ≠ Artifact.ofFile metaFile := by decide
  have hwhole : Artifact.serialize metaFile = .ok (Artifact.ofFile metaFile) := Artifact.serialize_eq (by decide)
  obtain ⟨herror, hbuild⟩ := torn_artifact_unused storable_metaFile hwhole hcut hne
  obtain ⟨hone, hall⟩ := hbuild tornTree ["build", "a.decl.json"] 2 3 { parts := ["build"] } rfl
  refine ⟨herror, ?_, ?_⟩
  · have hpath : artifactPath { parts := ["build"] } "a" = { parts := ["build", "a.decl.json"] } := rfl
    have hartifact : tornTree.locate (artifactPath { parts := ["build"] } "a") = .ok ["build", "a.decl.json"] := by
      rw [hpath]
      rfl
    have hfind : tornTree.find? { parts := ["lib", "a.lua"] }
        = .ok (some (.file (Text.encodeUtf8 "---@meta".toList) 1)) := rfl
    have hfile : compileFile tornTree { parts := ["lib", "a.lua"] } = .ok metaFile := by decide +kernel
    rw [hone _ _ _ hartifact hfind, hfile]
    dsimp only
    rw [hwhole]
    rfl
  · apply hall
    · unfold WellFormed
      decide
    · unfold IsArtifact
      decide
    · decide
    · exact fun l e => modified_of_mem_entries (by decide) (by decide)

end Build

end LuaTypes
