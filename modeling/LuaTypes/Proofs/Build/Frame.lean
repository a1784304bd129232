import LuaTypes.Proofs.Build.Cache
import LuaTypes.Proofs.FileTree.Frame

/-!
What actions leave of a tree, whether they succeed or fail: directories are only made, a file is only
written where its path leads to, and a build writes nothing but artifacts.
-/

namespace LuaTypes

open FileTree

namespace Build

variable {now : Int} {P : Location → Prop} {t : FileTree}

theorem remains_bind {ε σ α β : Type} {R : σ → σ → Prop} (htrans : ∀ {a b c}, R a b → R b c → R a c)
    {x : EStateM ε σ α} {f : α → EStateM ε σ β} {s : σ} (hx : R s (remains (x s)))
    (hf : ∀ a s', R s s' → R s' (remains (f a s')))
    : R s (remains ((x >>= f) s)) := by
  change R s (remains (EStateM.bind x f s))
  unfold EStateM.bind
  cases h : x s with
  | ok a s' =>
    rw [h] at hx
    exact htrans hx (hf a s' hx)
  | error e s' => rwa [h] at hx

/-! ### Directories and files -/

theorem remains_keepDirectory (p : Path) (e : AccessError) (t : FileTree)
    : remains (keepDirectory p e t) = t := by
  rw [keepDirectory_eq]
  split <;> rfl

theorem grows_makeDirectory (now : Int) (p : Path) (t : FileTree)
    : Grows now (fun _ => True) t (remains (makeDirectory now p t)) := by
  rw [makeDirectory_eq]
  cases t.locate p with
  | error fault => exact .refl
  | ok place =>
    dsimp only
    cases hplace : t.lookup? place with
    | some e => exact .refl
    | none => exact .directory .refl trivial hplace

theorem grows_ensureDirectory (now : Int) (p : Path) (t : FileTree)
    : Grows now (fun _ => True) t (remains (ensureDirectory now p t)) := by
  have hmake := grows_makeDirectory now p t
  rw [ensureDirectory_eq]
  cases h : makeDirectory now p t with
  | ok _ t' => rwa [h] at hmake
  | error e t' =>
    rw [h] at hmake
    dsimp only
    rwa [remains_keepDirectory]

theorem grows_ensureDirectories (now : Int) (levels : Nat) (p : Path) (t : FileTree)
    : Grows now (fun _ => True) t (remains (ensureDirectories now levels p t)) := by
  induction levels generalizing p t with
  | zero => exact grows_ensureDirectory now p t
  | succ levels ih =>
    have hmake := grows_makeDirectory now p t
    rw [ensureDirectories_succ]
    cases h : makeDirectory now p t with
    | ok _ t' => rwa [h] at hmake
    | error e t' =>
      rw [h] at hmake
      dsimp only
      split
      next =>
        have hparent := hmake.trans (ih p.parent t')
        cases h' : ensureDirectories now levels p.parent t' with
        | ok _ t'' =>
          rw [h'] at hparent
          exact hparent.trans (grows_ensureDirectory now p t'')
        | error e t'' => rwa [h'] at hparent
      next => rwa [remains_keepDirectory]

theorem changes_writeText (now : Int) {p : Path} (text : String)
    (h : ∀ place, t.locate p = .ok place → P place)
    : Changes P t (remains (writeText now p text t)) := by
  rw [writeText_eq]
  cases hlocate : t.locate p with
  | error fault => exact .refl P t
  | ok place =>
    dsimp only
    split
    next => exact .refl P t
    next hplace =>
      exact changes_insert_file (Bool.not_eq_true _ ▸ hplace) (h place hlocate) _ _

theorem lasting_writeText (now : Int) {p : Path} (text : String) (h : ∀ place, t.locate p = .ok place → P place)
    : Lasting P t (remains (writeText now p text t)) where
  toChanges := changes_writeText now text h
  directory := by
    rw [writeText_eq]
    cases t.locate p with
    | error fault => exact fun _ hl => hl
    | ok place =>
      dsimp only
      split
      next => exact fun _ hl => hl
      next hplace => exact fun _ hl => isDirectoryAt_insert_of_ne (Bool.not_eq_true _ ▸ hplace) hl

/-! ### Artifacts -/

def IsArtifact (l : Location) : Prop :=
  l.getLast?.any (hasSuffix artifactSuffix) = true

theorem not_hasSuffix_both {name : String} (hsource : hasSuffix sourceSuffix name = true)
    : ¬ hasSuffix artifactSuffix name = true := by
  intro hartifact
  unfold hasSuffix at hsource hartifact
  rw [List.isSuffixOf_iff_suffix] at hsource hartifact
  have hlua := hsource.getLast (by decide)
  have hjson := hartifact.getLast (by decide)
  rw [← hlua] at hjson
  revert hjson
  decide

theorem isArtifact_follow_trail (place : Location) (key : String) : IsArtifact (follow place (trail key)) := by
  unfold trail
  dsimp only
  rw [follow_concat (append_artifactSuffix_ne_up _)]
  unfold IsArtifact
  rw [List.getLast?_concat, Option.any_some, hasSuffix, String.toList_append, List.isSuffixOf_iff_suffix]
  exact List.suffix_append _ _

theorem isArtifact_placeOf (t : FileTree) (build : Path) (key : String)
    : IsArtifact (t.placeOf (artifactPath build key)) := by
  rw [placeOf, artifactPath_eq, Path.descend, follow, List.foldl_append]
  exact isArtifact_follow_trail _ key

variable [Artifact.Codec]

theorem lasting_writeArtifact (now : Int) (file : Declaration.File) (build : Path) (key : String) (t : FileTree)
    : Lasting (· = t.placeOf (artifactPath build key)) t
        (remains (writeArtifact now file (artifactPath build key) t)) := by
  have hmake := (grows_ensureDirectories now (artifactPath build key).parent.parts.length
    (artifactPath build key).parent t).lasting (· = t.placeOf (artifactPath build key))
  rw [writeArtifact_eq, ensurePath]
  cases hpath : ensureDirectories now (artifactPath build key).parent.parts.length
      (artifactPath build key).parent t with
  | error e t' => rwa [hpath] at hmake
  | ok _ t' =>
    rw [hpath] at hmake
    dsimp only
    cases Artifact.serialize file with
    | error => exact hmake
    | ok text =>
      have hwrite : Lasting (· = t.placeOf (artifactPath build key)) t'
          (remains (writeText now (artifactPath build key) text t')) := by
        apply lasting_writeText now
        intro place hplace
        rw [← hmake.placeOf]
        exact eq_follow_of_locate hplace
      dsimp only
      cases htext : writeText now (artifactPath build key) text t' with
      | ok | error =>
        rw [htext] at hwrite
        exact hmake.trans hwrite

theorem lasting_compileSource (now : Int) (source build : Path) (key : String) (t : FileTree)
    : Lasting (· = t.placeOf (artifactPath build key)) t
        (remains (compileSource now source (artifactPath build key) t)) := by
  rw [compileSource_eq]
  split
  · exact .refl _ t
  · exact .refl _ t
  · split
    · exact .refl _ t
    next file _ =>
      have hwrite := lasting_writeArtifact now file build key t
      split <;> rename_i h <;> rwa [h] at hwrite

theorem changes_compileSource (now : Int) (source build : Path) (key : String) (t : FileTree)
    : Changes IsArtifact t (remains (compileSource now source (artifactPath build key) t)) := by
  apply (lasting_compileSource now source build key t).toChanges.mono
  intro l hl
  rw [hl]
  exact isArtifact_placeOf t build key

theorem changes_compileSources (now : Int) (library build : Path) (corpus : Declaration.Corpus)
    (sources : List (List String)) (t : FileTree)
    : Changes IsArtifact t (remains (compileSources now library build corpus sources t)) := by
  induction sources generalizing corpus t with
  | nil => exact .refl _ t
  | cons names rest ih =>
    unfold compileSources
    apply remains_bind (R := Changes IsArtifact) Changes.trans
    · exact changes_compileSource now _ build (key names) t
    · intro file t' _
      exact ih _ t'

theorem changes_compileLibrary (now : Int) (library build : Path) (t : FileTree)
    : Changes IsArtifact t (remains (compileLibrary now library build t)) := by
  rw [compileLibrary_eq]
  split
  · exact .refl _ t
  · exact changes_compileSources now library build {} _ t
  · exact .refl _ t

end Build

end LuaTypes
