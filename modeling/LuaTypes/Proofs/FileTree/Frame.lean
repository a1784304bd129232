import LuaTypes.Proofs.FileTree.Directory

/-!
Trees before and after a change: which files are the same in both of them.
-/

namespace LuaTypes.FileTree

variable {t t' : FileTree} {P Q : Location → Prop}

def file? (t : FileTree) (place : Location) : Option Entry :=
  (t.lookup? place).filter (·.isFile)

def placeOf (t : FileTree) (p : Path) : Location :=
  follow (origin t.working p) p.parts

theorem follow_concat {name : String} (h : name ≠ Path.up) (place : Location) (way : List String)
    : follow place (way ++ [name]) = follow place way ++ [name] := by
  unfold follow
  rw [List.foldl_append, List.foldl_cons, List.foldl_nil, if_neg h]

theorem file?_eq_some_iff {l : Location} {e : Entry}
    : t.file? l = some e ↔ t.lookup? l = some e ∧ e.isFile = true := by
  unfold file?
  rw [Option.filter_eq_some_iff]

theorem file?_eq_none_of_isDirectoryAt {l : Location} (h : t.isDirectoryAt l = true)
    : t.file? l = none := by
  obtain ⟨modified, h⟩ := isDirectoryAt_iff.1 h
  unfold file?
  rw [h]
  rfl

theorem file?_eq_none_of_lookup? {l : Location} (h : t.lookup? l = none) : t.file? l = none := by
  unfold file?
  rw [h]
  rfl

theorem file?_insert_file {place : Location} (h : t.isDirectoryAt place = false) (content : List UInt8)
    (modified : Int) (l : Location)
    : (t.insert place (.file content modified)).file? l
        = if l = place then some (.file content modified) else t.file? l := by
  have hplace : place ≠ [] := by
    rintro rfl
    cases h
  unfold file?
  rw [lookup?_insert]
  by_cases hl : l = place
  · rw [if_pos hl, if_pos ⟨hl, hl ▸ hplace⟩]
    rfl
  · rw [if_neg hl, if_neg fun h => hl h.1]

theorem file?_insert_directory {place : Location} (h : t.lookup? place = none) (modified : Int)
    (l : Location)
    : (t.insert place (.directory modified)).file? l = t.file? l := by
  unfold file?
  rw [lookup?_insert]
  split
  next hl => rw [hl.1, h]; rfl
  next => rfl

/-! ### Changes -/

/--
No file has gone away, and those at other places than `P` are as before. Directories do not matter.
-/
structure Changes (P : Location → Prop) (t t' : FileTree) : Prop where
  working : t'.working = t.working
  kept : ∀ l, (t.file? l).isSome → (t'.file? l).isSome
  frame : ∀ l, ¬ P l → t'.file? l = t.file? l

namespace Changes

theorem refl (P : Location → Prop) (t : FileTree) : Changes P t t where
  working := rfl
  kept := fun _ h => h
  frame := fun _ _ => rfl

theorem trans {t'' : FileTree} (h : Changes P t t') (h' : Changes P t' t'') : Changes P t t'' where
  working := h'.working.trans h.working
  kept := fun l hl => h'.kept l (h.kept l hl)
  frame := fun l hl => (h'.frame l hl).trans (h.frame l hl)

theorem mono (h : Changes P t t') (hPQ : ∀ l, P l → Q l) : Changes Q t t' where
  working := h.working
  kept := h.kept
  frame := fun l hl => h.frame l fun hP => hl (hPQ l hP)

theorem placeOf (h : Changes P t t') (p : Path) : t'.placeOf p = t.placeOf p := by
  unfold FileTree.placeOf
  rw [h.working]

theorem file?_eq_none (h : Changes P t t') {l : Location} (hl : t'.file? l = none)
    : t.file? l = none := by
  cases hfile : t.file? l with
  | none => rfl
  | some e =>
    have := h.kept l (by rw [hfile]; rfl)
    rw [hl] at this
    cases this

end Changes

theorem changes_insert_file {place : Location} (h : t.isDirectoryAt place = false) (hplace : P place)
    (content : List UInt8) (modified : Int)
    : Changes P t (t.insert place (.file content modified)) where
  working := rfl
  kept := by
    intro l hl
    rw [file?_insert_file h]
    split
    · rfl
    · exact hl
  frame := by
    intro l hl
    rw [file?_insert_file h, if_neg]
    rintro rfl
    exact hl hplace

theorem Grows.changes {now : Int} (h : Grows now Q t t') (P : Location → Prop) : Changes P t t' := by
  induction h with
  | refl => exact .refl P t
  | @directory t' l _ _ hnone ih =>
    have hsame := file?_insert_directory hnone now
    apply ih.trans
    exact ⟨rfl, fun l hl => by rwa [hsame], fun l _ => hsame l⟩

structure Lasting (P : Location → Prop) (t t' : FileTree) : Prop extends Changes P t t' where
  directory : ∀ l, t.isDirectoryAt l = true → t'.isDirectoryAt l = true

namespace Lasting

theorem refl (P : Location → Prop) (t : FileTree) : Lasting P t t where
  toChanges := .refl P t
  directory := fun _ h => h

theorem trans {t'' : FileTree} (h : Lasting P t t') (h' : Lasting P t' t'') : Lasting P t t'' where
  toChanges := h.toChanges.trans h'.toChanges
  directory := fun l hl => h'.directory l (h.directory l hl)

theorem mono (h : Lasting P t t') (hPQ : ∀ l, P l → Q l) : Lasting Q t t' where
  toChanges := h.toChanges.mono hPQ
  directory := h.directory

end Lasting

theorem Grows.lasting {now : Int} (h : Grows now Q t t') (P : Location → Prop) : Lasting P t t' where
  toChanges := h.changes P
  directory := fun _ hl => h.isDirectoryAt hl

/-! ### Missing files -/

theorem walk_concat_eq_ok_iff {place l : Location} {way : List String} {name : String}
    : t.walk place (way ++ [name]) = .ok l ↔
        ∃ top, t.walk place way = .ok top ∧ t.isDirectoryAt top = true ∧
          name.utf8ByteSize ≤ nameLimit ∧ l = follow top [name] := by
  rw [walk_append]
  constructor
  · intro h
    split at h
    next top htop =>
      refine ⟨top, htop, ?_, short_of_walk h name (by simp), eq_follow_of_walk h⟩
      rw [walk] at h
      split at h
      · cases h
      · cases h
      next modified hplace => exact isDirectoryAt_iff.2 ⟨modified, hplace⟩
    next => cases h
  · rintro ⟨top, htop, hthere, hname, rfl⟩
    rw [htop]
    dsimp only
    apply walk_eq_follow
    · intro w hw hne
      cases List.prefix_concat_iff.1 (show w <+: [] ++ [name] from hw) with
      | inl h => exact absurd h hne
      | inr h =>
        rw [List.prefix_nil.1 h]
        exact hthere
    · simpa using hname

theorem contains_of_locate {p : Path} {place : Location} (h : t.locate p = .ok place)
    : t.contains p = .ok (t.lookup? place).isSome := by
  unfold FileTree.contains
  rw [find?_of_locate h]
  rfl

theorem exists_of_contains {p : Path} (h : t.contains p = .ok true)
    : ∃ place, t.locate p = .ok place ∧ (t.lookup? place).isSome := by
  cases hlocate : t.locate p with
  | ok place =>
    rw [contains_of_locate hlocate] at h
    exact ⟨place, rfl, Except.ok.inj h⟩
  | error fault =>
    exfalso
    unfold FileTree.contains find? at h
    rw [hlocate] at h
    cases fault <;> cases h

theorem isSome_file?_of_not_isDirectoryAt {l : Location} (h : (t.lookup? l).isSome)
    (hnot : ¬ t.isDirectoryAt l = true)
    : (t.file? l).isSome := by
  obtain ⟨e, he⟩ := Option.isSome_iff_exists.1 h
  cases e with
  | directory modified => exact absurd (isDirectoryAt_iff.2 ⟨modified, he⟩) hnot
  | file content modified =>
    rw [file?_eq_some_iff.2 ⟨he, rfl⟩]
    rfl

theorem file?_eq_none_of_missing (h : Changes P t t') {directory : Path} {name : String}
    {place : Location} (hdirectory : t.contains directory = .ok true)
    (hmissing : t.contains (directory.descend [name]) = .ok false)
    (hlocate : t'.locate (directory.descend [name]) = .ok place)
    : t.file? place = none := by
  obtain ⟨top, htop, hthere⟩ := exists_of_contains hdirectory
  have hfits := fits_of_locate hlocate
  rw [locate_of_fits hfits, h.working] at hlocate
  obtain ⟨top', htop', hdirectory', hname, hplace⟩ := walk_concat_eq_ok_iff.1 hlocate
  have hsame : top' = top := by
    rw [eq_follow_of_locate htop]
    exact eq_follow_of_walk htop'
  subst hsame
  by_cases hkind : t.isDirectoryAt top' = true
  · have hlocate₀ : t.locate (directory.descend [name]) = .ok place := by
      rw [locate_of_fits (fits_of_locate htop)] at htop
      rw [locate_of_fits hfits]
      exact walk_concat_eq_ok_iff.2 ⟨top', htop, hkind, hname, hplace⟩
    rw [contains_of_locate hlocate₀] at hmissing
    apply file?_eq_none_of_lookup?
    simpa using Except.ok.inj hmissing
  · -- A file on the way would still be there.
    have hfile := h.kept top' (isSome_file?_of_not_isDirectoryAt hthere hkind)
    rw [file?_eq_none_of_isDirectoryAt hdirectory'] at hfile
    cases hfile

end LuaTypes.FileTree
