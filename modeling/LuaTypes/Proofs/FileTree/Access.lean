import LuaTypes.FileTree.Access

/-!
Paths through a tree. A path leads where its names say as long as directories are on the way, and making
directories adds nothing but the missing ones.
-/

namespace LuaTypes.FileTree

def follow (place : Location) (way : List String) : Location :=
  way.foldl (fun place name => if name = Path.up then place.dropLast else place ++ [name]) place

theorem follow_cons (place : Location) (name : String) (way : List String)
    : follow place (name :: way)
        = follow (if name = Path.up then place.dropLast else place ++ [name]) way := by
  rfl

theorem follow_of_ne_up {way : List String} (h : ∀ name ∈ way, name ≠ Path.up) (place : Location)
    : follow place way = place ++ way := by
  induction way generalizing place with
  | nil => simp [follow]
  | cons name way ih =>
    rw [follow_cons, if_neg (h name (by simp)), ih fun n hn => h n (by simp [hn])]
    simp

/-! ### Walks -/

variable {t t' : FileTree}

theorem walk_append (t : FileTree) (place : Location) (way way' : List String)
    : t.walk place (way ++ way') =
        match t.walk place way with
        | .ok place => t.walk place way'
        | .error fault => .error fault := by
  induction way generalizing place with
  | nil => rfl
  | cons name way ih =>
    rw [List.cons_append, walk, walk]
    split
    · rfl
    · rfl
    · split
      · rfl
      · exact ih _

theorem isDirectoryAt_iff {place : Location}
    : t.isDirectoryAt place = true ↔ ∃ modified, t.lookup? place = some (.directory modified) := by
  unfold isDirectoryAt
  cases h : t.lookup? place with
  | none => simp
  | some e => cases e <;> simp [Entry.isDirectory]

theorem walk_eq_follow {place : Location} {way : List String}
    (hdirectory : ∀ w, w <+: way → w ≠ way → t.isDirectoryAt (follow place w) = true)
    (hshort : ∀ name ∈ way, name.utf8ByteSize ≤ nameLimit)
    : t.walk place way = .ok (follow place way) := by
  induction way generalizing place with
  | nil => rfl
  | cons name way ih =>
    obtain ⟨modified, hplace⟩ := isDirectoryAt_iff.1 (hdirectory [] (by simp) (by simp))
    have hname := hshort name (by simp)
    have hnext := @ih (if name = Path.up then place.dropLast else place ++ [name])
      (by
        intro w hw hne
        rw [← follow_cons]
        exact hdirectory (name :: w) (by simpa using hw) (by simpa using hne))
      fun n hn => hshort n (by simp [hn])
    change t.lookup? place = _ at hplace
    rw [walk, hplace]
    dsimp only
    rw [if_neg (Nat.not_lt.2 hname), hnext, follow_cons]

theorem eq_follow_of_walk {place place' : Location} {way : List String} (h : t.walk place way = .ok place')
    : place' = follow place way := by
  induction way generalizing place with
  | nil =>
    cases h
    rfl
  | cons name way ih =>
    rw [walk] at h
    split at h
    · cases h
    · cases h
    · split at h
      · cases h
      · exact ih h

theorem short_of_walk {place place' : Location} {way : List String} (h : t.walk place way = .ok place')
    : ∀ name ∈ way, name.utf8ByteSize ≤ nameLimit := by
  induction way generalizing place with
  | nil => simp
  | cons name way ih =>
    rw [walk] at h
    split at h
    · cases h
    · cases h
    · split at h
      · cases h
      next hname =>
        intro n hn
        rw [List.mem_cons] at hn
        cases hn with
        | inl hn => exact hn ▸ Nat.not_lt.1 hname
        | inr hn => exact ih h n hn

theorem walk_ne_tooLong {place : Location} {way : List String}
    (hshort : ∀ name ∈ way, name.utf8ByteSize ≤ nameLimit)
    : t.walk place way ≠ .error .tooLong := by
  induction way generalizing place with
  | nil => simp [walk]
  | cons name way ih =>
    rw [walk, if_neg (Nat.not_lt.2 (hshort name (by simp)))]
    split
    · simp
    · simp
    · exact ih fun n hn => hshort n (by simp [hn])

theorem walk_ne_nullCharacter (place : Location) (way : List String)
    : t.walk place way ≠ .error .nullCharacter := by
  induction way generalizing place with
  | nil => simp [walk]
  | cons name way ih =>
    rw [walk]
    split
    · simp
    · simp
    · split
      · simp
      · exact ih _

theorem readText_ne_nullCharacter {path p : Path} (hpath : path.hasNull = false)
    : t.readText path ≠ .error (.access ⟨.nullCharacter, p⟩) := by
  have hlocate : t.locate path ≠ .error .nullCharacter := by
    unfold locate
    rw [hpath, if_neg Bool.false_ne_true]
    split
    · simp
    · exact walk_ne_nullCharacter _ _
  intro h
  unfold readText readBytes at h
  split at h
  next hread =>
    cases h
    split at hread
    next hfault =>
      cases hread
      exact hlocate hfault
    next => split at hread <;> cases hread
  next => split at h <;> cases h

theorem walk_eq_notFound {place : Location} {way : List String}
    (hfile : ∀ w, w <+: way → w ≠ way → ∀ e, t.lookup? (follow place w) = some e → e.isDirectory = true)
    (hshort : ∀ name ∈ way, name.utf8ByteSize ≤ nameLimit)
    (hmissing : ∃ w, w <+: way ∧ w ≠ way ∧ t.lookup? (follow place w) = none)
    : t.walk place way = .error .notFound := by
  induction way generalizing place with
  | nil =>
    obtain ⟨w, hw, hne, -⟩ := hmissing
    exact absurd (List.prefix_nil.1 hw) hne
  | cons name way ih =>
    rw [walk]
    split
    next => rfl
    next h =>
      have := hfile [] (by simp) (by simp) _ h
      cases this
    next h =>
      rw [if_neg (Nat.not_lt.2 (hshort name (by simp)))]
      apply ih
      · intro w hw hne
        rw [← follow_cons]
        exact hfile (name :: w) (by simpa using hw) (by simpa using hne)
      · exact fun n hn => hshort n (by simp [hn])
      · obtain ⟨w, hw, hne, hnone⟩ := hmissing
        cases w with
        | nil =>
          rw [show follow place [] = place from rfl, h] at hnone
          cases hnone
        | cons n w =>
          obtain ⟨rfl, htail⟩ := List.cons_prefix_cons.1 hw
          exact ⟨w, htail, by simpa using hne, hnone⟩

theorem walk_mono (h : ∀ l, t.isDirectoryAt l = true → t'.isDirectoryAt l = true) {place place' : Location}
    {way : List String} (hwalk : t.walk place way = .ok place')
    : t'.walk place way = .ok place' := by
  induction way generalizing place with
  | nil => exact hwalk
  | cons name way ih =>
    rw [walk] at hwalk ⊢
    split at hwalk
    · cases hwalk
    · cases hwalk
    next hplace =>
      obtain ⟨_, hplace⟩ := isDirectoryAt_iff.1 (h place (isDirectoryAt_iff.2 ⟨_, hplace⟩))
      rw [hplace]
      dsimp only
      split at hwalk
      · cases hwalk
      next hname =>
        rw [if_neg hname]
        exact ih hwalk

theorem walk_congr {top place : Location} {way : List String}
    (h : ∀ l, top <+: l → t.lookup? l = t'.lookup? l) (hplace : top <+: place)
    (hway : ∀ name ∈ way, name ≠ Path.up)
    : t.walk place way = t'.walk place way := by
  induction way generalizing place with
  | nil => rfl
  | cons name way ih =>
    rw [walk, walk, h place hplace, if_neg (hway name (by simp)),
      ih (hplace.trans (List.prefix_append _ _)) fun n hn => hway n (by simp [hn])]

theorem walk_eq_walk {place : Location} {way : List String}
    (h : ∀ w, w <+: way → w ≠ way → t.isDirectoryAt (follow place w) = true)
    (h' : ∀ w, w <+: way → w ≠ way → t'.isDirectoryAt (follow place w) = true)
    : t.walk place way = t'.walk place way := by
  induction way generalizing place with
  | nil => rfl
  | cons name way ih =>
    obtain ⟨_, hplace⟩ := isDirectoryAt_iff.1 (h [] (by simp) (by simp))
    obtain ⟨_, hplace'⟩ := isDirectoryAt_iff.1 (h' [] (by simp) (by simp))
    change t.lookup? place = _ at hplace
    change t'.lookup? place = _ at hplace'
    rw [walk, walk, hplace, hplace']
    dsimp only
    rw [ih]
    · intro w hw hne
      rw [← follow_cons]
      exact h (name :: w) (by simpa using hw) (by simpa using hne)
    · intro w hw hne
      rw [← follow_cons]
      exact h' (name :: w) (by simpa using hw) (by simpa using hne)

/-! ### Paths -/

structure Fits (p : Path) : Prop where
  no_null : p.hasNull = false
  short : p.toString.utf8ByteSize ≤ pathLimit

def origin (working : Location) (p : Path) : Location :=
  if p.isAbsolute then [] else working

theorem locate_of_fits {p : Path} (h : Fits p) : t.locate p = t.walk (origin t.working p) p.parts := by
  rw [locate, h.no_null, if_neg (by simp), if_neg (Nat.not_lt.2 h.short), origin]

theorem fits_of_locate {p : Path} {place : Location} (h : t.locate p = .ok place) : Fits p := by
  unfold locate at h
  split at h
  · cases h
  next hnull =>
    split at h
    · cases h
    next hshort => exact ⟨by simpa using hnull, Nat.not_lt.1 hshort⟩

theorem locate_descend {p : Path} {place : Location} {way : List String} (h : t.locate p = .ok place)
    (hfits : Fits (p.descend way))
    : t.locate (p.descend way) = t.walk place way := by
  rw [locate_of_fits hfits]
  rw [locate_of_fits (fits_of_locate h)] at h
  show t.walk (origin t.working p) (p.parts ++ way) = _
  rw [walk_append, h]

theorem find?_of_locate {p : Path} {place : Location} (h : t.locate p = .ok place)
    : t.find? p = .ok (t.lookup? place) := by
  unfold find?
  rw [h]

theorem find?_of_error {p : Path} {fault : Fault} (h : t.locate p = .error fault) (hfault : fault ≠ .tooLong)
    : t.find? p = .ok none := by
  unfold find?
  rw [h]
  cases fault <;> first | rfl | exact absurd rfl hfault

theorem readText_congr {p : Path} (hlocate : t.locate p = t'.locate p)
    (hplace : ∀ l, t'.locate p = .ok l → t.lookup? l = t'.lookup? l)
    : t.readText p = t'.readText p := by
  have hbytes : t.readBytes p = t'.readBytes p := by
    unfold readBytes
    rw [hlocate]
    cases h : t'.locate p with
    | error => rfl
    | ok l =>
      dsimp only
      rw [hplace l h]
  unfold readText
  rw [hbytes]

theorem locate_of_not_fits {p : Path} (h : ¬ Fits p) (t t' : FileTree) : t.locate p = t'.locate p := by
  unfold locate
  split
  · rfl
  next hnull =>
    split
    · rfl
    next hshort => exact absurd ⟨by simpa using hnull, Nat.not_lt.1 hshort⟩ h

theorem locate_mono (h : ∀ l, t.isDirectoryAt l = true → t'.isDirectoryAt l = true)
    (hworking : t'.working = t.working) {p : Path} {place : Location} (hp : t.locate p = .ok place)
    : t'.locate p = .ok place := by
  have hfits := fits_of_locate hp
  rw [locate_of_fits hfits] at hp ⊢
  rw [hworking]
  exact walk_mono h hp

theorem eq_follow_of_locate {p : Path} {place : Location} (h : t.locate p = .ok place)
    : place = follow (origin t.working p) p.parts := by
  rw [locate_of_fits (fits_of_locate h)] at h
  exact eq_follow_of_walk h

end LuaTypes.FileTree
