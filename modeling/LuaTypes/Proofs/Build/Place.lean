import LuaTypes.Build
import LuaTypes.Proofs.FileTree.Access
import LuaTypes.Proofs.Text.Phrase

/-!
Where the artifacts of a library stand. Each key leads from the build directory over the directories
that it names to a file.
-/

namespace LuaTypes

theorem Path.ofString_ofList {part : List Char} (h : '/' ∉ part)
    : Path.ofString (String.ofList part)
        = { start := .working, parts := if part ≠ [] ∧ part ≠ ['.'] then [String.ofList part] else [] } := by
  have hstart : part.takeWhile (· = '/') = [] := by
    cases part with
    | nil => rfl
    | cons c cs =>
      rw [List.mem_cons, not_or] at h
      simp [Ne.symm h.1]
  have hsplit : Text.splitAtEach '/' part = [part] := by
    rw [Text.splitAtEach_eq_splitOn, List.splitOn_eq_splitOnP]
    apply List.splitOnP_eq_singleton
    intro c hc
    rw [beq_eq_false_iff_ne]
    rintro rfl
    exact h hc
  unfold Path.ofString
  rw [String.toList_ofList, hsplit, Path.Start.ofText, hstart]
  by_cases hpart : part ≠ [] ∧ part ≠ ['.']
  · simp [hpart]
  · rw [if_neg hpart]
    simp [hpart]

theorem Path.descend_descend (p : Path) (way way' : List String)
    : (p.descend way).descend way' = p.descend (way ++ way') := by
  simp [Path.descend]

theorem Path.child_ofList (p : Path) {part : List Char} (h : '/' ∉ part)
    : p.child (String.ofList part)
        = p.descend (if part ≠ [] ∧ part ≠ ['.'] then [String.ofList part] else []) := by
  unfold Path.child
  rw [Path.ofString_ofList h]
  rfl

namespace Build

open FileTree

def trail (key : String) : List String :=
  let parts := Text.splitAtEach '/' key.toList
  (parts.dropLast.filter fun p => p ≠ [] ∧ p ≠ ['.']).map String.ofList ++
    [String.ofList (parts.getLastD []) ++ artifactSuffix]

theorem foldl_child (p : Path) {parts : List (List Char)} (h : ∀ part ∈ parts, '/' ∉ part)
    : (parts.map String.ofList).foldl Path.child p
        = p.descend ((parts.filter fun p => p ≠ [] ∧ p ≠ ['.']).map String.ofList) := by
  induction parts generalizing p with
  | nil => simp [Path.descend]
  | cons part parts ih =>
    rw [List.map_cons, List.foldl_cons, Path.child_ofList p (h part (by simp)),
      ih _ fun q hq => h q (by simp [hq]), Path.descend_descend, List.filter_cons]
    split
    next hpart => rw [if_pos (by simpa using hpart), List.map_cons, List.singleton_append]
    next hpart => rw [if_neg (by simpa using hpart), List.nil_append]

theorem artifactPath_eq (build : Path) (key : String)
    : artifactPath build key = build.descend (trail key) := by
  have hparts := fun p hp => (@Text.forall_mem_splitAtEach '/' key.toList p hp).2
  have hne : Text.splitAtEach '/' key.toList ≠ [] := by
    rw [Text.splitAtEach_eq_splitOn]
    exact List.splitOn_ne_nil _ _
  unfold artifactPath trail
  generalize Text.splitAtEach '/' key.toList = parts at hparts hne
  obtain ⟨init, last, rfl⟩ := (List.eq_nil_or_concat parts).resolve_left hne
  have hlast : '/' ∉ last ++ artifactSuffix.toList := by
    rw [List.mem_append, not_or]
    exact ⟨hparts last (by simp), by decide⟩
  have hfile : String.ofList last ++ artifactSuffix = String.ofList (last ++ artifactSuffix.toList) := by
    simp
  have hkept : last ++ artifactSuffix.toList ≠ [] ∧ last ++ artifactSuffix.toList ≠ ['.'] := by
    constructor
    · simp [artifactSuffix]
    · intro h
      have := congrArg List.length h
      simp [artifactSuffix] at this
  simp only [List.concat_eq_append, List.map_append, List.map_cons, List.map_nil, List.dropLast_concat]
  rw [foldl_child build fun p hp => hparts p (by simp [hp])]
  simp only [List.getLastD_concat]
  rw [hfile, Path.child_ofList _ hlast, if_pos hkept, Path.descend_descend]

theorem trail_ne_nil (key : String) : trail key ≠ [] := by
  simp [trail]

theorem append_artifactSuffix_ne_up (name : String) : name ++ artifactSuffix ≠ Path.up := by
  intro h
  have hlength := congrArg String.length h
  rw [String.length_append] at hlength
  have : artifactSuffix.length = 10 := by decide
  have : Path.up.length = 2 := by decide
  omega

def artifactPlace (top : Location) (names : List String) : Location :=
  follow top (trail (key names))

/--
Is there room in the build directory for the artifacts of the sources in use? All ways to them stay inside
and are not too long, and none stands where another one needs a directory.
-/
structure Spacious (build : Path) (top : Location) (used : List String → Prop) : Prop where
  inside : ∀ names, used names → ∀ w, w <+: trail (key names) → top <+: follow top w
  clear : ∀ names names', used names → used names' → ∀ w, w <+: (trail (key names')).dropLast →
    follow top w ≠ artifactPlace top names
  fits : ∀ names, used names → Fits (build.descend (trail (key names)))
  short : ∀ names, used names → ∀ name ∈ trail (key names), name.utf8ByteSize ≤ nameLimit

def Apart (top : Location) (used : List String → Prop) : Prop :=
  ∀ names names', used names → used names' → artifactPlace top names = artifactPlace top names' →
    names = names'

end Build

/-! ### Lengths -/

theorem Text.utf8ByteSize_join_le_append (separator : String) (xs ys : List String)
    : (join separator xs).utf8ByteSize ≤ (join separator (xs ++ ys)).utf8ByteSize := by
  unfold join
  by_cases hxs : xs = []
  · simp [hxs]
  · by_cases hys : ys = []
    · simp [hys]
    · rw [String.intercalate_append_of_ne_nil hxs hys, String.utf8ByteSize_append,
        String.utf8ByteSize_append]
      omega

theorem FileTree.Fits.of_isPrefix {p : Path} {way w : List String} (h : Fits (p.descend way))
    (hw : w <+: way)
    : Fits (p.descend w) := by
  obtain ⟨rest, rfl⟩ := hw
  constructor
  · have hnull := h.no_null
    simp only [Path.hasNull, Path.descend, List.any_append, Bool.or_eq_false_iff] at hnull ⊢
    exact ⟨hnull.1, hnull.2.1⟩
  · have hshort := h.short
    unfold Path.toString at hshort ⊢
    split
    next => decide
    next hstart =>
      split at hshort
      next hend =>
        exfalso
        apply hstart
        rw [Bool.and_eq_true, List.isEmpty_iff] at hend ⊢
        have hparts := hend.2
        simp only [Path.descend, List.append_eq_nil_iff] at hparts
        exact ⟨hend.1, by simp [Path.descend, hparts]⟩
      next =>
        rw [String.utf8ByteSize_append] at hshort ⊢
        have := Text.utf8ByteSize_join_le_append "/" (p.descend w).parts rest
        have hparts : (p.descend w).parts ++ rest = (p.descend (w ++ rest)).parts := by
          simp [Path.descend]
        rw [hparts] at this
        exact Nat.le_trans (Nat.add_le_add_left this _) hshort

end LuaTypes
