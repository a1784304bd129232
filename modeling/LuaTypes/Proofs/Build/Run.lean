import LuaTypes.Proofs.Build.Artifact
import LuaTypes.Proofs.Build.Place
import LuaTypes.Proofs.FileTree.Directory

/-!
Runs over a library: its sources are written and deleted, time passes, and now and then the library is
compiled.
-/

namespace LuaTypes

namespace FileTree

def above (place : Location) : List Location :=
  (List.range place.length).map place.take

def fill (t : FileTree) (now : Int) (places : List Location) : FileTree :=
  places.foldl (fun t l => if (t.lookup? l).isSome then t else t.insert l (.directory now)) t

/--
May a file be put at a place? Nothing but directories may be on the way, and none at the place.
-/
def isFree (t : FileTree) (place : Location) : Bool :=
  (above place).all (fun l => (t.lookup? l).all (·.isDirectory)) && ! t.isDirectoryAt place

def put (now : Int) (place : Location) (content : List UInt8) (t : FileTree) : FileTree :=
  if t.isFree place then (t.fill now (above place)).insert place (.file content now) else t

def unlink (place : Location) (t : FileTree) : FileTree :=
  if (t.lookup? place).any (·.isFile) then
    { t with entries := t.entries.filter fun e => e.1 ≠ place }
  else t

variable {t : FileTree} {now : Int}

theorem mem_above_iff {place l : Location} : l ∈ above place ↔ l <+: place ∧ l ≠ place := by
  unfold above
  rw [List.mem_map]
  constructor
  · rintro ⟨n, hn, rfl⟩
    refine ⟨List.take_prefix _ _, ?_⟩
    intro heq
    have := congrArg List.length heq
    rw [List.length_take] at this
    rw [List.mem_range] at hn
    omega
  · rintro ⟨hl, hne⟩
    refine ⟨l.length, ?_, (List.prefix_iff_eq_take.1 hl).symm⟩
    rw [List.mem_range]
    apply Nat.lt_of_le_of_ne hl.length_le
    intro hlength
    exact hne (hl.eq_of_length hlength)

theorem isFree_iff {place : Location}
    : t.isFree place = true ↔
        (∀ l, l <+: place → l ≠ place → ∀ e, t.lookup? l = some e → e.isDirectory = true) ∧
          t.isDirectoryAt place = false := by
  unfold isFree
  rw [Bool.and_eq_true, List.all_eq_true, Bool.not_eq_true']
  simp only [mem_above_iff, Option.all_eq_true, and_imp]

theorem grows_fill {P : Location → Prop} {places : List Location} (h : ∀ l ∈ places, P l) (t : FileTree)
    : Grows now P t (t.fill now places) := by
  induction places generalizing t with
  | nil => exact .refl
  | cons l places ih =>
    have hplaces := ih fun m hm => h m (by simp [hm])
    unfold fill at hplaces ⊢
    rw [List.foldl_cons]
    split
    next => exact hplaces t
    next hl =>
      have hstep : Grows now P t (t.insert l (.directory now)) := by
        apply Grows.directory .refl (h l (by simp))
        simpa using hl
      exact hstep.trans (hplaces _)

theorem isDirectoryAt_fill {places : List Location}
    (h : ∀ l ∈ places, ∀ e, t.lookup? l = some e → e.isDirectory = true)
    : ∀ l ∈ places, (t.fill now places).isDirectoryAt l = true := by
  induction places generalizing t with
  | nil => simp
  | cons m places ih =>
    have hstep : Grows now (· = m) t (t.fill now [m]) := grows_fill (by simp) t
    have hm : (t.fill now [m]).isDirectoryAt m = true := by
      cases he : t.lookup? m with
      | none =>
        simp only [fill, List.foldl_cons, List.foldl_nil, he, Option.isSome_none]
        exact isDirectoryAt_insert he
      | some e => exact hstep.isDirectoryAt (isDirectoryAt_of_lookup? he (h m (by simp) e he))
    have hrest : ∀ l ∈ places, ∀ e, (t.fill now [m]).lookup? l = some e → e.isDirectory = true := by
      intro l hl e he
      cases hstep.lookup? l with
      | inl hsame =>
        rw [hsame] at he
        exact h l (by simp [hl]) e he
      | inr hnew =>
        rw [hnew.2.2] at he
        cases he
        rfl
    intro l hl
    change ((t.fill now [m]).fill now places).isDirectoryAt l = true
    cases hl with
    | head => exact (grows_fill (fun _ h => h) _).isDirectoryAt hm
    | tail _ hl => exact ih hrest l hl

theorem put_spec (now : Int) (content : List UInt8) {place : Location} (h : t.isFree place = true)
    : ∃ t', Grows now (fun l => l <+: place ∧ l ≠ place) t t' ∧
        (∀ l, l <+: place → l ≠ place → t'.isDirectoryAt l = true) ∧
        t.put now place content = t'.insert place (.file content now) := by
  have hway := (isFree_iff.1 h).1
  refine ⟨t.fill now (above place), grows_fill (fun l hl => mem_above_iff.1 hl) t, ?_, if_pos h⟩
  intro l hl hne
  apply isDirectoryAt_fill _ l (mem_above_iff.2 ⟨hl, hne⟩)
  intro m hm
  exact hway m (mem_above_iff.1 hm).1 (mem_above_iff.1 hm).2

theorem lookup?_put (now : Int) (place : Location) (content : List UInt8) (t : FileTree) (l : Location)
    : (t.put now place content).lookup? l = t.lookup? l ∨
        (l = place ∧ (t.put now place content).lookup? l = some (.file content now)) ∨
          l <+: place ∧ l ≠ place ∧ t.lookup? l = none ∧
            (t.put now place content).lookup? l = some (.directory now) := by
  by_cases hfree : t.isFree place = true
  case neg =>
    left
    rw [put, if_neg hfree]
  case pos =>
    obtain ⟨t', hgrows, -, hput⟩ := put_spec now content hfree
    rw [hput, lookup?_insert]
    split
    next hl => exact .inr (.inl ⟨hl.1, rfl⟩)
    next =>
      cases hgrows.lookup? l with
      | inl hsame => exact .inl hsame
      | inr hnew => exact .inr (.inr ⟨hnew.1.1, hnew.1.2, hnew.2⟩)

theorem lookup?_put_beside {place l : Location} (h : ¬ l <+: place) (content : List UInt8)
    : (t.put now place content).lookup? l = t.lookup? l := by
  apply (lookup?_put now place content t l).resolve_right
  rintro (⟨rfl, -⟩ | ⟨hl, -⟩)
  · exact h (List.prefix_refl _)
  · exact h hl

theorem isDirectoryAt_insert_of_ne {place l : Location} {e : Entry}
    (hplace : t.isDirectoryAt place = false) (hl : t.isDirectoryAt l = true)
    : (t.insert place e).isDirectoryAt l = true := by
  have hne : l ≠ place := by
    rintro rfl
    rw [hplace] at hl
    cases hl
  unfold FileTree.isDirectoryAt
  rw [lookup?_insert, if_neg (by simp [hne])]
  exact hl

theorem put_of_isFree {place : Location} (h : t.isFree place = true) (content : List UInt8)
    : (t.put now place content).lookup? place = some (.file content now) ∧
        ∀ l, l <+: place → l ≠ place → (t.put now place content).isDirectoryAt l = true := by
  obtain ⟨t', hgrows, hway, hput⟩ := put_spec now content h
  have hplace : t'.isDirectoryAt place = false := by
    have := (isFree_iff.1 h).2
    unfold FileTree.isDirectoryAt at this ⊢
    rw [(hgrows.lookup? place).resolve_right (by simp)]
    exact this
  have hne : place ≠ [] := by
    rintro rfl
    cases (isFree_iff.1 h).2
  rw [hput]
  constructor
  · rw [lookup?_insert, if_pos ⟨rfl, hne⟩]
  · exact fun l hl hl' => isDirectoryAt_insert_of_ne hplace (hway l hl hl')

theorem isDirectoryAt_put {place l : Location} {content : List UInt8} (hl : t.isDirectoryAt l = true)
    : (t.put now place content).isDirectoryAt l = true := by
  by_cases hfree : t.isFree place = true
  case neg =>
    rw [put, if_neg hfree]
    exact hl
  case pos =>
    obtain ⟨modified, he⟩ := isDirectoryAt_iff.1 hl
    cases lookup?_put now place content t l with
    | inl hsame => exact isDirectoryAt_iff.2 ⟨modified, hsame.trans he⟩
    | inr hnew =>
      cases hnew with
      | inl hnew =>
        have hplace := (isFree_iff.1 hfree).2
        rw [← hnew.1, hl] at hplace
        cases hplace
      | inr hnew => exact isDirectoryAt_iff.2 ⟨now, hnew.2.2.2⟩

theorem working_put (now : Int) (place : Location) (content : List UInt8) (t : FileTree)
    : (t.put now place content).working = t.working := by
  by_cases hfree : t.isFree place = true
  case neg => rw [put, if_neg hfree]
  case pos =>
    obtain ⟨t', hgrows, -, hput⟩ := put_spec now content hfree
    rw [hput]
    exact hgrows.working

theorem WellFormed.put (h : t.WellFormed) (now : Int) (place : Location) (content : List UInt8)
    : (t.put now place content).WellFormed := by
  by_cases hfree : t.isFree place = true
  case neg =>
    rw [FileTree.put, if_neg hfree]
    exact h
  case pos =>
    obtain ⟨t', hgrows, -, hput⟩ := put_spec now content hfree
    rw [hput]
    exact (hgrows.wellFormed h).insert _ _

theorem lookup_filter_ne (place l : Location) (entries : List (Location × Entry))
    : (entries.filter fun e => e.1 ≠ place).lookup l = if l = place then none else entries.lookup l := by
  induction entries with
  | nil => simp
  | cons head rest ih =>
    obtain ⟨k, e⟩ := head
    rw [List.filter_cons]
    by_cases hk : k = place
    · subst hk
      rw [if_neg (by simp), ih]
      by_cases hl : l = k
      · rw [if_pos hl, if_pos hl]
      · rw [if_neg hl, if_neg hl, List.lookup_cons, beq_false_of_ne hl]
    · rw [if_pos (by simpa using hk), List.lookup_cons, List.lookup_cons, ih]
      by_cases hl : l = k
      · subst hl
        simp [hk]
      · rw [beq_false_of_ne hl]

theorem unlink_spec (place : Location) (t : FileTree)
    : t.unlink place = t ∨
        (∃ content modified, t.lookup? place = some (.file content modified)) ∧
          ∀ l, (t.unlink place).lookup? l = if l = place then none else t.lookup? l := by
  unfold unlink
  split
  next hfile =>
    right
    cases hplace : t.lookup? place with
    | none =>
      rw [hplace] at hfile
      cases hfile
    | some e =>
      rw [hplace] at hfile
      cases e with
      | directory => cases hfile
      | file content modified =>
        refine ⟨⟨content, modified, rfl⟩, ?_⟩
        intro l
        cases l with
        | nil =>
          have : place ≠ [] := by
            rintro rfl
            rw [lookup?_nil] at hplace
            cases hplace
          rw [if_neg (Ne.symm this), lookup?_nil, lookup?_nil]
        | cons name names => exact lookup_filter_ne place _ t.entries
  next => exact .inl rfl

theorem WellFormed.unlink (h : t.WellFormed) (place : Location) : (t.unlink place).WellFormed := by
  unfold FileTree.unlink
  split
  · exact h.sublist (List.filter_sublist.map _)
  · exact h

theorem working_unlink (place : Location) (t : FileTree) : (t.unlink place).working = t.working := by
  unfold unlink
  split <;> rfl

end FileTree

namespace Build

open FileTree

/--
What can happen in a run. A source is given by the names on the way to it from the library.
-/
inductive Step where
  | write (names : List String) (content : List UInt8)
  | delete (names : List String)
  | advance (time : Nat)
  | compile

def Step.Uses (used : List String → Prop) : Step → Prop
  | .write names _ => used names
  | _ => True

structure Scene where
  tree : FileTree
  now : Int

def outcome {ε σ α : Type} : EStateM.Result ε σ α → Except ε α
  | .ok x _ => .ok x
  | .error e _ => .error e

def remains {ε σ α : Type} : EStateM.Result ε σ α → σ
  | .ok _ s => s
  | .error _ s => s

def leaving {ε σ α : Type} (s : σ) : Except ε α → EStateM.Result ε σ α
  | .ok x => .ok x s
  | .error e => .error e s

@[simp]
theorem outcome_leaving {ε σ α : Type} (s : σ) (x : Except ε α) : outcome (leaving s x) = x := by
  cases x <;> rfl

@[simp]
theorem remains_leaving {ε σ α : Type} (s : σ) (x : Except ε α) : remains (leaving s x) = s := by
  cases x <;> rfl

structure Project where
  working : Location
  library : Path
  build : Path

namespace Project

variable [Artifact.Codec] (p : Project)

def root : Location :=
  follow (origin p.working p.library) p.library.parts

def top : Location :=
  follow (origin p.working p.build) p.build.parts

def compile (s : Scene) : EStateM.Result Error FileTree Declaration.Corpus :=
  compileLibrary s.now p.library p.build s.tree

def compiled (s : Scene) : Except Error Declaration.Corpus :=
  outcome (p.compile s)

def loaded (s : Scene) : Except Error Declaration.Corpus :=
  loadLibrary s.tree p.library

def perform (s : Scene) : Step → Scene
  | .write names content => { s with tree := s.tree.put s.now (p.root ++ names) content }
  | .delete names => { s with tree := s.tree.unlink (p.root ++ names) }
  | .advance time => { s with now := s.now + time }
  | .compile => { s with tree := remains (p.compile s) }

def run (s : Scene) (steps : List Step) : Scene :=
  steps.foldl p.perform s

end Project

end Build

end LuaTypes
