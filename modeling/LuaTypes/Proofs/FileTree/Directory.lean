import Mathlib.Data.List.Induction
import LuaTypes.Proofs.FileTree.Access

/-!
Making a directory with those on the way to it: it succeeds unless a file is in the way, and the tree
gets the missing directories and nothing else.
-/

namespace LuaTypes.FileTree

variable {t t' : FileTree} {now : Int}

def WellFormed (t : FileTree) : Prop :=
  (t.entries.map (·.1)).Nodup

theorem map_fst_insertEntry (place : Location) (e : Entry) (entries : List (Location × Entry))
    : (insertEntry place e entries).map (·.1)
        =
      if place ∈ entries.map (·.1) then entries.map (·.1) else entries.map (·.1) ++ [place] := by
  induction entries with
  | nil => simp [insertEntry]
  | cons head rest ih =>
    obtain ⟨l, f⟩ := head
    rw [insertEntry]
    by_cases hl : l = place
    · simp [hl]
    · rw [if_neg hl, List.map_cons, ih]
      by_cases hmem : place ∈ rest.map (·.1)
      · rw [if_pos hmem, if_pos (by simp only [List.map_cons, List.mem_cons, hmem, or_true])]
        rfl
      · rw [if_neg hmem, if_neg]
        · rfl
        · simp only [List.map_cons, List.mem_cons, hmem, or_false]
          exact Ne.symm hl

theorem WellFormed.insert (h : t.WellFormed) (place : Location) (e : Entry)
    : (t.insert place e).WellFormed := by
  unfold WellFormed FileTree.insert
  rw [map_fst_insertEntry]
  split
  · exact h
  next hmem =>
    rw [List.nodup_append]
    refine ⟨h, by simp, ?_⟩
    rintro a ha b hb rfl
    rw [List.mem_singleton] at hb
    exact hmem (hb ▸ ha)

theorem WellFormed.lookup?_eq_some (h : t.WellFormed) {l : Location} {e : Entry} (hl : l ≠ [])
    (he : (l, e) ∈ t.entries)
    : t.lookup? l = some e := by
  unfold WellFormed at h
  unfold lookup?
  rw [if_neg (by simpa [List.isEmpty_iff] using hl)]
  generalize t.entries = entries at h he
  induction entries with
  | nil => cases he
  | cons head rest ih =>
    obtain ⟨k, f⟩ := head
    rw [List.map_cons, List.nodup_cons] at h
    cases he with
    | head => rw [List.lookup_cons_self]
    | tail _ he =>
      have hne : l ≠ k := by
        rintro rfl
        exact h.1 (List.mem_map.2 ⟨_, he, rfl⟩)
      rw [List.lookup_cons, beq_false_of_ne hne]
      exact ih h.2 he

theorem mem_entries_of_lookup? {l : Location} {e : Entry} (h : t.lookup? l = some e) (hl : l ≠ [])
    : (l, e) ∈ t.entries := by
  unfold lookup? at h
  rw [if_neg (by simpa [List.isEmpty_iff] using hl)] at h
  obtain ⟨before, after, hentries, -⟩ := List.lookup_eq_some_iff.1 h
  simp [hentries]

/--
Entries are added at places `P` where nothing has been before.
-/
inductive Grows (now : Int) (P : Location → Prop) (t : FileTree) : FileTree → Prop where
  | refl : Grows now P t t
  | directory {t' l} : Grows now P t t' → P l → t'.lookup? l = none →
      Grows now P t (t'.insert l (.directory now))

namespace Grows

variable {P Q : Location → Prop}

theorem working (h : Grows now P t t') : t'.working = t.working := by
  induction h with
  | refl => rfl
  | directory _ _ _ ih => exact ih

theorem wellFormed (h : Grows now P t t') (ht : t.WellFormed) : t'.WellFormed := by
  induction h with
  | refl => exact ht
  | directory _ _ _ ih => exact ih.insert _ _

theorem lookup? (h : Grows now P t t') (l : Location)
    : t'.lookup? l = t.lookup? l ∨
        P l ∧ t.lookup? l = none ∧ t'.lookup? l = some (.directory now) := by
  induction h with
  | refl => exact .inl rfl
  | directory _ hplace hnone ih =>
    rw [lookup?_insert]
    split
    next hl =>
      obtain ⟨rfl, -⟩ := hl
      rw [hnone] at ih
      cases ih with
      | inl ih => exact .inr ⟨hplace, ih.symm, rfl⟩
      | inr ih => exact absurd ih.2.2 (by simp)
    next => exact ih

theorem isDirectoryAt (h : Grows now P t t') {l : Location} (hl : t.isDirectoryAt l = true)
    : t'.isDirectoryAt l = true := by
  obtain ⟨modified, hl⟩ := isDirectoryAt_iff.1 hl
  cases h.lookup? l with
  | inl hsame => exact isDirectoryAt_iff.2 ⟨modified, by rw [hsame, hl]⟩
  | inr hnew => exact isDirectoryAt_iff.2 ⟨now, hnew.2.2⟩

theorem trans {t'' : FileTree} (h : Grows now P t t') (h' : Grows now P t' t'') : Grows now P t t'' := by
  induction h' with
  | refl => exact h
  | directory _ hplace hnone ih => exact .directory ih hplace hnone

theorem mono (h : Grows now P t t') (hPQ : ∀ l, P l → Q l) : Grows now Q t t' := by
  induction h with
  | refl => exact .refl
  | directory _ hplace hnone ih => exact .directory ih (hPQ _ hplace) hnone

end Grows

theorem lookup?_nil (t : FileTree) : t.lookup? [] = some (.directory 0) := by
  rfl

theorem ne_nil_of_lookup?_eq_none {l : Location} (h : t.lookup? l = none) : l ≠ [] := by
  rintro rfl
  rw [lookup?_nil] at h
  cases h

theorem isDirectoryAt_insert {l : Location} (h : t.lookup? l = none)
    : (t.insert l (.directory now)).isDirectoryAt l = true := by
  apply isDirectoryAt_iff.2
  exact ⟨now, by rw [lookup?_insert, if_pos ⟨rfl, ne_nil_of_lookup?_eq_none h⟩]⟩

theorem isDirectoryAt_of_lookup? {l : Location} {e : Entry} (h : t.lookup? l = some e)
    (he : e.isDirectory = true)
    : t.isDirectoryAt l = true := by
  simp [FileTree.isDirectoryAt, h, he]

/-! ### Actions -/

theorem makeDirectory_eq (now : Int) (p : Path) (t : FileTree)
    : makeDirectory now p t =
        match t.locate p with
        | .error fault => .error ⟨fault, p⟩ t
        | .ok place =>
          if (t.lookup? place).isSome then .error ⟨.alreadyExists, p⟩ t
          else .ok () (t.insert place (.directory now)) := by
  change (match t.locate p with
    | .error fault => throw ⟨fault, p⟩
    | .ok place =>
      if (t.lookup? place).isSome then throw ⟨.alreadyExists, p⟩
      else set (t.insert place (.directory now)) : Action AccessError Unit) t = _
  cases t.locate p with
  | error fault => rfl
  | ok place =>
    dsimp only
    cases (t.lookup? place).isSome <;> rfl

theorem keepDirectory_eq (p : Path) (e : AccessError) (t : FileTree)
    : keepDirectory p e t =
        match t.isDirectory p with
        | .ok true => .ok () t
        | _ => .error e t := by
  change (match t.isDirectory p with
    | .ok true => pure ()
    | _ => throw e : Action AccessError Unit) t = _
  cases t.isDirectory p with
  | error => rfl
  | ok b => cases b <;> rfl

theorem ensureDirectory_eq (now : Int) (p : Path) (t : FileTree)
    : ensureDirectory now p t =
        match makeDirectory now p t with
        | .ok () t => .ok () t
        | .error e t => keepDirectory p e t := by
  change EStateM.tryCatch (makeDirectory now p) (fun e => keepDirectory p e) t = _
  unfold EStateM.tryCatch
  cases makeDirectory now p t <;> rfl

theorem ensureDirectories_succ (now : Int) (levels : Nat) (p : Path) (t : FileTree)
    : ensureDirectories now (levels + 1) p t =
        match makeDirectory now p t with
        | .ok () t => .ok () t
        | .error e t =>
          if e.fault = .notFound then
            match ensureDirectories now levels p.parent t with
            | .ok () t => ensureDirectory now p t
            | .error e t => .error e t
          else keepDirectory p e t := by
  change EStateM.tryCatch (makeDirectory now p) (fun e => if e.fault = .notFound then do
        ensureDirectories now levels p.parent
        ensureDirectory now p
      else keepDirectory p e) t = _
  unfold EStateM.tryCatch
  cases makeDirectory now p t with
  | ok => rfl
  | error e t =>
    dsimp only
    split
    · change EStateM.bind (ensureDirectories now levels p.parent) (fun _ => ensureDirectory now p) t = _
      unfold EStateM.bind
      cases ensureDirectories now levels p.parent t <;> rfl
    · rfl

theorem isDirectory_of_locate {p : Path} {place : Location} (hp : t.locate p = .ok place)
    (h : t.isDirectoryAt place = true)
    : t.isDirectory p = .ok true := by
  obtain ⟨modified, h⟩ := isDirectoryAt_iff.1 h
  unfold FileTree.isDirectory find?
  rw [hp]
  dsimp only [bind, Except.bind, pure, Except.pure]
  rw [h]
  rfl

section

variable {base : Path} {place : Location} {way : List String}

/--
What a directory can be made at: names of a length that is allowed, and no file in the way.
-/
structure Passable (t : FileTree) (base : Path) (place : Location) (way : List String) : Prop where
  fits : ∀ w, w <+: way → Fits (base.descend w)
  short : ∀ name ∈ way, name.utf8ByteSize ≤ nameLimit
  no_file : ∀ w, w <+: way → ∀ e, t.lookup? (follow place w) = some e → e.isDirectory = true

theorem Passable.sub {w : List String} (h : Passable t base place way) (hw : w <+: way)
    : Passable t base place w where
  fits := fun v hv => h.fits v (hv.trans hw)
  short := fun n hn => h.short n (hw.subset hn)
  no_file := fun v hv => h.no_file v (hv.trans hw)

theorem Passable.grows {P : Location → Prop} (h : Passable t base place way) (hgrows : Grows now P t t')
    : Passable t' base place way where
  fits := h.fits
  short := h.short
  no_file := by
    intro w hw e he
    cases hgrows.lookup? (follow place w) with
    | inl hsame =>
      rw [hsame] at he
      exact h.no_file w hw e he
    | inr hnew =>
      rw [hnew.2.2] at he
      cases he
      rfl

theorem locate_passable (hbase : t.locate base = .ok place) (h : Passable t base place way)
    (hdirectory : ∀ w, w <+: way → w ≠ way → t.isDirectoryAt (follow place w) = true)
    : t.locate (base.descend way) = .ok (follow place way) := by
  rw [locate_descend hbase (h.fits way (List.prefix_refl way))]
  exact walk_eq_follow hdirectory h.short

theorem makeDirectory_spec (now : Int) (hbase : t.locate base = .ok place)
    (h : Passable t base place way)
    (hdirectory : ∀ w, w <+: way → w ≠ way → t.isDirectoryAt (follow place w) = true)
    : (∃ t', makeDirectory now (base.descend way) t = .ok () t' ∧
          Grows now (· = follow place way) t t' ∧ t'.isDirectoryAt (follow place way) = true) ∨
        ∃ e, e.fault = .alreadyExists ∧ makeDirectory now (base.descend way) t = .error e t ∧
          keepDirectory (base.descend way) e t = .ok () t ∧ t.isDirectoryAt (follow place way) = true := by
  have hlocate := locate_passable hbase h hdirectory
  rw [makeDirectory_eq, hlocate]
  dsimp only
  cases hplace : t.lookup? (follow place way) with
  | none =>
    left
    exact ⟨_, rfl, .directory .refl rfl hplace, isDirectoryAt_insert hplace⟩
  | some e =>
    right
    have hthere := isDirectoryAt_of_lookup? hplace (h.no_file way (List.prefix_refl way) e hplace)
    refine ⟨_, rfl, rfl, ?_, hthere⟩
    rw [keepDirectory_eq, isDirectory_of_locate hlocate hthere]

theorem ensureDirectory_spec (now : Int) (hbase : t.locate base = .ok place)
    (h : Passable t base place way)
    (hdirectory : ∀ w, w <+: way → w ≠ way → t.isDirectoryAt (follow place w) = true)
    : ∃ t', ensureDirectory now (base.descend way) t = .ok () t' ∧
        Grows now (· = follow place way) t t' ∧ t'.isDirectoryAt (follow place way) = true := by
  rw [ensureDirectory_eq]
  cases makeDirectory_spec now hbase h hdirectory with
  | inl hmade =>
    obtain ⟨t', hmade, hgrows, hthere⟩ := hmade
    exact ⟨t', by rw [hmade], hgrows, hthere⟩
  | inr hfound =>
    obtain ⟨e, -, hmade, hkeep, hthere⟩ := hfound
    exact ⟨t, by rw [hmade]; exact hkeep, .refl, hthere⟩

def On (place : Location) (way : List String) (l : Location) : Prop :=
  ∃ w, w <+: way ∧ l = follow place w

theorem ensureDirectories_of_there (now : Int) (levels : Nat) (hbase : t.locate base = .ok place)
    (h : Passable t base place way)
    (hdirectory : ∀ w, w <+: way → w ≠ way → t.isDirectoryAt (follow place w) = true)
    : ∃ t', ensureDirectories now levels (base.descend way) t = .ok () t' ∧
        Grows now (On place way) t t' ∧ ∀ w, w <+: way → t'.isDirectoryAt (follow place w) = true := by
  have hon : ∀ l, l = follow place way → On place way l := fun l hl => ⟨way, List.prefix_refl way, hl⟩
  have hthere : ∀ {t'}, Grows now (· = follow place way) t t' →
      t'.isDirectoryAt (follow place way) = true →
      ∀ w, w <+: way → t'.isDirectoryAt (follow place w) = true := by
    intro t' hgrows hway w hw
    by_cases heq : w = way
    · rwa [heq]
    · exact hgrows.isDirectoryAt (hdirectory w hw heq)
  cases levels with
  | zero =>
    obtain ⟨t', hmade, hgrows, hway⟩ := ensureDirectory_spec now hbase h hdirectory
    exact ⟨t', hmade, hgrows.mono hon, hthere hgrows hway⟩
  | succ levels =>
    rw [ensureDirectories_succ]
    cases makeDirectory_spec now hbase h hdirectory with
    | inl hmade =>
      obtain ⟨t', hmade, hgrows, hway⟩ := hmade
      exact ⟨t', by rw [hmade], hgrows.mono hon, hthere hgrows hway⟩
    | inr hfound =>
      obtain ⟨e, hfault, hmade, hkeep, hway⟩ := hfound
      refine ⟨t, ?_, .refl, hthere .refl hway⟩
      rw [hmade]
      dsimp only
      rw [hfault, if_neg (by simp), hkeep]

theorem ensureDirectories_spec (now : Int) {levels : Nat} (hlevels : way.length ≤ levels)
    (hbase : t.locate base = .ok place) (h : Passable t base place way)
    : ∃ t', ensureDirectories now levels (base.descend way) t = .ok () t' ∧
        Grows now (On place way) t t' ∧ ∀ w, w <+: way → t'.isDirectoryAt (follow place w) = true := by
  induction way using List.reverseRecOn generalizing levels with
  | nil =>
    apply ensureDirectories_of_there now levels hbase h
    intro w hw hne
    exact absurd (List.prefix_nil.1 hw) hne
  | append_singleton way name ih =>
    by_cases hdirectory : ∀ w, w <+: way → t.isDirectoryAt (follow place w) = true
    · apply ensureDirectories_of_there now levels hbase h
      intro w hw hne
      apply hdirectory
      exact (List.prefix_concat_iff.1 hw).resolve_left hne
    · cases levels with
      | zero => simp at hlevels
      | succ levels =>
        -- Something on the way is missing, so the directory above is made first.
        have hsub : way <+: way ++ [name] := List.prefix_append _ _
        have hmissing : t.locate (base.descend (way ++ [name])) = .error .notFound := by
          rw [locate_descend hbase (h.fits _ (List.prefix_refl _))]
          apply walk_eq_notFound
          · exact fun w hw _ => h.no_file w hw
          · exact h.short
          · simp only [not_forall] at hdirectory
            obtain ⟨w, hw, hnot⟩ := hdirectory
            refine ⟨w, hw.trans hsub, ?_, ?_⟩
            · rintro rfl
              have := hw.length_le
              rw [List.length_append, List.length_singleton] at this
              omega
            · cases hplace : t.lookup? (follow place w) with
              | none => rfl
              | some e =>
                have he := h.no_file w (hw.trans hsub) e hplace
                exact absurd (isDirectoryAt_of_lookup? hplace he) hnot
        have hparent : (base.descend (way ++ [name])).parent = base.descend way := by
          simp [Path.parent, Path.descend, ← List.append_assoc]
        obtain ⟨t₁, hmade, hgrows, hthere⟩ :=
          @ih levels (by simpa using hlevels) (h.sub hsub)
        have hbase₁ := locate_mono (fun l hl => hgrows.isDirectoryAt hl) hgrows.working hbase
        obtain ⟨t', hmade', hgrows', hthere'⟩ := ensureDirectory_spec now hbase₁ (h.grows hgrows) (by
          intro w hw hne
          exact hthere w ((List.prefix_concat_iff.1 hw).resolve_left hne))
        refine ⟨t', ?_, ?_, ?_⟩
        · rw [ensureDirectories_succ, makeDirectory_eq, hmissing]
          dsimp only
          rw [if_pos rfl, hparent, hmade]
          exact hmade'
        · apply (hgrows.mono _).trans (hgrows'.mono _)
          · rintro l ⟨w, hw, rfl⟩
            exact ⟨w, hw.trans hsub, rfl⟩
          · rintro l rfl
            exact ⟨_, List.prefix_refl _, rfl⟩
        · intro w hw
          cases List.prefix_concat_iff.1 hw with
          | inl heq => rwa [heq]
          | inr hw => exact hgrows'.isDirectoryAt (hthere w hw)

end

/-! ### Files -/

theorem writeText_eq (now : Int) (p : Path) (text : String) (t : FileTree)
    : writeText now p text t =
        match t.locate p with
        | .error fault => .error ⟨fault, p⟩ t
        | .ok place =>
          if t.isDirectoryAt place then .error ⟨.isDirectory, p⟩ t
          else .ok () (t.insert place (.file (Text.encodeUtf8 text.toList) now)) := by
  have hget : ∀ next : FileTree → Action AccessError Unit, (get >>= next) t = next t t := fun _ => rfl
  rw [writeText, hget]
  cases t.locate p with
  | error fault => rfl
  | ok place =>
    dsimp only
    unfold FileTree.isDirectoryAt
    cases t.lookup? place with
    | none => rfl
    | some e => cases e <;> rfl

end LuaTypes.FileTree
