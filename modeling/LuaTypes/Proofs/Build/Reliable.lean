import LuaTypes.Proofs.Build.Collision
import LuaTypes.Proofs.Build.Plain

/-!
Which libraries can be compiled at any time with the same result as without artifacts.
-/

namespace LuaTypes.Build

open Declaration FileTree

/--
A library is reliable if and only if no two of its sources share a place for their artifacts.
-/
theorem Project.Bare.reliable_iff_apart [Artifact.Codec] [Artifact.LawfulCodec] {p : Project}
    {used : List String → Prop} {s : Scene} (hbare : p.Bare s) (husable : p.Usable used) (hcompatible : p.Compatible used)
    : p.Reliable used ↔ Apart p.top used := by
  constructor
  · exact hbare.apart_of_reliable husable hcompatible
  · exact husable.reliable

/-! ### A small library -/

def sample : Project where
  working := []
  library := { parts := ["lib"] }
  build := { parts := ["build"] }

def sampleScene : Scene where
  tree := { entries := [(["lib"], .directory 0), (["build"], .directory 0)] }
  now := 0

theorem lookup?_sampleScene (l : Location)
    : sampleScene.tree.lookup? l = if l = [] ∨ l = ["lib"] ∨ l = ["build"] then some (.directory 0) else none := by
  cases l with
  | nil => rfl
  | cons name names =>
    simp only [sampleScene, lookup?, List.isEmpty_cons, Bool.false_eq_true, ↓reduceIte, List.lookup_cons,
      List.lookup_nil, reduceCtorEq, false_or]
    by_cases hlib : name :: names = ["lib"]
    · simp [hlib]
    · by_cases hbuild : name :: names = ["build"]
      · simp [hbuild]
      · rw [beq_false_of_ne hlib, beq_false_of_ne hbuild, if_neg (by simp only [hlib, hbuild, or_self, not_false_eq_true])]

theorem bare_sample : sample.Bare sampleScene where
  fresh := {
    working := rfl
    wellFormed := by
      unfold WellFormed
      decide
    build := rfl
    directory := rfl
    empty := by
      intro l htop hne
      change ["build"] <+: l at htop
      change l ≠ ["build"] at hne
      rw [lookup?_sampleScene, if_neg]
      rintro (rfl | rfl | rfl)
      · exact absurd htop (by decide)
      · exact absurd htop (by decide)
      · exact hne rfl
    sources := by
      rintro names ⟨-, content, modified, hplace⟩
      rw [lookup?_sampleScene] at hplace
      split at hplace
      · cases hplace
      · cases hplace }
  library := rfl
  above := by
    intro l hl
    change l <+: ["lib"] at hl
    unfold FileTree.isDirectoryAt
    rw [lookup?_sampleScene, if_pos]
    · rfl
    · rcases List.prefix_cons_iff.1 hl with rfl | ⟨rest, rfl, hrest⟩
      · exact .inl rfl
      · rw [List.prefix_nil.1 hrest]
        exact .inr (.inl rfl)
  below := by
    intro l hroot hne
    change ["lib"] <+: l at hroot
    change l ≠ ["lib"] at hne
    rw [lookup?_sampleScene, if_neg]
    rintro (rfl | rfl | rfl)
    · exact absurd hroot (by decide)
    · exact hne rfl
    · exact absurd hroot (by decide)

def plainSources (names : List String) : Prop :=
  names = ["shell.lua"] ∨ names = ["cc", "completion.lua"]

theorem plain_sample : sample.Plain plainSources where
  named := by
    rintro names (rfl | rfl)
    · decide
    · decide
  plain := by
    rintro names (rfl | rfl) name hname
    · rw [List.mem_singleton] at hname
      rw [hname]
      exact ⟨by decide, by decide, by decide, by decide, by decide⟩
    · rw [List.mem_pair] at hname
      rcases hname with rfl | rfl
      · exact ⟨by decide, by decide, by decide, by decide, by decide⟩
      · exact ⟨by decide, by decide, by decide, by decide, by decide⟩
  no_artifact := by
    rintro names (rfl | rfl)
    · decide
    · decide
  fits := by
    rintro names (rfl | rfl)
    · exact ⟨rfl, by decide⟩
    · exact ⟨rfl, by decide⟩
  short := by
    rintro names (rfl | rfl)
    · have : trail (key ["shell.lua"]) = ["shell.decl.json"] := rfl
      rw [this]
      decide
    · have : trail (key ["cc", "completion.lua"]) = ["cc", "completion.decl.json"] := rfl
      rw [this]
      decide

theorem compatible_sample : sample.Compatible plainSources where
  suffix := by
    rintro names (rfl | rfl)
    · decide
    · decide
  fits := by
    rintro names (rfl | rfl)
    · exact ⟨rfl, by decide⟩
    · exact ⟨rfl, by decide⟩
  short := by
    rintro names (rfl | rfl)
    · decide
    · decide
  apart := by
    rintro names names' (rfl | rfl) (rfl | rfl)
    · decide
    · decide
    · decide
    · decide
  distinct := by
    rintro names names' (rfl | rfl) (rfl | rfl)
    · intro _
      rfl
    · intro h
      have : key ["shell.lua"] ≠ key ["cc", "completion.lua"] := by decide
      exact absurd h this
    · intro h
      have : key ["shell.lua"] ≠ key ["cc", "completion.lua"] := by decide
      exact absurd h.symm this
    · intro _
      rfl

theorem reliable_sample
    : sample.Bare sampleScene ∧ sample.Usable plainSources ∧ sample.Compatible plainSources ∧
        Apart sample.top plainSources ∧ sample.Reliable plainSources := by
  have husable := plain_sample.usable (by decide) (by decide)
  have hapart := plain_sample.apart compatible_sample.distinct
  exact ⟨bare_sample, husable, compatible_sample, hapart,
    (bare_sample.reliable_iff_apart husable compatible_sample).2 hapart⟩

def crossedSources (names : List String) : Prop :=
  names = ["b.lua"] ∨ names = ["\\b.lua"]

theorem trail_crossedSources {names : List String} (h : crossedSources names)
    : trail (key names) = ["b.decl.json"] := by
  rcases h with rfl | rfl
  · rfl
  · rfl

theorem usable_crossedSources : sample.Usable crossedSources where
  outside := by decide
  above := by decide
  ordinary := by
    rintro names (rfl | rfl)
    · decide
    · decide
  spacious := {
    inside := by
      intro names hnames w hw
      rw [trail_crossedSources hnames] at hw
      rcases List.prefix_cons_iff.1 hw with rfl | ⟨rest, rfl, hrest⟩
      · decide
      · rw [List.prefix_nil.1 hrest]
        decide
    clear := by
      intro names names' hnames hnames' w hw
      rw [trail_crossedSources hnames'] at hw
      rw [artifactPlace, trail_crossedSources hnames, List.prefix_nil.1 hw]
      decide
    fits := by
      intro names hnames
      rw [trail_crossedSources hnames]
      exact ⟨rfl, by decide⟩
    short := by
      intro names hnames
      rw [trail_crossedSources hnames]
      decide }

theorem compatible_crossedSources : sample.Compatible crossedSources where
  suffix := by
    rintro names (rfl | rfl)
    · decide
    · decide
  fits := by
    rintro names (rfl | rfl)
    · exact ⟨rfl, by decide⟩
    · exact ⟨rfl, by decide⟩
  short := by
    rintro names (rfl | rfl)
    · decide
    · decide
  apart := by
    rintro names names' (rfl | rfl) (rfl | rfl)
    · decide
    · decide
    · decide
    · decide
  distinct := by
    have hkeys : key ["b.lua"] ≠ key ["\\b.lua"] := by decide
    rintro names names' (rfl | rfl) (rfl | rfl) h
    · rfl
    · exact absurd h hkeys
    · exact absurd h.symm hkeys
    · rfl

theorem not_reliable_crossedSources : ¬ sample.Reliable crossedSources := by
  intro hreliable
  have hapart := bare_sample.apart_of_reliable usable_crossedSources compatible_crossedSources hreliable
  have hplace : artifactPlace sample.top ["b.lua"] = artifactPlace sample.top ["\\b.lua"] := by
    unfold artifactPlace
    rw [trail_crossedSources (.inl rfl), trail_crossedSources (.inr rfl)]
  exact absurd (hapart _ _ (.inl rfl) (.inr rfl) hplace) (by decide)

end LuaTypes.Build
