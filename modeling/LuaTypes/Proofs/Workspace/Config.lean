import LuaTypes.Proofs.Except
import LuaTypes.Workspace.Config

/-!
What becomes of a configuration that is loaded. It is accepted if all its keys are known and the values under them are
texts, or a list of texts; else there is an error that says what is wrong with it. But this error does not come about if
the unknown keys have no common order, or if one of them is too long to be shown.
-/

namespace LuaTypes

namespace Yaml.Value

theorem sameKey_string_iff {v : Value} {s : String} : sameKey v (.string s) = true ↔ v = .string s := by
  cases v with
  | string t =>
    simp only [sameKey, compare?, magnitude?, beq_iff_eq, Option.some.injEq, string.injEq]
    exact Std.LawfulEqOrd.compare_eq_iff_eq
  | _ => simp [sameKey, compare?, magnitude?]

end Yaml.Value

namespace Workspace.Config

open Yaml (Value)

variable {entries : List (Value × Value)} {p : Problem} {key : String}

/-! ### Keys -/

def unknownKeys (entries : List (Value × Value)) : List Value :=
  (entries.map (·.1)).filter (! isKnown ·)

def Unordered (ks : List Value) : Prop :=
  2 ≤ ks.length ∧ ∃ a ∈ ks, ∃ b ∈ ks, a.isComparable b = false

/--
Is the error reported as one of the configuration? Keys without an order or a text cause others.
-/
def Problem.IsReported (p : Problem) : Prop :=
  p ≠ .unorderedFields ∧ p ≠ .longField

theorem isKnown_iff {k : Value} : isKnown k = true ↔ ∃ s ∈ keys, k = .string s := by
  simp only [isKnown, List.any_eq_true, Value.sameKey_string_iff]

theorem unknownKeys_eq_nil_iff : unknownKeys entries = [] ↔ ∀ e ∈ entries, ∃ s ∈ keys, e.1 = .string s := by
  simp only [unknownKeys, List.filter_eq_nil_iff, List.forall_mem_map, Bool.not_eq_true', Bool.not_eq_false,
    isKnown_iff]

theorem sorted?_eq_none_iff {ks : List Value} : sorted? ks = none ↔ Unordered ks := by
  unfold sorted? Unordered
  split
  next => simp
  next => simp
  next hnil hsingle =>
    have hlength : 2 ≤ ks.length := by
      match ks with
      | [] => exact absurd rfl hnil
      | [k] => exact absurd rfl (hsingle k)
      | _ :: _ :: _ => simp
    simp [hlength]

theorem mem_of_sorted? {ks ks' : List Value} (h : sorted? ks = some ks') (k : Value) : k ∈ ks' ↔ k ∈ ks := by
  unfold sorted? at h
  split at h
  next => cases h; rfl
  next => cases h; rfl
  next =>
    split at h
    next => cases h; exact List.mem_mergeSort
    next => cases h

theorem checkKeys_eq_ok_iff : checkKeys entries = .ok () ↔ unknownKeys entries = [] := by
  unfold checkKeys
  rw [← unknownKeys]
  constructor
  · intro h
    split at h
    next => cases h
    next hsorted => exact List.eq_nil_iff_forall_not_mem.2 fun k hk => by simpa using (mem_of_sorted? hsorted k).2 hk
    next => split at h <;> cases h
  · intro h
    rw [h]
    rfl

theorem isReported_of_checkKeys (h : checkKeys entries = .error p)
    : p.IsReported ↔ ¬ Unordered (unknownKeys entries) ∧ ∀ k ∈ unknownKeys entries, k.hasText = true := by
  unfold checkKeys at h
  rw [← unknownKeys] at h
  rw [← sorted?_eq_none_iff]
  split at h
  next hsorted =>
    cases h
    simp [Problem.IsReported, hsorted]
  next => cases h
  next ks _ hsorted =>
    simp only [hsorted, ← mem_of_sorted? hsorted]
    split at h
    next htext =>
      cases h
      simpa [Problem.IsReported] using htext
    next htext =>
      cases h
      simpa [Problem.IsReported] using htext

/-! ### Values -/

def Holds (entries : List (Value × Value)) (key : String) (v standard : Value) : Prop :=
  Value.lookup? key entries = some v ∨ Value.lookup? key entries = none ∧ v = standard

theorem string?_eq_some_iff {v : Value} {s : String} : string? v = some s ↔ v = .string s := by
  cases v <;> simp [string?]

theorem strings?_eq_some_iff {v : Value} {ss : List String} : strings? v = some ss ↔ v = .list (ss.map .string) := by
  cases v with
  | list items =>
    simp only [strings?, Value.list.injEq]
    induction items generalizing ss with
    | nil => cases ss <;> simp
    | cons item items ih =>
      rw [List.mapM_cons]
      change ((string? item).bind fun s => (items.mapM string?).bind fun ss => some (s :: ss)) = some ss ↔ _
      cases ss with
      | nil => simp [Option.bind_eq_some_iff]
      | cons t ts => simp [Option.bind_eq_some_iff, string?_eq_some_iff, ih]
  | _ => simp [strings?]

theorem text_eq_ok_iff {absent : Except Problem String} {s : String}
    : text entries key absent = .ok s ↔
        Value.lookup? key entries = some (.string s) ∨ Value.lookup? key entries = none ∧ absent = .ok s := by
  unfold text
  cases Value.lookup? key entries with
  | none => simp
  | some v =>
    simp only [Option.some.injEq, ← string?_eq_some_iff, reduceCtorEq, false_and, or_false]
    cases string? v <;> simp

theorem texts_eq_ok_iff {ss : List String}
    : texts entries key = .ok ss ↔ Holds entries key (.list (ss.map .string)) (.list []) := by
  unfold texts Holds
  cases Value.lookup? key entries with
  | none => simp [eq_comm]
  | some v =>
    simp only [Option.some.injEq, ← strings?_eq_some_iff, reduceCtorEq, false_and, or_false]
    cases strings? v <;> simp

theorem isReported_of_text {absent : Except Problem String} (habsent : ∀ q, absent = .error q → q.IsReported)
    (h : text entries key absent = .error p)
    : p.IsReported := by
  unfold text at h
  split at h
  next => exact habsent p h
  next =>
    split at h <;> cases h
    simp [Problem.IsReported]

theorem isReported_of_texts (h : texts entries key = .error p) : p.IsReported := by
  unfold texts at h
  split at h
  next => cases h
  next =>
    split at h <;> cases h
    simp [Problem.IsReported]

/-! ### Configurations -/

/--
Do the entries make up the configuration? Only the library has to be there.
-/
structure Describes (entries : List (Value × Value)) (c : Config) : Prop where
  known : ∀ e ∈ entries, ∃ key ∈ keys, e.1 = .string key
  library : Value.lookup? libraryKey entries = some (.string c.library)
  buildDirectory : Holds entries buildDirectoryKey (.string c.buildDirectory) (.string ".catsdecl-build")
  runtimeVersion : Holds entries runtimeVersionKey (.string c.runtimeVersion) (.string "Lua 5.2")
  disableBuiltins : Holds entries disableBuiltinsKey (.list (c.disableBuiltins.map .string)) (.list [])

theorem text_standard_iff {s standard : String}
    : text entries key (.ok standard) = .ok s ↔ Holds entries key (.string s) (.string standard) := by
  rw [text_eq_ok_iff, Holds]
  simp [eq_comm]

theorem ofValue_map_eq_ok_iff {c : Config} : ofValue (.map entries) = .ok c ↔ Describes entries c := by
  unfold ofValue
  simp only [bind_eq_ok_iff]
  constructor
  · rintro ⟨_, hkeys, library, hlibrary, buildDirectory, hbuild, runtimeVersion, hruntime, disableBuiltins, hdisable, h⟩
    cases h
    exact
      { known := unknownKeys_eq_nil_iff.1 (checkKeys_eq_ok_iff.1 hkeys)
        library := by simpa using text_eq_ok_iff.1 hlibrary
        buildDirectory := text_standard_iff.1 hbuild
        runtimeVersion := text_standard_iff.1 hruntime
        disableBuiltins := texts_eq_ok_iff.1 hdisable }
  · intro h
    exact ⟨(), checkKeys_eq_ok_iff.2 (unknownKeys_eq_nil_iff.2 h.known), _, text_eq_ok_iff.2 (.inl h.library),
      _, text_standard_iff.2 h.buildDirectory, _, text_standard_iff.2 h.runtimeVersion,
      _, texts_eq_ok_iff.2 h.disableBuiltins, rfl⟩

theorem isReported_of_ofValue_map (h : ofValue (.map entries) = .error p)
    : p.IsReported ↔ ¬ Unordered (unknownKeys entries) ∧ ∀ k ∈ unknownKeys entries, k.hasText = true := by
  unfold ofValue at h
  obtain h | ⟨_, hkeys, h⟩ := bind_eq_error_iff.1 h
  · exact isReported_of_checkKeys h
  · -- Once the keys are known, the errors that are left are about values.
    have hreported : p.IsReported := by
      simp only [bind_eq_error_iff] at h
      obtain h | ⟨_, -, h | ⟨_, -, h | ⟨_, -, h | ⟨_, -, h⟩⟩⟩⟩ := h
      · apply isReported_of_text _ h
        rintro _ ⟨⟩
        simp [Problem.IsReported]
      · exact isReported_of_text (by rintro _ ⟨⟩) h
      · exact isReported_of_text (by rintro _ ⟨⟩) h
      · exact isReported_of_texts h
      · cases h
    simp [hreported, checkKeys_eq_ok_iff.1 hkeys, Unordered]

/--
A loaded text is a configuration just if it is a mapping whose entries describe one. Otherwise there is an error, which
is reported unless the mapping has unknown keys without an order, or one that cannot be shown.
-/
theorem parse_of_load [Yaml.Library] {source : String} {v : Value} (h : Yaml.Library.load source = .ok v)
    : (∀ c, parse source = .ok c ↔ ∃ entries, v = .map entries ∧ Describes entries c) ∧
        ∀ e, parse source = .error e → ∃ p, e = .content p ∧
          (p.IsReported ↔ ∀ entries, v = .map entries →
            ¬ Unordered (unknownKeys entries) ∧ ∀ k ∈ unknownKeys entries, k.hasText = true) := by
  have hok {c : Config} (hvalue : ofValue v = .ok c) : parse source = .ok c := by
    rw [parse, h]
    dsimp only
    rw [hvalue]
    rfl
  have herror {p : Problem} (hvalue : ofValue v = .error p) : parse source = .error (.content p) := by
    rw [parse, h]
    dsimp only
    rw [hvalue]
    rfl
  cases v with
  | map entries =>
    simp only [Value.map.injEq, forall_eq', exists_eq_left', ← ofValue_map_eq_ok_iff]
    cases hvalue : ofValue (.map entries) with
    | ok c => simp [hok hvalue]
    | error p => simpa [herror hvalue] using isReported_of_ofValue_map hvalue
  | _ => simp [herror rfl, Problem.IsReported]

def bareText : String :=
  "library: lib\n"

theorem load_bareText : Yaml.Library.load bareText = .ok (.map [(.string "library", .string "lib")]) := by
  have hscan : Yaml.Token.scan bareText.toList = [.blockMapping, .key, .scalar "library".toList true, .value,
      .scalar "lib".toList true, .blockEnd, .endOfText] := by
    decide +kernel
  change Yaml.load bareText = _
  rw [Yaml.load, Yaml.Node.parse, hscan]
  rfl

theorem describes_bareText : Describes [(.string "library", .string "lib")] { library := "lib" } where
  known := by simp [keys, libraryKey]
  library := by rfl
  buildDirectory := .inr ⟨by rfl, rfl⟩
  runtimeVersion := .inr ⟨by rfl, rfl⟩
  disableBuiltins := .inr ⟨by rfl, rfl⟩

theorem parse_of_load_bareText
    : Yaml.Library.load bareText = .ok (.map [(.string "library", .string "lib")]) ∧
        parse bareText = .ok { library := "lib" } :=
  ⟨load_bareText, ((parse_of_load load_bareText).1 _).2 ⟨_, rfl, describes_bareText⟩⟩

/-! ### Keys without an order -/

def strangeKeys : String :=
  "1: a\nb: c\n"

theorem not_reported_strangeKeys
    : Yaml.Library.load strangeKeys = .ok (.map [(.integer 1, .string "a"), (.string "b", .string "c")]) ∧
        parse strangeKeys = .error (.content .unorderedFields) ∧ ¬ Problem.unorderedFields.IsReported := by
  have hscan : Yaml.Token.scan strangeKeys.toList = [.blockMapping, .key, .scalar ['1'] true, .value,
      .scalar ['a'] true, .key, .scalar ['b'] true, .value, .scalar ['c'] true, .blockEnd, .endOfText] := by
    decide +kernel
  have hload : Yaml.Library.load strangeKeys
      = .ok (.map [(.integer 1, .string "a"), (.string "b", .string "c")]) := by
    change Yaml.load strangeKeys = _
    rw [Yaml.load, Yaml.Node.parse, hscan]
    rfl
  refine ⟨hload, ?_, by simp [Problem.IsReported]⟩
  rw [parse, hload]
  rfl

end Workspace.Config

end LuaTypes
