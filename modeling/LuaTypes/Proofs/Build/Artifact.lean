import LuaTypes.Build
import LuaTypes.Proofs.Artifact.RoundTrip
import LuaTypes.Proofs.Declaration.Readable
import LuaTypes.Proofs.FileTree.Access
import LuaTypes.Proofs.Json.Ascii

/-!
A file that has been read from a source is read back from its artifact.
-/

namespace LuaTypes

open Declaration

namespace TypeExpr

theorem grammatical_of_occurs {P : Char → Prop} {t u : TypeExpr} (h : t.Grammatical P) (hu : Occurs u t)
    : u = .vararg ∨ u.Grammatical P := by
  induction hu with
  | refl => exact .inr h
  | member ht _ ih =>
    cases h with
    | union _ h => exact ih (h _ ht)
  | inner _ ih =>
    cases h with
    | optional h => exact ih h
  | element _ ih =>
    cases h with
    | array h => exact ih h
  | argument ht _ ih =>
    cases h with
    | generic _ _ h => exact ih (h _ ht)
  | param hp ht _ ih =>
    cases h with
    | function _ _ h _ => exact ih (h _ hp _ ht)
  | @result t params returns isAsync ht hu ih =>
    cases h with
    | function _ _ _ h =>
      by_cases hvararg : t = .vararg
      · rw [hvararg, occurs_vararg] at hu
        exact .inl hu
      · exact ih (h _ ht hvararg)
  | key hf ht _ ih =>
    cases h with
    | table _ h _ => exact ih (h _ hf _ ht)
  | value hf _ ih =>
    cases h with
    | table _ _ h => exact ih (h _ hf)

theorem Grammatical.storable {P : Char → Prop} {t : TypeExpr} (h : t.Grammatical P) : t.Storable := by
  intro value hvalue
  obtain hvararg | hliteral := grammatical_of_occurs h hvalue
  · cases hvararg
  · cases hliteral with
    | string => trivial
    | integer h => exact h
    | float => trivial
    | boolean => trivial

end TypeExpr

theorem Declaration.File.Readable.storable {f : File} (h : f.Readable) : f.Storable := by
  intro t ht
  cases ht with
  | base ha hbase => exact ((h.aliases _ ha).base _ hbase).storable
  | member ha hm => exact ((h.aliases _ ha).members _ hm).type.storable
  | key hc hf hkey =>
    obtain ⟨hnone, -⟩ | ⟨⟨key, hsome, htype⟩, -⟩ := ((h.classes _ hc).fields _ hf).keyed
    · rw [hnone] at hkey
      cases hkey
    · rw [hsome] at hkey
      cases hkey
      exact htype.storable
  | field hc hf => exact ((h.classes _ hc).fields _ hf).type.storable
  | param hf hp => exact ((h.functions _ hf).params _ hp).type.storable
  | result hf hr => exact ((h.functions _ hf).returns _ hr).type.storable

namespace Build

open FileTree

variable {t : FileTree}

def Compiles (content : List UInt8) (file : File) : Prop :=
  ∃ text, Text.decodeUtf8 content = .ok text ∧
    File.parse (String.ofList (Text.unifyLineEnds text)) = .ok file

def artifactBytes (file : File) : List UInt8 :=
  Text.encodeUtf8 (Artifact.ofFile file).toList

theorem Compiles.storable {content : List UInt8} {file : File} (h : Compiles content file)
    : file.Storable := by
  obtain ⟨text, -, hparse⟩ := h
  exact (File.readable_of_parse hparse).storable

theorem isAscii_ofFile {file : File} (h : file.Storable) : Json.IsAscii (Artifact.ofFile file).toList := by
  apply Json.isAscii_print
  simpa [Artifact.envelope] using File.storable_toJson h

theorem readText_eq {p : Path} {place : Location} {content : List UInt8} {modified : Int}
    (hp : t.locate p = .ok place) (hplace : t.lookup? place = some (.file content modified))
    : t.readText p =
        match Text.decodeUtf8 content with
        | .error e => .error (.encoding e)
        | .ok text => .ok (String.ofList (Text.unifyLineEnds text)) := by
  unfold readText readBytes
  cases hdecode : Text.decodeUtf8 content <;> simp only [hp, hplace, hdecode]

theorem readText_artifactBytes {p : Path} {place : Location} {file : File} {modified : Int}
    (hp : t.locate p = .ok place) (hplace : t.lookup? place = some (.file (artifactBytes file) modified))
    (h : file.Storable)
    : t.readText p = .ok (Artifact.ofFile file) := by
  have hascii := isAscii_ofFile h
  rw [readText_eq hp hplace, artifactBytes, Text.decodeUtf8_encodeUtf8 hascii]
  dsimp only
  rw [Text.unifyLineEnds_of_printableAscii hascii, String.ofList_toList]

section

variable [Artifact.Codec] [Artifact.LawfulCodec] {p : Path} {place : Location} {file : File} {modified : Int}
  (hp : t.locate p = .ok place) (hplace : t.lookup? place = some (.file (artifactBytes file) modified))
  (h : file.Storable)

include hp hplace h

theorem readArtifact_artifactBytes
    : readArtifact t p = .ok file ∨ ∃ e, readArtifact t p = .error (.invalid e) := by
  unfold readArtifact
  rw [readText_artifactBytes hp hplace h]
  dsimp only
  cases hread : Artifact.toFile (Artifact.ofFile file) with
  | error e => exact .inr ⟨e, rfl⟩
  | ok g =>
    rw [Artifact.eq_of_toFile_ofFile h hread]
    exact .inl rfl

theorem readArtifact_of_nesting (hnesting : file.nesting < Artifact.Codec.limit)
    : readArtifact t p = .ok file := by
  unfold readArtifact
  rw [readText_artifactBytes hp hplace h]
  dsimp only
  rw [Artifact.toFile_ofFile h hnesting]

end

/--
A compiled file that the codec refuses, and the error that comes of it.
-/
inductive Refused [Artifact.Codec] : Except Error File → Error → Prop where
  | intro {file : File} {refusal : Artifact.Refusal} (h : Artifact.serialize file = .error refusal)
      : Refused (.ok file) (.refused refusal)

theorem compileFile_eq_ok_iff {source : Path} {place : Location} {content : List UInt8} {modified : Int}
    (hsource : t.locate source = .ok place)
    (hplace : t.lookup? place = some (.file content modified)) {file : File}
    : compileFile t source = .ok file ↔ Compiles content file := by
  unfold compileFile Compiles
  rw [readText_eq hsource hplace]
  cases hdecode : Text.decodeUtf8 content with
  | error e => simp
  | ok text =>
    simp only [Except.ok.injEq, exists_eq_left']
    cases hparse : File.parse (String.ofList (Text.unifyLineEnds text)) with
    | ok f => simp
    | error e => cases e <;> simp

theorem exists_of_compileFile {source : Path} {file : File} (h : compileFile t source = .ok file)
    : ∃ place content modified, t.locate source = .ok place ∧
        t.lookup? place = some (.file content modified) := by
  unfold compileFile readText readBytes at h
  cases hsource : t.locate source with
  | error fault =>
    rw [hsource] at h
    dsimp only at h
    split at h
    · cases h
    · cases h
    next heq => cases heq
  | ok place =>
    rw [hsource] at h
    dsimp only at h
    cases hplace : t.lookup? place with
    | none =>
      rw [hplace] at h
      cases h
    | some e =>
      cases e with
      | file content modified => exact ⟨place, content, modified, rfl, hplace⟩
      | directory modified =>
        rw [hplace] at h
        cases h

end Build

end LuaTypes
