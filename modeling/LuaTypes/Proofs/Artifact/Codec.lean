import LuaTypes.Artifact

/-!
Codecs that go by the rules of the stored form. Only records whose types are nested too deeply are left to
them.
-/

namespace LuaTypes.Artifact

open Declaration

variable {α : Type}

/--
Does a coder go by the rules for all records whose types are nested less deeply than the limit? It may
refuse others, in both directions, but does nothing else with them.
-/
structure Coder.Lawful (coder : Coder α) (limit : Nat) (nesting : α → Nat) (toJson : α → Json)
    (ofJson? : Json → Option α) : Prop where
  encode_eq : ∀ {x}, nesting x < limit → coder.encode x = .ok (toJson x)
  eq_of_encode : ∀ {x v}, coder.encode x = .ok v → v = toJson x
  decode?_eq : ∀ {v x}, ofJson? v = some x → nesting x < limit → coder.decode? v = some x
  eq_of_decode? : ∀ {v x}, coder.decode? v = some x → ofJson? v = some x

class LawfulCodec [Codec] : Prop where
  limit_pos : 0 < Codec.limit
  file : Codec.file.Lawful Codec.limit File.nesting File.toJson File.ofJson?
  corpus : Codec.corpus.Lawful Codec.limit Corpus.nesting Corpus.toJson Corpus.ofJson?

theorem Coder.lawful_guarded (limit : Nat) (nesting : α → Nat) (toJson : α → Json) (ofJson? : Json → Option α)
    : (guarded limit nesting toJson ofJson?).Lawful limit nesting toJson ofJson? where
  encode_eq h := if_pos h
  eq_of_encode h := by
    unfold guarded at h
    dsimp only at h
    split at h
    · exact (Except.ok.inj h).symm
    · cases h
  decode?_eq hvalue hnesting := by
    simp [guarded, hvalue, hnesting]
  eq_of_decode? h := (Option.filter_eq_some_iff.1 h).1

instance : LawfulCodec where
  limit_pos := by decide
  file := Coder.lawful_guarded _ _ _ _
  corpus := Coder.lawful_guarded _ _ _ _

/-! ### Artifacts by the rules -/

variable [Codec] [LawfulCodec]

theorem serialize_eq {f : File} (h : f.nesting < Codec.limit) : serialize f = .ok (ofFile f) := by
  unfold serialize
  rw [LawfulCodec.file.encode_eq h]
  rfl

theorem eq_ofFile_of_serialize {f : File} {text : String} (h : serialize f = .ok text) : text = ofFile f := by
  unfold serialize at h
  cases hencode : Codec.file.encode f with
  | error e =>
    rw [hencode] at h
    cases h
  | ok v =>
    rw [hencode] at h
    cases h
    rw [LawfulCodec.file.eq_of_encode hencode]
    rfl

theorem serializeCorpus_eq {corpus : Corpus} {indentation : Option Int} (h : corpus.nesting < Codec.limit)
    (hindex : isIndex indentation = true)
    : serializeCorpus corpus indentation = .ok (ofCorpus corpus indentation) := by
  unfold serializeCorpus
  rw [LawfulCodec.corpus.encode_eq h]
  exact if_pos hindex

end LuaTypes.Artifact
