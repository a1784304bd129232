import LuaTypes.Proofs.Artifact.Codec
import LuaTypes.Proofs.Artifact.TypeExpr
import LuaTypes.Proofs.Declaration.Writes
import LuaTypes.Proofs.Json.RoundTrip

/-!
Artifacts lose nothing: files and corpora are read back from them, in every layout. Only integers of too
many digits cannot be stored.
-/

namespace LuaTypes

open Declaration Json

def Literal.Storable : Literal → Prop
  | .integer value => (Nat.toDigits 10 value.natAbs).length ≤ Decimal.maxIntegerDigits
  | _ => True

def TypeExpr.Storable (t : TypeExpr) : Prop :=
  ∀ value, Occurs (.literal value) t → value.Storable

namespace Declaration

def File.Storable (f : File) : Prop :=
  ∀ t, f.Writes t → t.Storable

structure Corpus.Storable (corpus : Corpus) : Prop where
  keys_nodup : (corpus.files.map (·.1)).Nodup
  files_storable : ∀ m ∈ corpus.files, m.2.Storable

end Declaration

namespace Json

@[simp]
theorem storable_null : Storable .null := .null

@[simp]
theorem storable_boolean (b : Bool) : Storable (.boolean b) := .boolean b

@[simp]
theorem storable_string (s : String) : Storable (.string s) := .string s

@[simp]
theorem storable_array {items : List Json} : Storable (.array items) ↔ ∀ v ∈ items, Storable v := by
  constructor
  · intro h
    cases h with
    | array h => exact h
  · exact .array

@[simp]
theorem storable_object {members : List (String × Json)}
    : Storable (.object members) ↔ (members.map (·.1)).Nodup ∧ ∀ m ∈ members, Storable m.2 := by
  constructor
  · intro h
    cases h with
    | object hkeys h => exact ⟨hkeys, h⟩
  · rintro ⟨hkeys, h⟩
    exact .object hkeys h

@[simp]
theorem storable_ofOption {α : Type} {f : α → Json} {o : Option α}
    : Storable (ofOption f o) ↔ ∀ x, o = some x → Storable (f x) := by
  cases o <;> simp [ofOption]

end Json

theorem Literal.storable_toJson {value : Literal} (h : value.Storable) : value.toJson.Storable := by
  cases value with
  | string value => exact .string value
  | integer value => exact .integer h
  | float value => exact .float value
  | boolean value => exact .boolean value

namespace TypeExpr

theorem storable_toJson {t : TypeExpr} (h : t.Storable) : t.toJson.Storable := by
  induction t with
  | named name => simp [toJson, kindObject]
  | literal value => simp [toJson, kindObject, Literal.storable_toJson (h value .refl)]
  | union members ih =>
    have hmembers : ∀ t ∈ members, t.toJson.Storable := fun t ht =>
      ih t ht fun value hvalue => h value (.member ht hvalue)
    simpa [toJson, kindObject, listToJson_eq_map] using hmembers
  | optional inner ih =>
    have hinner := ih fun value hvalue => h value (.inner hvalue)
    simpa [toJson, kindObject] using hinner
  | array element ih =>
    have helement := ih fun value hvalue => h value (.element hvalue)
    simpa [toJson, kindObject] using helement
  | generic name args ih =>
    have hargs : ∀ t ∈ args, t.toJson.Storable := fun t ht =>
      ih t ht fun value hvalue => h value (.argument ht hvalue)
    simpa [toJson, kindObject, listToJson_eq_map] using hargs
  | function params returns isAsync ihp ihr =>
    have hparams : ∀ p ∈ params, ∀ t, p.type = some t → t.toJson.Storable := fun p hp t ht =>
      ihp p hp t ht fun value hvalue => h value (.param hp ht hvalue)
    have hreturns : ∀ t ∈ returns, t.toJson.Storable := fun t ht =>
      ihr t ht fun value hvalue => h value (.result ht hvalue)
    simpa [toJson, kindObject, listToJson_eq_map, paramsToJson_eq_map, Param.toJson] using
      ⟨hparams, hreturns⟩
  | table fields ih =>
    have hkeys : ∀ f ∈ fields, ∀ t, f.key = some t → t.toJson.Storable := fun f hf t ht =>
      (ih f hf).1 t ht fun value hvalue => h value (.key hf ht hvalue)
    have htypes : ∀ f ∈ fields, f.type.toJson.Storable := fun f hf =>
      (ih f hf).2 fun value hvalue => h value (.value hf hvalue)
    simpa [toJson, kindObject, fieldsToJson_eq_map, Field.toJson] using fun f hf =>
      ⟨hkeys f hf, htypes f hf⟩
  | vararg => simp [toJson, kindObject]

end TypeExpr

namespace Declaration

theorem File.storable_toJson {f : File} (h : f.Storable) : f.toJson.Storable := by
  have htype : ∀ t, f.Writes t → t.toJson.Storable := fun t ht => TypeExpr.storable_toJson (h t ht)
  have hclasses : ∀ c ∈ f.classes, c.toJson.Storable := by
    intro c hc
    simpa [ClassType.toJson, textToJson, eachToJson, Field.toJson] using fun field hfield =>
      ⟨fun t ht => htype t (.key hc hfield ht), htype _ (.field hc hfield)⟩
  have haliases : ∀ a ∈ f.aliases, a.toJson.Storable := by
    intro a ha
    simpa [Alias.toJson, textToJson, eachToJson, AliasMember.toJson] using
      ⟨fun t ht => htype t (.base ha ht), fun m hm => htype _ (.member ha hm)⟩
  have hfunctions : ∀ fn ∈ f.functions, fn.toJson.Storable := by
    intro fn hfn
    simpa [Function.toJson, textToJson, eachToJson, Param.toJson, Return.toJson, Link.toJson] using
      ⟨fun p hp => htype _ (.param hfn hp), fun r hr => htype _ (.result hfn hr)⟩
  simpa [toJson, textToJson, eachToJson, Namespace.toJson] using ⟨hclasses, haliases, hfunctions⟩

theorem Corpus.storable_toJson {corpus : Corpus} (h : corpus.Storable) : corpus.toJson.Storable := by
  have hfiles : ∀ m ∈ corpus.files, m.2.toJson.Storable := fun m hm =>
    File.storable_toJson (h.files_storable m hm)
  have hkeys := h.keys_nodup
  simp only [toJson, storable_object, List.map_map, List.forall_mem_map, List.forall_mem_singleton,
    List.map_cons, List.map_nil, List.nodup_singleton, true_and]
  exact ⟨hkeys, hfiles⟩

/-! ### Records -/

@[simp]
theorem nullable?_textToJson (o : Option String) : nullable? string? (textToJson o) = some o := by
  cases o <;> rfl

@[simp]
theorem nullable?_type (o : Option TypeExpr)
    : nullable? TypeExpr.ofJson? (ofOption TypeExpr.toJson o) = some o :=
  nullable?_ofOption TypeExpr.toJson_ne_null fun t _ => t.ofJson?_toJson

@[simp]
theorem list?_eachToJson {α : Type} {f : α → Json} {decode : Json → Option α} {xs : List α}
    (h : ∀ x, decode (f x) = some x)
    : list? decode (eachToJson f xs) = some xs :=
  list?_map fun x _ => h x

@[simp]
theorem list?_texts (xs : List String) : list? string? (eachToJson .string xs) = some xs :=
  list?_map fun _ _ => rfl

@[simp]
theorem Namespace.ofJson?_toJson (ns : Namespace) : ofJson? ns.toJson = some ns := by
  simp [ofJson?, toJson, object?, optionalText?]

@[simp]
theorem Field.ofJson?_toJson (f : Field) : ofJson? f.toJson = some f := by
  simp [ofJson?, toJson, object?, optionalText?]

@[simp]
theorem ClassType.ofJson?_toJson (c : ClassType) : ofJson? c.toJson = some c := by
  simp [ofJson?, toJson, object?, optionalText?]

@[simp]
theorem AliasMember.ofJson?_toJson (m : AliasMember) : ofJson? m.toJson = some m := by
  simp [ofJson?, toJson, object?, optionalText?]

@[simp]
theorem Alias.ofJson?_toJson (a : Alias) : ofJson? a.toJson = some a := by
  simp [ofJson?, toJson, object?, optionalText?]

@[simp]
theorem Param.ofJson?_toJson (p : Param) : ofJson? p.toJson = some p := by
  simp [ofJson?, toJson, object?, optionalText?]

@[simp]
theorem Return.ofJson?_toJson (r : Return) : ofJson? r.toJson = some r := by
  simp [ofJson?, toJson, object?, optionalText?]

@[simp]
theorem Link.ofJson?_toJson (l : Link) : ofJson? l.toJson = some l := by
  simp [ofJson?, toJson, object?, optionalText?]

theorem bind_of_eq_some {α β : Type} {x : Option α} {f : α → Option β} {y : Option β} (a : α)
    (hx : x = some a) (hf : f a = y)
    : x >>= f = y := by
  rw [hx]
  exact hf

@[simp]
theorem Function.ofJson?_toJson (f : Function) : ofJson? f.toJson = some f := by
  unfold ofJson? toJson
  -- Member by member: there are too many of them to simplify all that follow each time.
  apply bind_of_eq_some _ rfl
  apply bind_of_eq_some f.owner (by simp [optionalText?])
  apply bind_of_eq_some f.name (by simp)
  apply bind_of_eq_some f.isMethod (by simp)
  apply bind_of_eq_some f.signature (by simp)
  apply bind_of_eq_some f.params (by simp)
  apply bind_of_eq_some f.returns (by simp)
  apply bind_of_eq_some f.description (by simp [optionalText?])
  apply bind_of_eq_some f.deprecated (by simp)
  apply bind_of_eq_some f.deprecationReason (by simp [optionalText?])
  apply bind_of_eq_some f.nodiscard (by simp)
  apply bind_of_eq_some f.isAsync (by simp)
  apply bind_of_eq_some f.links (by simp)
  rfl

theorem File.ofJson?_toJson (f : File) : ofJson? f.toJson = some f := by
  simp [ofJson?, toJson, object?, optionalText?]

theorem Corpus.ofJson?_toJson (corpus : Corpus) : ofJson? corpus.toJson = some corpus := by
  have hfiles : filesOfJson? (.object (corpus.files.map fun m => (m.1, m.2.toJson)))
      = some corpus.files := by
    simp only [filesOfJson?, object?, Option.bind_eq_bind, Option.bind_some]
    apply mapM_map_eq_some
    intro m _
    simp [File.ofJson?_toJson]
  simp [ofJson?, toJson, object?, hfiles]

end Declaration

namespace Artifact

theorem payload_print_envelope {key : String} {v : Json} (hkey : key ≠ "v") (h : v.Storable)
    (layout : Layout)
    : payload key ((envelope key v).print layout 0) = .ok v := by
  have hstorable : (envelope key v).Storable := by
    simpa [envelope, h] using Ne.symm hkey
  unfold payload
  rw [parse_print hstorable]
  simp [envelope, lookup?, isVersion, Ne.symm hkey]

section

variable [Codec] [LawfulCodec]

theorem toFile_ofFile {f : File} (h : f.Storable) (hnesting : f.nesting < Codec.limit)
    : toFile (ofFile f) = .ok f := by
  unfold toFile ofFile compact
  rw [payload_print_envelope (by decide) (File.storable_toJson h)]
  simp only [bind, Except.bind]
  rw [LawfulCodec.file.decode?_eq f.ofJson?_toJson hnesting]
  rfl

theorem eq_of_toFile_ofFile {f g : File} (h : f.Storable) (hread : toFile (ofFile f) = .ok g) : g = f := by
  unfold toFile ofFile compact at hread
  rw [payload_print_envelope (by decide) (File.storable_toJson h)] at hread
  simp only [bind, Except.bind] at hread
  split at hread
  next g hdecode =>
    cases hread
    exact Option.some.inj ((LawfulCodec.file.eq_of_decode? hdecode).symm.trans f.ofJson?_toJson)
  next => cases hread

theorem toCorpus_ofCorpus {corpus : Corpus} (h : corpus.Storable) (hnesting : corpus.nesting < Codec.limit)
    (indentation : Option Int)
    : toCorpus (ofCorpus corpus indentation) = .ok corpus := by
  unfold toCorpus ofCorpus
  rw [payload_print_envelope (by decide) (Corpus.storable_toJson h)]
  simp only [bind, Except.bind]
  rw [LawfulCodec.corpus.decode?_eq corpus.ofJson?_toJson hnesting]
  rfl

end

def similarLiterals : File :=
  { aliases := [{ name := "one", base := some (.union [.literal (.string "1"), .literal (.integer 1),
      .literal (.float 1.0), .literal (.boolean true)]) }] }

theorem storable_similarLiterals : similarLiterals.Storable := by
  intro t ht value hvalue
  cases ht with
  | base ha hbase =>
    simp only [similarLiterals, List.mem_singleton] at ha
    subst ha
    cases hbase
    simp at hvalue
    obtain rfl | rfl | rfl | rfl := hvalue
    · trivial
    · show (Nat.toDigits 10 1).length ≤ 4300
      decide
    · trivial
    · trivial
  | member ha hm =>
    simp only [similarLiterals, List.mem_singleton] at ha
    subst ha
    simp at hm
  | key hc => simp [similarLiterals] at hc
  | field hc => simp [similarLiterals] at hc
  | param hf => simp [similarLiterals] at hf
  | result hf => simp [similarLiterals] at hf

def arrays : Nat → TypeExpr
  | 0 => .named "number"
  | n + 1 => .array (arrays n)

theorem nesting_arrays (n : Nat) : (arrays n).nesting = n + 1 := by
  induction n with
  | zero => rfl
  | succ n ih => rw [arrays, TypeExpr.nesting, ih]

theorem storable_arrays (n : Nat) : (arrays n).Storable := by
  intro value hvalue
  induction n with
  | zero => simp [arrays] at hvalue
  | succ n ih =>
    cases hvalue with
    | element h => exact ih h

def aliasOfArrays (n : Nat) : File :=
  { aliases := [{ name := "X", base := some (arrays n) }] }

theorem storable_aliasOfArrays (n : Nat) : (aliasOfArrays n).Storable := by
  intro t ht
  cases ht with
  | base ha hbase =>
    cases List.mem_singleton.1 ha
    cases hbase
    exact storable_arrays n
  | member ha hm =>
    cases List.mem_singleton.1 ha
    cases hm
  | key hc | field hc => cases hc
  | param hf | result hf => cases hf

theorem nesting_aliasOfArrays (n : Nat) : (aliasOfArrays n).nesting = n + 1 := by
  simp [File.nesting, File.types, aliasOfArrays, TypeExpr.listNesting, nesting_arrays]

theorem serialize_aliasOfArrays {n : Nat} (h : Codec.defaultLimit ≤ n + 1)
    : serialize (aliasOfArrays n) = .error (.nested "Circular reference detected (depth exceeded)") := by
  have hencode : Codec.file.encode (aliasOfArrays n) = .error "Circular reference detected (depth exceeded)" := by
    apply if_neg
    rw [nesting_aliasOfArrays]
    omega
  rw [serialize, hencode]
  rfl

end Artifact

end LuaTypes
