import LuaTypes.Proofs.Declaration.Roles
import LuaTypes.Proofs.TypeExpr.LongestPrefix

/-!
Where the lines of a block stand decides where its errors are, and never what it declares. Prose among the tags
changes nothing that the tags declare, apart from the description.
-/

namespace LuaTypes

open Text

theorem TypeExpr.parsePrefix_of_ok {text : List Char} {origin : Position} {r : TypeExpr × List Char}
    (h : parsePrefix text origin = .ok r) (origin' : Position)
    : parsePrefix text origin' = .ok r := by
  unfold parsePrefix at h ⊢
  dsimp only at h ⊢
  obtain ⟨⟨t, rest⟩, hrun, hr⟩ := bind_eq_ok_iff.1 h
  obtain ⟨taken, htakes⟩ := Parser.exists_takes_type rfl (Reader.ended_scan text) (run_eq_ok.1 hrun).2
  have hpasses : ∀ l, Reader.Passes { origin := origin', strict := false } l := fun _ _ _ _ => rfl
  refine bind_eq_ok_iff.2 ⟨(t, rest), run_eq_ok.2 ⟨Reader.guardKnown_of_passes (hpasses _), ?_⟩, hr⟩
  rw [htakes.split]
  apply htakes.again _ _ rfl _ taken rest rfl htakes.ended.ne_nil ⟨hpasses _, .inl rfl⟩
  rw [List.length_append]
  omega

namespace Declaration

variable {α β : Type}

/-! ### Tags -/

def Follows (x x' : Except Error α) : Prop :=
  ∀ y, x = .ok y → x' = .ok y

namespace Follows

theorem refl (x : Except Error α) : Follows x x :=
  fun _ h => h

theorem error (e : Error) (x' : Except Error α) : Follows (.error e) x' := by
  rintro _ ⟨⟩

theorem bind {x x' : Except Error α} {k k' : α → Except Error β} (hx : Follows x x') (hk : ∀ a, Follows (k a) (k' a))
    : Follows (x >>= k) (x' >>= k') := by
  intro y hy
  obtain ⟨a, ha, hy⟩ := bind_eq_ok_iff.1 hy
  exact bind_eq_ok_iff.2 ⟨a, hx a ha, hk a y hy⟩

theorem ite {c : Prop} [Decidable c] {x x' y y' : Except Error α} (hx : Follows x x') (hy : Follows y y')
    : Follows (if c then x else y) (if c then x' else y') := by
  split
  · exact hx
  · exact hy

end Follows

section

variable (doc doc' : DocLine) (rest : List Char)

theorem follows_fail (problem : Problem) (x' : Except Error α) : Follows (doc.fail problem) x' :=
  .error _ x'

theorem follows_parseType (fragment : List Char) : Follows (doc.parseType fragment) (doc'.parseType fragment) := by
  intro r h
  unfold DocLine.parseType at h
  split at h
  next r' hr =>
    cases h
    rw [DocLine.parseType, TypeExpr.parsePrefix_of_ok hr]
  next => cases h

theorem follows_parseClass : Follows (parseClass doc rest) (parseClass doc' rest) := by
  unfold parseClass
  exact .ite (follows_fail doc _ _) (.refl _)

theorem follows_parseField : Follows (parseField doc rest) (parseField doc' rest) := by
  unfold parseField
  split
  next inner =>
    apply (follows_parseType doc doc' inner).bind
    rintro ⟨key, after⟩
    dsimp only
    split
    next => exact (follows_parseType doc doc' _).bind fun _ => .refl _
    next => exact .error _ _
  next =>
    split
    next => exact follows_fail doc _ _
    next => exact (follows_parseType doc doc' _).bind fun _ => .refl _

theorem follows_parseAlias : Follows (parseAlias doc rest) (parseAlias doc' rest) := by
  unfold parseAlias
  exact .ite (follows_fail doc _ _) (.ite (.refl _) ((follows_parseType doc doc' _).bind fun _ => .refl _))

theorem follows_parseAliasMember : Follows (parseAliasMember doc rest) (parseAliasMember doc' rest) :=
  (follows_parseType doc doc' rest).bind fun _ => .refl _

theorem follows_parseParam : Follows (parseParam doc rest) (parseParam doc' rest) := by
  unfold parseParam
  split
  next => exact follows_fail doc _ _
  next => exact .ite (follows_fail doc _ _) ((follows_parseType doc doc' _).bind fun _ => .refl _)

theorem follows_parseReturn : Follows (parseReturn doc rest) (parseReturn doc' rest) := by
  unfold parseReturn
  exact .ite (follows_fail doc _ _) ((follows_parseType doc doc' rest).bind fun _ => .refl _)

theorem follows_parseLink : Follows (parseLink doc rest) (parseLink doc' rest) := by
  unfold parseLink
  exact .ite (follows_fail doc _ _) (.refl _)

end

/-! ### Lines -/

namespace Annotations

variable {a a' b : Annotations} {es es' : List Entry}

/--
Are the annotations the same but for prose and the place of the first tag of a function?
-/
structure Agree (a a' : Annotations) : Prop where
  eq : a' = { a with prose := a'.prose, functionTag := a'.functionTag }
  functionTag : a.functionTag = none → a'.functionTag = none

namespace Agree

theorem refl (a : Annotations) : Agree a a :=
  ⟨rfl, id⟩

theorem prose (h : Agree a a') (lines lines' : List (List Char))
    : Agree { a with prose := lines } { a' with prose := lines' } := by
  obtain ⟨heq, htag⟩ := h
  exact ⟨by rw [heq], htag⟩

theorem note (h : Agree a a') (doc doc' : DocLine) : Agree (a.note doc) (a'.note doc') := by
  obtain ⟨heq, htag⟩ := h
  refine ⟨?_, ?_⟩
  · rw [Annotations.note, heq]
    rfl
  · intro hnone
    rw [Annotations.note, Option.or_eq_none_iff] at hnone
    cases hnone.2

end Agree

theorem Adds.of_agree {doc : DocLine} {role : Role} (h : Adds a doc role b) (hagree : Agree a a') (doc' : DocLine)
    : ∃ b', Adds a' doc' role b' ∧ Agree b b' := by
  obtain ⟨lines, place, rfl, htag⟩
      : ∃ lines place, a' = { a with prose := lines, functionTag := place } ∧ (a.functionTag = none → place = none) :=
    ⟨_, _, hagree.eq, hagree.functionTag⟩
  cases h with
  | prose => exact ⟨_, .prose, hagree.prose _ _⟩
  | member hm => exact ⟨_, .member (follows_parseAliasMember _ _ _ _ hm), rfl, htag⟩
  | marker => exact ⟨_, .marker, rfl, htag⟩
  | classType hc => exact ⟨_, .classType (follows_parseClass _ _ _ _ hc), rfl, htag⟩
  | field hne hf => exact ⟨_, .field hne (follows_parseField _ _ _ _ hf), rfl, htag⟩
  | aliased hx => exact ⟨_, .aliased (follows_parseAlias _ _ _ _ hx), rfl, htag⟩
  | param hp =>
    exact ⟨_, .param (follows_parseParam _ _ _ _ hp), rfl, (hagree.note doc doc').functionTag⟩
  | returned hr =>
    exact ⟨_, .returned (follows_parseReturn _ _ _ _ hr), rfl, (hagree.note doc doc').functionTag⟩
  | deprecated => exact ⟨_, .deprecated, rfl, (hagree.note doc doc').functionTag⟩
  | nodiscard => exact ⟨_, .nodiscard, rfl, (hagree.note doc doc').functionTag⟩
  | async => exact ⟨_, .async, rfl, (hagree.note doc doc').functionTag⟩
  | link hl =>
    exact ⟨_, .link (follows_parseLink _ _ _ _ hl), rfl, (hagree.note doc doc').functionTag⟩

end Annotations

/--
Do lines have the same tags and alternatives in the same order? Any prose may stand between them.
-/
inductive Entry.SameTags : List Entry → List Entry → Prop where
  | nil : SameTags [] []
  | left {es es'} (doc : DocLine) : SameTags es es' → SameTags (⟨doc, .prose⟩ :: es) es'
  | right {es es'} (doc : DocLine) : SameTags es es' → SameTags es (⟨doc, .prose⟩ :: es')
  | cons {es es'} (doc doc' : DocLine) (role : Role) : SameTags es es' →
      SameTags (⟨doc, role⟩ :: es) (⟨doc', role⟩ :: es')

namespace Annotations

variable {a a' b : Annotations} {es es' : List Entry}

theorem exists_foldlM_of_sameTags (h : Entry.SameTags es es') (hagree : Agree a a') (hb : es.foldlM add a = .ok b)
    : ∃ b', es'.foldlM add a' = .ok b' ∧ Agree b b' := by
  induction h generalizing a a' with
  | nil =>
    cases hb
    exact ⟨a', rfl, hagree⟩
  | left doc _ ih => exact ih (hagree.prose (a.prose ++ [doc.text]) a'.prose) hb
  | right doc _ ih => exact ih (hagree.prose a.prose (a'.prose ++ [doc.text])) hb
  | cons doc doc' role _ ih =>
    rw [List.foldlM_cons] at hb ⊢
    obtain ⟨c, hc, hb⟩ := bind_eq_ok_iff.1 hb
    obtain ⟨c', hc', hagree⟩ := (add_eq_ok_iff.1 hc).of_agree hagree doc'
    obtain ⟨b', hb', hagree⟩ := ih hagree hb
    exact ⟨b', bind_eq_ok_iff.2 ⟨c', add_eq_ok_iff.2 hc', hb'⟩, hagree⟩

end Annotations

theorem Entry.sameTags_ofDocs {docs docs' : List DocLine} (h : docs.map DocLine.text = docs'.map DocLine.text)
    (fenced openAlias : Bool)
    : SameTags (ofDocs fenced openAlias docs) (ofDocs fenced openAlias docs') ∧
        (ofDocs fenced openAlias docs).filterMap prose? = (ofDocs fenced openAlias docs').filterMap prose? := by
  induction docs generalizing docs' fenced openAlias with
  | nil =>
    rw [List.map_nil, eq_comm, List.map_eq_nil_iff] at h
    rw [h]
    exact ⟨.nil, rfl⟩
  | cons doc docs ih =>
    cases docs' with
    | nil => cases h
    | cons doc' docs' =>
      rw [List.map_cons, List.map_cons, List.cons.injEq] at h
      have hfence : Annotations.isFence doc' = Annotations.isFence doc := by rw [Annotations.isFence, ← h.1]; rfl
      rw [ofDocs, ofDocs, hfence, ← h.1]
      obtain ⟨htags, hprose⟩ := ih h.2 (fenced != Annotations.isFence doc)
        ((Role.ofText (fenced != Annotations.isFence doc) openAlias doc.text).opensAlias openAlias)
      refine ⟨.cons doc doc' _ htags, ?_⟩
      rw [List.filterMap_cons, List.filterMap_cons, hprose]
      simp only [prose?, h.1]

/-! ### Blocks -/

namespace File

variable {a a' : Annotations} {statement : Option (List Char)} {f : File}

theorem addAnnotations_describe (h : a.Agree a') (description : Option String)
    : addAnnotations {} (a'.describe description) = addAnnotations {} (a.describe description) := by
  rw [h.eq]
  unfold Annotations.describe
  split
  · rfl
  · split <;> rfl

theorem Settles.of_agree (h : Settles a statement f) (hagree : a.Agree a') (hprose : a'.prose = a.prose)
    : Settles a' statement f := by
  have hfile : addAnnotations {} (a'.describe a'.description?) = addAnnotations {} (a.describe a.description?) := by
    have hdescription : a'.description? = a.description? := by
      unfold Annotations.description?
      rw [hprose]
    rw [hdescription, addAnnotations_describe hagree]
  have hclasses : a'.classes = a.classes := by rw [hagree.eq]
  cases h with
  | @function text name params hparse =>
    have hfunction : a'.function name params = a.function name params := by
      rw [hagree.eq]
      unfold Annotations.function Annotations.description?
      rw [hprose]
    have hdeclared : addAnnotations {} a' = addAnnotations {} a := by rw [hagree.eq]; rfl
    rw [← hfunction, ← hdeclared]
    exact .function hparse
  | detached hnone =>
    rw [← hfile]
    exact .detached (hagree.functionTag hnone)
  | table hnone hparse =>
    rw [← hfile, ← hclasses]
    exact .table (hagree.functionTag hnone) hparse
  | moduleReturn hnone hparse =>
    rw [← hfile]
    exact .moduleReturn (hagree.functionTag hnone) hparse

theorem addBlock_of_same_texts {b b' : Block} {g : File} (h : addBlock {} b = .ok g)
    (hdocs : b.docs.map DocLine.text = b'.docs.map DocLine.text) (hstatement : b.statement = b'.statement)
    : addBlock {} b' = .ok g := by
  rw [addBlock_eq_ok_iff] at h ⊢
  obtain ⟨a, ha, hsettles⟩ := h
  obtain ⟨htags, hprose⟩ := Entry.sameTags_ofDocs hdocs false false
  obtain ⟨a', ha', hagree⟩ := Annotations.exists_foldlM_of_sameTags htags (.refl {}) ha
  have hlines : a'.prose = a.prose := by
    rw [Annotations.prose_of_foldlM ha', Annotations.prose_of_foldlM ha, hprose]
  exact ⟨a', ha', hstatement ▸ hsettles.of_agree hagree hlines⟩

end File

end Declaration

end LuaTypes
