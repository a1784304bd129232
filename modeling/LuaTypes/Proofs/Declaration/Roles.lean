import LuaTypes.Declaration.Parser
import LuaTypes.Proofs.Except

/-!
What each line of a block is: a tag with its text, an alternative of the alias above it, or prose. A block declares
what its lines add one after the other, and what a line can add is said once, by the relation `Adds`.
-/

namespace LuaTypes

open Text

namespace Declaration

inductive Role where
  | tag (word : String) (text : List Char)
  | member (text : List Char)
  | prose

namespace Role

def ofText (fenced openAlias : Bool) (text : List Char) : Role :=
  if fenced then .prose
  else
    match stripLeft text with
    | '@' :: line => .tag (String.ofList (splitWord line).1) (splitWord line).2
    | '|' :: line => if openAlias then .member (stripLeft line) else .prose
    | _ => .prose

section

variable {text line : List Char} {openAlias : Bool}

theorem ofText_at (h : stripLeft text = '@' :: line)
    : ofText false openAlias text = .tag (String.ofList (splitWord line).1) (splitWord line).2 := by
  rw [ofText, if_neg Bool.false_ne_true, h]
  rfl

theorem ofText_bar (h : stripLeft text = '|' :: line)
    : ofText false openAlias text = if openAlias then .member (stripLeft line) else .prose := by
  rw [ofText, if_neg Bool.false_ne_true, h]
  rfl

theorem ofText_other (htag : ∀ line, stripLeft text ≠ '@' :: line) (hmember : ∀ line, stripLeft text ≠ '|' :: line)
    : ofText false openAlias text = .prose := by
  rw [ofText, if_neg Bool.false_ne_true]
  split
  next line htext => exact absurd htext (htag line)
  next line htext => exact absurd htext (hmember line)
  next => rfl

end

def opensAlias (openAlias : Bool) : Role → Bool
  | .tag word _ => word = "alias"
  | _ => openAlias

end Role

structure Entry where
  doc : DocLine
  role : Role

namespace Entry

def prose? (e : Entry) : Option (List Char) :=
  match e.role with
  | .prose => some e.doc.text
  | _ => none

def tagged? (word : String) (e : Entry) : Option (DocLine × List Char) :=
  match e.role with
  | .tag word' text => if word' = word then some (e.doc, text) else none
  | _ => none

def member? (e : Entry) : Option (DocLine × List Char) :=
  match e.role with
  | .member text => some (e.doc, text)
  | _ => none

def ofDocs (fenced openAlias : Bool) : List DocLine → List Entry
  | [] => []
  | doc :: docs =>
    let fenced := fenced != Annotations.isFence doc
    let role := Role.ofText fenced openAlias doc.text
    ⟨doc, role⟩ :: ofDocs fenced (role.opensAlias openAlias) docs

end Entry

namespace Annotations

variable {a b : Annotations}

def add (a : Annotations) (e : Entry) : Except Error Annotations :=
  match e.role with
  | .tag word text => a.addTag e.doc word text
  | .member text => a.addMember e.doc text
  | .prose => .ok (a.addProse e.doc)

theorem ofDocs_eq_foldlM (a : Annotations) (fenced openAlias : Bool) (docs : List DocLine)
    : a.ofDocs fenced openAlias docs = (Entry.ofDocs fenced openAlias docs).foldlM add a := by
  -- The entries depend on the texts only, so the annotations so far are free.
  induction docs generalizing a fenced openAlias with
  | nil => rfl
  | cons doc docs ih =>
    rw [ofDocs, Entry.ofDocs, List.foldlM_cons]
    dsimp only
    generalize (fenced != isFence doc) = fenced'
    cases fenced' with
    | true => exact ih _ _ _
    | false =>
      rw [if_neg Bool.false_ne_true]
      split
      next line htext =>
        rw [Role.ofText_at htext]
        change _ = a.addTag doc _ _ >>= _
        cases a.addTag doc (String.ofList (splitWord line).1) (splitWord line).2 with
        | error e => rfl
        | ok a => exact ih a _ _
      next line htext =>
        rw [Role.ofText_bar htext]
        cases openAlias with
        | false => exact ih _ _ _
        | true =>
          change _ = a.addMember doc _ >>= _
          cases a.addMember doc (stripLeft line) with
          | error e => rfl
          | ok a => exact ih a _ _
      next htag hmember =>
        rw [Role.ofText_other htag hmember]
        exact ih _ _ _

/-! ### Single lines -/

def note (a : Annotations) (doc : DocLine) : Annotations :=
  { a with functionTag := a.functionTag.or (some doc.position) }

theorem noteTag_eq_note {tag : String} (h : functionTags.contains tag = true) (a : Annotations) (doc : DocLine)
    : a.noteTag doc tag = a.note doc := by
  rw [noteTag, h, Bool.true_and]
  unfold note
  cases hplace : a.functionTag with
  | none => rfl
  | some position => rw [Option.some_or, if_neg (by simp), ← hplace]

theorem noteTag_eq_self {tag : String} (h : functionTags.contains tag = false) (a : Annotations) (doc : DocLine)
    : a.noteTag doc tag = a := by
  rw [noteTag, h, Bool.false_and, if_neg Bool.false_ne_true]

/--
Does the line lead from the annotations `a` to other ones in its role?
-/
inductive Adds (a : Annotations) (doc : DocLine) : Role → Annotations → Prop where
  | prose : Adds a doc .prose (a.addProse doc)
  | member {text m} : parseAliasMember doc text = .ok m →
      Adds a doc (.member text)
        { a with aliases := updateLast (fun x => { x with members := x.members ++ [m] }) a.aliases }
  | marker {text} : Adds a doc (.tag "meta" text) { a with marker := some (String.ofList text) }
  | classType {text c} : parseClass doc text = .ok c →
      Adds a doc (.tag "class" text) { a with classes := a.classes ++ [c] }
  | field {text f} : a.classes ≠ [] → parseField doc text = .ok f → Adds a doc (.tag "field" text) (a.addField f)
  | aliased {text x} : parseAlias doc text = .ok x →
      Adds a doc (.tag "alias" text) { a with aliases := a.aliases ++ [x] }
  | param {text p} : parseParam doc text = .ok p →
      Adds a doc (.tag "param" text) { a.note doc with params := a.params ++ [p] }
  | returned {text r} : parseReturn doc text = .ok r →
      Adds a doc (.tag "return" text) { a.note doc with returns := a.returns ++ [r] }
  | deprecated {text}
      : Adds a doc (.tag "deprecated" text)
          { a.note doc with deprecated := true, deprecationReason := nonEmpty? text }
  | nodiscard {text} : Adds a doc (.tag "nodiscard" text) { a.note doc with nodiscard := true }
  | async {text} : Adds a doc (.tag "async" text) { a.note doc with isAsync := true }
  | link {text l} : parseLink doc text = .ok l →
      Adds a doc (.tag "see" text) { a.note doc with links := a.links ++ [l] }

theorem adds_of_addTag {doc : DocLine} {word : String} {text : List Char} (h : a.addTag doc word text = .ok b)
    : Adds a doc (.tag word text) b := by
  unfold addTag addDeclared at h
  split at h
  next =>
    cases h
    exact .marker
  next =>
    obtain ⟨c, hc, hb⟩ := bind_eq_ok_iff.1 h
    cases hb
    exact .classType hc
  next =>
    rw [noteTag_eq_self rfl] at h
    split at h
    · cases h
    next hne =>
      obtain ⟨f, hf, hb⟩ := bind_eq_ok_iff.1 h
      cases hb
      exact .field (by simpa using hne) hf
  next =>
    obtain ⟨x, hx, hb⟩ := bind_eq_ok_iff.1 h
    cases hb
    exact .aliased hx
  next =>
    rw [noteTag_eq_note rfl] at h
    obtain ⟨p, hp, hb⟩ := bind_eq_ok_iff.1 h
    cases hb
    exact .param hp
  next =>
    rw [noteTag_eq_note rfl] at h
    obtain ⟨r, hr, hb⟩ := bind_eq_ok_iff.1 h
    cases hb
    exact .returned hr
  next =>
    rw [noteTag_eq_note rfl] at h
    cases h
    exact .deprecated
  next =>
    rw [noteTag_eq_note rfl] at h
    cases h
    exact .nodiscard
  next =>
    rw [noteTag_eq_note rfl] at h
    cases h
    exact .async
  next =>
    rw [noteTag_eq_note rfl] at h
    obtain ⟨l, hl, hb⟩ := bind_eq_ok_iff.1 h
    cases hb
    exact .link hl
  next => cases h

theorem add_eq_ok_iff {e : Entry} : a.add e = .ok b ↔ Adds a e.doc e.role b := by
  obtain ⟨doc, role⟩ := e
  constructor
  · intro h
    cases role with
    | tag word text => exact adds_of_addTag h
    | member text =>
      obtain ⟨m, hm, hb⟩ := bind_eq_ok_iff.1 h
      cases hb
      exact .member hm
    | prose =>
      cases h
      exact .prose
  · intro h
    dsimp only at h
    cases h with
    | prose => rfl
    | marker => rfl
    | deprecated | nodiscard | async => exact congrArg Except.ok (by rw [noteTag_eq_note rfl])
    | member hm => exact bind_eq_ok_iff.2 ⟨_, hm, rfl⟩
    | classType hc => exact bind_eq_ok_iff.2 ⟨_, hc, rfl⟩
    | aliased hx => exact bind_eq_ok_iff.2 ⟨_, hx, rfl⟩
    | field hne hf =>
      change (if a.classes.isEmpty then _ else _) = _
      rw [if_neg (by simpa using hne)]
      exact bind_eq_ok_iff.2 ⟨_, hf, rfl⟩
    | param hp => exact bind_eq_ok_iff.2 ⟨_, hp, by rw [noteTag_eq_note rfl]; rfl⟩
    | returned hr => exact bind_eq_ok_iff.2 ⟨_, hr, by rw [noteTag_eq_note rfl]; rfl⟩
    | link hl => exact bind_eq_ok_iff.2 ⟨_, hl, by rw [noteTag_eq_note rfl]; rfl⟩

theorem Adds.prose_eq {e : Entry} (h : Adds a e.doc e.role b) : b.prose = a.prose ++ e.prose?.toList := by
  obtain ⟨doc, role⟩ := e
  cases h <;> simp [Entry.prose?, addProse, addField, note]

theorem prose_of_foldlM {es : List Entry} (h : es.foldlM add a = .ok b)
    : b.prose = a.prose ++ es.filterMap Entry.prose? := by
  induction es generalizing a with
  | nil =>
    cases h
    simp
  | cons e es ih =>
    rw [List.foldlM_cons] at h
    obtain ⟨c, hc, hb⟩ := bind_eq_ok_iff.1 h
    rw [ih hb, (add_eq_ok_iff.1 hc).prose_eq, List.append_assoc, List.filterMap_cons]
    cases e.prose? <;> rfl

end Annotations

/-! ### Descriptions -/

def describeLast (description : Option String) (cs : List ClassType) : List ClassType :=
  updateLast (fun c => { c with description }) cs

def describeFirst (description : Option String) (xs : List Alias) : List Alias :=
  updateFirst (fun x => { x with description }) xs

theorem Annotations.describe_eq (a : Annotations) (description : Option String)
    : a.describe description =
        if a.classes.isEmpty then
          { a with aliases := description.elim a.aliases fun d => describeFirst (some d) a.aliases }
        else { a with classes := description.elim a.classes fun d => describeLast (some d) a.classes } := by
  unfold describe
  cases description with
  | none => simp
  | some d => rfl

/-! ### Blocks -/

namespace File

/--
Do annotations above a statement, or above none, declare a file? Tags that only a function can have stand above a
function.
-/
inductive Settles (a : Annotations) : Option (List Char) → File → Prop where
  | function {text name params} : Statement.parse? text = some (.function name params) →
      Settles a (some text) { addAnnotations {} a with functions := [a.function name params] }
  | detached : a.functionTag = none → Settles a none (addAnnotations {} (a.describe a.description?))
  | table {text name} : a.functionTag = none → Statement.parse? text = some (.table name) →
      Settles a (some text)
        { addAnnotations {} (a.describe a.description?) with
          namespaces := [{ name := String.ofList name, className := a.classes.getLast?.map (·.name) }] }
  | moduleReturn {text name} : a.functionTag = none → Statement.parse? text = some (.moduleReturn name) →
      Settles a (some text)
        { addAnnotations {} (a.describe a.description?) with moduleReturn := some (String.ofList name) }

theorem getLast?_updateLast {α : Type} (u : α → α) (xs : List α)
    : (updateLast u xs).getLast? = xs.getLast?.map u := by
  fun_induction updateLast u xs with
  | case1 => rfl
  | case2 x => rfl
  | case3 x y ys ih =>
    rw [List.getLast?_cons, ih, List.getLast?_cons_cons]
    cases hlast : (y :: ys).getLast? with
    | none => simp at hlast
    | some z => rfl

theorem className_describe (a : Annotations) (description : Option String)
    : (a.describe description).classes.getLast?.map (·.name) = a.classes.getLast?.map (·.name) := by
  unfold Annotations.describe
  split
  · rfl
  · split
    · rfl
    · rw [getLast?_updateLast, Option.map_map]
      rfl

variable {b : Block} {g : File}

theorem addBlock_eq_ok_iff
    : ({} : File).addBlock b = .ok g ↔
        ∃ a, (Entry.ofDocs false false b.docs).foldlM Annotations.add {} = .ok a ∧ Settles a b.statement g := by
  rw [← Annotations.ofDocs_eq_foldlM, addBlock, bind_eq_ok_iff]
  apply exists_congr
  intro a
  apply and_congr_right
  intro _
  dsimp only
  rw [className_describe]
  constructor
  · intro h
    generalize b.statement = statement at h ⊢
    cases statement with
    | none =>
      dsimp only [Option.bind] at h
      split at h
      next => contradiction
      next => cases h
      next => contradiction
      next htag _ =>
        cases h
        exact .detached htag
    | some text =>
      dsimp only [Option.bind] at h
      split at h
      next name params _ hparse =>
        cases h
        exact .function hparse
      next => cases h
      next name params _ hparse =>
        cases h
        exact .function hparse
      next htag _ =>
        split at h
        next => contradiction
        next name _ hparse =>
          cases h
          exact .table htag hparse
        next name _ hparse =>
          cases h
          exact .moduleReturn htag hparse
        next => cases h
  · intro h
    generalize b.statement = statement at h
    cases h with
    | function hparse =>
      dsimp only [Option.bind]
      rw [hparse]
      cases a.functionTag <;> rfl
    | detached htag =>
      rw [htag]
      rfl
    | table htag hparse =>
      dsimp only [Option.bind]
      rw [htag, hparse]
      rfl
    | moduleReturn htag hparse =>
      dsimp only [Option.bind]
      rw [htag, hparse]
      rfl

end File

end Declaration

end LuaTypes
