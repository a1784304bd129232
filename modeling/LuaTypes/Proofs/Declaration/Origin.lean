import LuaTypes.Declaration.Parser
import LuaTypes.Proofs.TypeExpr.Origin

/-!
Documentation some lines further down declares the same, and its errors are as many lines further down. A line
number reaches an error through the position of its line of documentation, or as that of a statement.
-/

namespace LuaTypes

namespace Declaration

variable {α β : Type} {n : Nat}

/--
Is the second result that of the same text some lines further down? What of a value depends on lines is moved by the
function.
-/
def Moved (n : Nat) (f : α → α) (x x' : Except Error α) : Prop :=
  x' = (x.map f).mapError (·.down n)

namespace Moved

theorem ok {f : α → α} (a : α) : Moved n f (.ok a) (.ok (f a)) :=
  rfl

theorem grammar {f : α → α} (problem : Problem) (position : Position)
    : Moved n f (.error (.grammar problem position)) (.error (.grammar problem (position.down n))) :=
  rfl

theorem bind {f : α → α} {g : β → β} {x x' : Except Error α} {k k' : α → Except Error β} (hx : Moved n f x x')
    (hk : ∀ a, Moved n g (k a) (k' (f a)))
    : Moved n g (x >>= k) (x' >>= k') := by
  rw [hx]
  cases x with
  | ok a => exact hk a
  | error e => rfl

theorem ite {f : α → α} {c : Prop} [Decidable c] {x x' y y' : Except Error α} (hx : Moved n f x x')
    (hy : Moved n f y y')
    : Moved n f (if c then x else y) (if c then x' else y') := by
  split
  · exact hx
  · exact hy

end Moved

/-! ### Tags -/

def DocLine.down (n : Nat) (doc : DocLine) : DocLine :=
  { doc with position := doc.position.down n }

theorem DocLine.text_down (doc : DocLine) : (doc.down n).text = doc.text :=
  rfl

theorem DocLine.positionOf_down (doc : DocLine) (fragment : List Char)
    : (doc.down n).positionOf fragment = (doc.positionOf fragment).down n := by
  unfold DocLine.positionOf
  split <;> rfl

variable (doc : DocLine) (rest : List Char)

theorem moved_fail (f : α → α) (problem : Problem) : Moved n f (doc.fail problem) ((doc.down n).fail problem) :=
  .grammar problem doc.position

theorem moved_parseType (fragment : List Char)
    : Moved n id (doc.parseType fragment) ((doc.down n).parseType fragment) := by
  unfold DocLine.parseType
  rw [DocLine.positionOf_down, TypeExpr.parsePrefix_down]
  cases TypeExpr.parsePrefix fragment (doc.positionOf fragment) with
  | ok r => rfl
  | error e => exact congrArg Except.error (ReadError.map_down n Problem.type e)

theorem moved_parseClass : Moved n id (parseClass doc rest) (parseClass (doc.down n) rest) := by
  unfold parseClass
  dsimp only
  split
  · exact moved_fail doc id _
  · exact .ok _

theorem moved_parseField : Moved n id (parseField doc rest) (parseField (doc.down n) rest) := by
  unfold parseField
  split
  next inner =>
    apply (moved_parseType doc inner).bind
    rintro ⟨key, after⟩
    dsimp only [id]
    split
    next => exact (moved_parseType doc _).bind fun _ => .ok _
    next =>
      rw [DocLine.positionOf_down]
      exact .grammar _ _
  next =>
    split
    next => exact moved_fail doc id _
    next => exact (moved_parseType doc _).bind fun _ => .ok _

theorem moved_parseAlias : Moved n id (parseAlias doc rest) (parseAlias (doc.down n) rest) := by
  unfold parseAlias
  dsimp only
  split
  · exact moved_fail doc id _
  · split
    · exact .ok _
    · exact (moved_parseType doc _).bind fun _ => .ok _

theorem moved_parseAliasMember : Moved n id (parseAliasMember doc rest) (parseAliasMember (doc.down n) rest) :=
  (moved_parseType doc rest).bind fun _ => .ok _

theorem moved_parseParam : Moved n id (parseParam doc rest) (parseParam (doc.down n) rest) := by
  unfold parseParam
  split
  next => exact moved_fail doc id _
  next =>
    split
    · exact moved_fail doc id _
    · exact (moved_parseType doc _).bind fun _ => .ok _

theorem moved_parseReturn : Moved n id (parseReturn doc rest) (parseReturn (doc.down n) rest) := by
  unfold parseReturn
  split
  · exact moved_fail doc id _
  · exact (moved_parseType doc rest).bind fun _ => .ok _

theorem moved_parseLink : Moved n id (parseLink doc rest) (parseLink (doc.down n) rest) := by
  unfold parseLink
  dsimp only
  split
  · exact moved_fail doc id _
  · exact .ok _

/-! ### Blocks -/

namespace Annotations

def down (n : Nat) (a : Annotations) : Annotations :=
  { a with functionTag := a.functionTag.map (·.down n) }

variable (a : Annotations)

theorem noteTag_down (tag : String) : (a.down n).noteTag (doc.down n) tag = (a.noteTag doc tag).down n := by
  have hnone : (a.down n).functionTag.isNone = a.functionTag.isNone := Option.isNone_map
  unfold noteTag
  rw [hnone]
  split <;> rfl

theorem moved_addDeclared (tag : String)
    : Moved n (down n) (a.addDeclared doc tag rest) ((a.down n).addDeclared (doc.down n) tag rest) := by
  unfold addDeclared
  split
  · exact .ok _
  · exact (moved_parseClass doc rest).bind fun _ => .ok _
  · exact .ite (moved_fail doc _ _) ((moved_parseField doc rest).bind fun _ => .ok _)
  · exact (moved_parseAlias doc rest).bind fun _ => .ok _
  · exact (moved_parseParam doc rest).bind fun _ => .ok _
  · exact (moved_parseReturn doc rest).bind fun _ => .ok _
  · exact .ok _
  · exact .ok _
  · exact .ok _
  · exact (moved_parseLink doc rest).bind fun _ => .ok _
  · exact moved_fail doc _ _

theorem moved_addTag (tag : String)
    : Moved n (down n) (a.addTag doc tag rest) ((a.down n).addTag (doc.down n) tag rest) := by
  unfold addTag
  rw [noteTag_down]
  exact moved_addDeclared doc rest (a.noteTag doc tag) tag

theorem moved_addMember : Moved n (down n) (a.addMember doc rest) ((a.down n).addMember (doc.down n) rest) :=
  (moved_parseAliasMember doc rest).bind fun _ => .ok _

theorem moved_ofDocs (fenced openAlias : Bool) (docs : List DocLine)
    : Moved n (down n) (a.ofDocs fenced openAlias docs) ((a.down n).ofDocs fenced openAlias (docs.map (·.down n))) := by
  induction docs generalizing a fenced openAlias with
  | nil => exact .ok a
  | cons doc docs ih =>
    have hfence : isFence (doc.down n) = isFence doc := rfl
    have hprose := fun fenced => ih (a.addProse doc) fenced openAlias
    rw [List.map_cons, ofDocs, ofDocs, hfence, DocLine.text_down]
    dsimp only
    apply Moved.ite (hprose _)
    split
    next =>
      rw [moved_addTag]
      cases a.addTag doc _ _ with
      | error e => rfl
      | ok a => exact ih a _ _
    next =>
      apply Moved.ite _ (hprose _)
      rw [moved_addMember]
      cases a.addMember doc _ with
      | error e => rfl
      | ok a => exact ih a _ _
    next => exact hprose _

theorem describe_down (description : Option String)
    : (a.down n).describe description = (a.describe description).down n := by
  unfold describe
  split
  · rfl
  · rw [apply_ite (down n)]
    rfl

end Annotations

def Block.down (n : Nat) (b : Block) : Block :=
  { b with docs := b.docs.map (·.down n), line := b.line + n }

namespace File

variable (f : File)

theorem moved_addBlock (b : Block) : Moved n id (f.addBlock b) (f.addBlock (b.down n)) := by
  unfold addBlock
  apply (Annotations.moved_ofDocs {} false false b.docs).bind
  intro a
  dsimp only [Block.down]
  rw [Annotations.describe_down]
  -- What becomes of the annotations is decided by the tag of a function and the statement.
  generalize b.statement.bind Statement.parse? = statement
  cases htag : a.functionTag with
  | some position =>
    have hdown : (a.down n).functionTag = some (position.down n) := by rw [Annotations.down, htag, Option.map_some]
    rw [hdown]
    cases statement with
    | none => rfl
    | some s => cases s <;> rfl
  | none =>
    have hdown : (a.down n).functionTag = none := by rw [Annotations.down, htag, Option.map_none]
    rw [hdown]
    cases statement with
    | none => cases b.statement <;> rfl
    | some s => cases s <;> cases b.statement <;> rfl

theorem moved_addBlocks (bs : List Block) : Moved n id (f.addBlocks bs) (f.addBlocks (bs.map (·.down n))) := by
  induction bs generalizing f with
  | nil => exact .ok f
  | cons b bs ih =>
    rw [List.map_cons, addBlocks, addBlocks, moved_addBlock]
    cases f.addBlock b with
    | ok f => exact ih f
    | error e => rfl

end File

/-! ### Layout -/

def OpenComment.down (n : Nat) (c : OpenComment) : OpenComment :=
  { c with line := c.line + n }

namespace Block

def Line.down (n : Nat) : Line → Line
  | .doc doc => .doc (doc.down n)
  | .blank => .blank
  | .comment => .comment
  | .opening closing => .opening closing
  | .statement text => .statement text

theorem Line.ofText_down (line : Nat) (raw : List Char) : ofText (line + n) raw = (ofText line raw).down n := by
  unfold ofText
  dsimp only
  split
  · split <;> rfl
  · split <;> rfl

theorem ofLines_down (comment : Option OpenComment) (pending : List DocLine) (line : Nat) (ls : List (List Char))
    : ofLines (comment.map (·.down n)) (pending.map (·.down n)) (line + n) ls
        = ((ofLines comment pending line ls).1.map (·.down n), (ofLines comment pending line ls).2.map (·.down n)) := by
  induction ls generalizing comment pending line with
  | nil =>
    cases comment with
    | some c => rfl
    | none => cases pending <;> rfl
  | cons raw ls ih =>
    have hnext : line + n + 1 = line + 1 + n := by omega
    cases comment with
    | some c =>
      have hclose : (if Text.occursIn c.closing (Text.strip raw) then none else some (c.down n))
          = (if Text.occursIn c.closing (Text.strip raw) then none else some c).map (·.down n) := by
        split <;> rfl
      rw [ofLines, ← ih, ← hclose, ← hnext]
      rfl
    | none =>
      have hdetached : ofLines none [] (line + 1 + n) ls
          = ((ofLines none [] (line + 1) ls).1.map (·.down n), (ofLines none [] (line + 1) ls).2.map (·.down n)) :=
        ih none [] (line + 1)
      rw [Option.map_none, ofLines, ofLines, Line.ofText_down, hnext]
      cases Line.ofText line raw with
      | doc doc =>
        have hpending := ih none (pending ++ [doc]) (line + 1)
        rw [List.map_append] at hpending
        exact hpending
      | comment => exact ih none pending (line + 1)
      | opening closing => exact ih (some ⟨closing, line⟩) pending (line + 1)
      | blank =>
        dsimp only [Line.down]
        rw [hdetached]
        cases pending <;> rfl
      | statement text =>
        dsimp only [Line.down]
        rw [hdetached]
        rfl

end Block

end Declaration

end LuaTypes
