import LuaTypes.Text.Blank
import LuaTypes.Token

/-!
The layout of a declaration file. Lines that start with three dashes are documentation; a run of them
forms a block, which belongs to the statement on the next line or, before a blank line or the end of the
file, stands alone. Other comments do not count, and neither does anything between long brackets.
-/

namespace LuaTypes.Declaration

/--
A line of documentation without its dashes and one space after them; the position is that of the first
character of the text.
-/
structure DocLine where
  position : Position
  text : List Char
  deriving DecidableEq

structure Block where
  docs : List DocLine
  statement : Option (List Char)
  line : Nat

def longComment? : List Char → Option (List Char × List Char)
  | '-' :: '-' :: '[' :: cs =>
    match cs.dropWhile (· = '=') with
    | '[' :: rest => some (']' :: (cs.takeWhile (· = '=') ++ [']']), rest)
    | _ => none
  | _ => none

def DocLine.ofLine (line : Nat) (raw : List Char) : DocLine :=
  let start := (raw.takeWhile Text.isBlank).length + 3
  let start := if (raw.drop start).head? = some ' ' then start + 1 else start
  ⟨⟨line, start + 1⟩, Text.stripRight (raw.drop start)⟩

structure OpenComment where
  closing : List Char
  line : Nat

namespace Block

inductive Line where
  | doc (doc : DocLine)
  | blank
  | comment
  | opening (closing : List Char)
  | statement (text : List Char)

def Line.ofText (line : Nat) (raw : List Char) : Line :=
  let stripped := Text.strip raw
  match longComment? stripped with
  | some (closing, rest) => if Text.occursIn closing rest then .comment else .opening closing
  | none =>
    match stripped with
    | [] => .blank
    | '-' :: '-' :: '-' :: _ => .doc (DocLine.ofLine line raw)
    | '-' :: '-' :: _ => .comment
    | _ => .statement stripped

/--
The blocks of the lines from number `line` on, given the long comment and the documentation that are
open before them; and the comment that is open after them. Documentation before an open comment is
dropped with it.
-/
def ofLines (comment : Option OpenComment) (pending : List DocLine) (line : Nat)
    : List (List Char) → List Block × Option OpenComment
  | [] =>
    match comment with
    -- Nothing closes the comment any more, so the documentation before it belongs to nothing.
    | some c => ([], some c)
    | none => (if pending.isEmpty then [] else [⟨pending, none, line⟩], none)
  | raw :: rest =>
    match comment with
    | some c =>
      let comment := if Text.occursIn c.closing (Text.strip raw) then none else some c
      ofLines comment pending (line + 1) rest
    | none =>
      match Line.ofText line raw with
      | .doc doc => ofLines none (pending ++ [doc]) (line + 1) rest
      -- A comment does not part a block from its statement; an empty line does.
      | .comment => ofLines none pending (line + 1) rest
      | .opening closing => ofLines (some ⟨closing, line⟩) pending (line + 1) rest
      | .blank =>
        let (blocks, last) := ofLines none [] (line + 1) rest
        (if pending.isEmpty then blocks else ⟨pending, none, line⟩ :: blocks, last)
      | .statement text =>
        let (blocks, last) := ofLines none [] (line + 1) rest
        (⟨pending, some text, line⟩ :: blocks, last)

end Block

end LuaTypes.Declaration
