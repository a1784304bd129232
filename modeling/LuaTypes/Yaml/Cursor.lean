/-!
Places in a YAML text. A cursor knows its line and column, since indentation carries meaning. Lines end
with a line feed, a carriage return or both, with U+0085, and with the separators U+2028 and U+2029.
-/

namespace LuaTypes.Yaml

def isAllowed (c : Char) : Bool :=
  let n := c.toNat
  n == 0x09 || n == 0x0A || n == 0x0D || (0x20 ≤ n && n ≤ 0x7E) || n == 0x85 ||
    (0xA0 ≤ n && n ≤ 0xD7FF) || (0xE000 ≤ n && n ≤ 0xFFFD) || 0x10000 ≤ n

def isBreak (c : Char) : Bool :=
  let n := c.toNat
  n == 0x0A || n == 0x0D || n == 0x85 || n == 0x2028 || n == 0x2029

def endsLine : Option Char → Bool
  | none => true
  | some c => isBreak c

def endsWord (c : Option Char) : Bool :=
  c == some ' ' || endsLine c

def endsWordOrTab (c : Option Char) : Bool :=
  c == some '\t' || endsWord c

def isNameChar (c : Char) : Bool :=
  c.isAlphanum || c == '-' || c == '_'

structure Cursor where
  rest : List Char
  index : Nat := 0
  line : Nat := 0
  column : Nat := 0

namespace Cursor

def byteOrderMark : Char := '\uFEFF'

def ofText (text : List Char) : Cursor where
  rest := text

def peek? (c : Cursor) : Option Char :=
  c.rest.head?

def isAtEnd (c : Cursor) : Bool :=
  c.rest.isEmpty

def next (c : Cursor) : Cursor :=
  match c.rest with
  | [] => c
  | ch :: rest =>
    if isBreak ch && ! (ch == '\r' && rest.head? == some '\n') then ⟨rest, c.index + 1, c.line + 1, 0⟩
    else if ch = byteOrderMark then ⟨rest, c.index + 1, c.line, c.column⟩
    else ⟨rest, c.index + 1, c.line, c.column + 1⟩

def drop : Nat → Cursor → Cursor
  | 0, c => c
  | n + 1, c => drop n c.next

def takeWhile (p : Char → Bool) (c : Cursor) : List Char × Cursor :=
  let taken := c.rest.takeWhile p
  (taken, c.drop taken.length)

def skipWhile (p : Char → Bool) (c : Cursor) : Cursor :=
  (c.takeWhile p).2

def skipSpaces (c : Cursor) : Cursor :=
  c.skipWhile (· == ' ')

def skipSpacesTo (column : Nat) (c : Cursor) : Cursor :=
  c.drop (min (c.rest.takeWhile (· == ' ')).length (column - c.column))

def skipComment (c : Cursor) : Cursor :=
  if c.peek? = some '#' then c.skipWhile (! isBreak ·) else c

/--
Skips the end of a line, if the line ends here. Yields what it stands for in a text: a line feed, but
the separators U+2028 and U+2029 for themselves.
-/
def lineBreak? (c : Cursor) : Option (Char × Cursor) :=
  match c.rest with
  | '\r' :: '\n' :: _ => some ('\n', c.drop 2)
  | ch :: _ =>
    if isBreak ch then some (if ch.toNat < 0x2028 then '\n' else ch, c.next) else none
  | [] => none

def isAtMarker (c : Cursor) : Bool :=
  let marker := c.rest.take 3
  (marker == ['-', '-', '-'] || marker == ['.', '.', '.']) && endsWordOrTab (c.rest.drop 3).head?

end Cursor

end LuaTypes.Yaml
