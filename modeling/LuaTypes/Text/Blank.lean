/-!
Blanks, words and lines of a text. A text is a list of characters here; the blanks are all white space
of Unicode together with the information separators U+001C to U+001F.
-/

namespace LuaTypes.Text

def isBlank (c : Char) : Bool :=
  let n := c.toNat
  (0x09 ≤ n && n ≤ 0x0D) || (0x1C ≤ n && n ≤ 0x20) || n == 0x85 || n == 0xA0 || n == 0x1680 ||
    (0x2000 ≤ n && n ≤ 0x200A) || n == 0x2028 || n == 0x2029 || n == 0x202F || n == 0x205F ||
    n == 0x3000

def isLineBreak (c : Char) : Bool :=
  let n := c.toNat
  (0x0A ≤ n && n ≤ 0x0D) || (0x1C ≤ n && n ≤ 0x1E) || n == 0x85 || n == 0x2028 || n == 0x2029

theorem isBlank_of_isLineBreak {c : Char} (h : isLineBreak c = true) : isBlank c = true := by
  simp [isLineBreak, isBlank] at *
  omega

def stripLeft (s : List Char) : List Char :=
  s.dropWhile isBlank

def stripRight : List Char → List Char
  | [] => []
  | c :: cs =>
    match stripRight cs with
    | [] => if isBlank c then [] else [c]
    | rest => c :: rest

def strip (s : List Char) : List Char :=
  stripRight (stripLeft s)

def splitWord (s : List Char) : List Char × List Char :=
  let s := stripLeft s
  (s.takeWhile (! isBlank ·), strip (s.dropWhile (! isBlank ·)))

/--
The lines of a text without their ends. A carriage return and the line feed after it end one line, and
the end of the text ends a line only if something stands on it.
-/
def lines : List Char → List (List Char)
  | [] => []
  | '\r' :: '\n' :: cs => [] :: lines cs
  | c :: cs =>
    if isLineBreak c then [] :: lines cs
    else match lines cs with
      | [] => [[c]]
      | l :: ls => (c :: l) :: ls

def unifyLineEnds : List Char → List Char
  | [] => []
  | '\r' :: '\n' :: cs => '\n' :: unifyLineEnds cs
  | c :: cs => (if c = '\r' then '\n' else c) :: unifyLineEnds cs

def splitAtEach (separator : Char) : List Char → List (List Char)
  | [] => [[]]
  | c :: cs =>
    if c = separator then [] :: splitAtEach separator cs
    else match splitAtEach separator cs with
      | [] => [[c]]
      | p :: ps => (c :: p) :: ps

def splitAtLast? (separator : Char) : List Char → Option (List Char × List Char)
  | [] => none
  | c :: cs =>
    match splitAtLast? separator cs with
    | some (before, after) => some (c :: before, after)
    | none => if c = separator then some ([], cs) else none

def indexOf? (fragment : List Char) : List Char → Option Nat
  | [] => if fragment.isEmpty then some 0 else none
  | c :: cs =>
    if fragment.isPrefixOf (c :: cs) then some 0
    else (indexOf? fragment cs).map (· + 1)

def occursIn (fragment text : List Char) : Bool :=
  (indexOf? fragment text).isSome

def join (separator : String) (texts : List String) : String :=
  separator.intercalate texts

end LuaTypes.Text
