import LuaTypes.Decimal.Number
import LuaTypes.Json

/-!
Writing of JSON in ASCII characters, either on one line without spaces or with each item on a line of
its own; and the text of a value as messages show it.
-/

namespace LuaTypes.Json

def floatNames : Decimal.FloatNames := ⟨"Infinity", "NaN"⟩

def escapeUnit (n : Nat) : List Char :=
  '\\' :: 'u' :: Text.hexDigits 4 n

def escapePair (c : Char) : List Char :=
  let n := c.toNat - 0x10000
  escapeUnit (0xD800 + n / 0x400) ++ escapeUnit (0xDC00 + n % 0x400)

def escapeChar (c : Char) : List Char :=
  if c = '"' then ['\\', '"']
  else if c = '\\' then ['\\', '\\']
  else if c = '\n' then ['\\', 'n']
  else if c = '\r' then ['\\', 'r']
  else if c = '\t' then ['\\', 't']
  else if c.toNat = 0x08 then ['\\', 'b']
  else if c.toNat = 0x0C then ['\\', 'f']
  else if 0x20 ≤ c.toNat ∧ c.toNat < 0x7F then [c]
  else if Text.codePoint c < 0x10000 then escapeUnit (Text.codePoint c)
  else escapePair c

/--
The characters of a string. A high surrogate and a low one behind it would be one character, so that two
characters that could stand in for them stand for themselves.
-/
def escape : List Char → List Char
  | [] => []
  | [c] => escapeChar c
  | c :: d :: cs =>
    if Text.isHighSurrogate (Text.codePoint c) && Text.isLowSurrogate (Text.codePoint d) then
      escapePair c ++ escapePair d ++ escape cs
    else escapeChar c ++ escape (d :: cs)

def printString (s : String) : String :=
  String.ofList ('"' :: (escape s.toList ++ ['"']))

/--
How the parts of arrays and objects are set apart: all on one line, or each on a line of its own that is
indented by some spaces for every level.
-/
inductive Layout where
  | compact
  | indented (spaces : Nat)
  deriving DecidableEq, Repr

namespace Layout

def lineStart (layout : Layout) (depth : Nat) : String :=
  match layout with
  | .compact => ""
  | .indented spaces => String.ofList ('\n' :: List.replicate (spaces * depth) ' ')

def colon : Layout → String
  | .compact => ":"
  | .indented _ => ": "

end Layout

mutual

def print (layout : Layout) (depth : Nat) : Json → String
  | .null => "null"
  | .boolean true => "true"
  | .boolean false => "false"
  | .integer value => Decimal.integerText value
  | .float value => Decimal.floatText floatNames value
  | .string value => printString value
  | .array [] => "[]"
  | .array (v :: vs) =>
    "[" ++ layout.lineStart (depth + 1) ++ print layout (depth + 1) v ++
      printItems layout (depth + 1) vs ++ layout.lineStart depth ++ "]"
  | .object [] => "\x7b\x7d"
  | .object ((k, v) :: ms) =>
    "\x7b" ++ layout.lineStart (depth + 1) ++ printString k ++ layout.colon ++
      print layout (depth + 1) v ++ printMembers layout (depth + 1) ms ++
      layout.lineStart depth ++ "\x7d"

def printItems (layout : Layout) (depth : Nat) : List Json → String
  | [] => ""
  | v :: vs => "," ++ layout.lineStart depth ++ print layout depth v ++ printItems layout depth vs

def printMembers (layout : Layout) (depth : Nat) : List (String × Json) → String
  | [] => ""
  | (k, v) :: ms =>
    "," ++ layout.lineStart depth ++ printString k ++ layout.colon ++ print layout depth v ++
      printMembers layout depth ms

end

def compact (v : Json) : String :=
  v.print .compact 0

mutual

def display : Json → String
  | .null => "None"
  | .boolean true => "True"
  | .boolean false => "False"
  | .integer value => Decimal.integerText value
  | .float value => Decimal.floatText ⟨"inf", "nan"⟩ value
  | .string value => Text.quoted value
  | .array items => "[" ++ Text.join ", " (displayItems items) ++ "]"
  | .object members => "\x7b" ++ Text.join ", " (displayMembers members) ++ "\x7d"

def displayItems : List Json → List String
  | [] => []
  | v :: vs => v.display :: displayItems vs

def displayMembers : List (String × Json) → List String
  | [] => []
  | (k, v) :: ms => (Text.quoted k ++ ": " ++ v.display) :: displayMembers ms

end

end LuaTypes.Json
