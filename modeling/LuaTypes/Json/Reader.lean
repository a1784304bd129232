import LuaTypes.Decimal.Number
import LuaTypes.Json

/-!
Reading of JSON. Of members of one name the last one counts. Integers that have too many digits are
refused apart from malformed texts.
-/

namespace LuaTypes.Json

inductive ReadError where
  | malformed
  | number (fault : Decimal.NumberFault)
  deriving DecidableEq, Repr

def isSpace (c : Char) : Bool :=
  c == ' ' || c == '\t' || c == '\n' || c == '\r'

def skipSpaces (cs : List Char) : List Char :=
  cs.dropWhile isSpace

def hexValue? (c : Char) : Option Nat :=
  if c.isDigit then some (c.toNat - 0x30)
  else if 'a' ≤ c ∧ c ≤ 'f' then some (c.toNat - 0x57)
  else if 'A' ≤ c ∧ c ≤ 'F' then some (c.toNat - 0x37)
  else none

def codeUnit? (a b c d : Char) : Option Nat := do
  return (((← hexValue? a) * 16 + (← hexValue? b)) * 16 + (← hexValue? c)) * 16 + (← hexValue? d)

def unescape? : Char → Option Char
  | '"' => some '"'
  | '\\' => some '\\'
  | '/' => some '/'
  | 'b' => some '\x08'
  | 'f' => some '\x0c'
  | 'n' => some '\n'
  | 'r' => some '\r'
  | 't' => some '\t'
  | _ => none

def consChar (c : Char)
    : Except ReadError (List Char × List Char) → Except ReadError (List Char × List Char)
  | .ok (s, rest) => .ok (c :: s, rest)
  | .error e => .error e

def stringBody : List Char → Except ReadError (List Char × List Char)
  | '"' :: cs => .ok ([], cs)
  | '\\' :: 'u' :: a :: b :: c :: d :: cs =>
    match codeUnit? a b c d, cs with
    | none, _ => .error .malformed
    | some high, '\\' :: 'u' :: a :: b :: c :: d :: rest =>
      -- A pair of surrogates is one character; anything else behind a high one stands for itself.
      if Text.isHighSurrogate high then
        match codeUnit? a b c d with
        | none => .error .malformed
        | some low =>
          if Text.isLowSurrogate low then
            consChar (Char.ofNat (0x10000 + (high - 0xD800) * 0x400 + (low - 0xDC00))) (stringBody rest)
          else consChar (Text.ofCodePoint high) (stringBody ('\\' :: 'u' :: a :: b :: c :: d :: rest))
      else consChar (Text.ofCodePoint high) (stringBody ('\\' :: 'u' :: a :: b :: c :: d :: rest))
    | some n, cs => consChar (Text.ofCodePoint n) (stringBody cs)
  | '\\' :: e :: cs =>
    match unescape? e with
    | some c => consChar c (stringBody cs)
    | none => .error .malformed
  | c :: cs => if c.toNat < 0x20 ∨ c = '\\' then .error .malformed else consChar c (stringBody cs)
  | [] => .error .malformed

def minusSign : List Char → List Char × List Char
  | '-' :: cs => (['-'], cs)
  | cs => ([], cs)

def exponentSign : List Char → List Char × List Char
  | '+' :: cs => (['+'], cs)
  | cs => minusSign cs

def wholePart? : List Char → Option (List Char × List Char)
  | '0' :: cs => some (['0'], cs)
  | d :: cs =>
    if d.isDigit then some (d :: cs.takeWhile Char.isDigit, cs.dropWhile Char.isDigit) else none
  | [] => none

def fraction (cs : List Char) : List Char × List Char :=
  match cs with
  | '.' :: d :: ds =>
    if d.isDigit then ('.' :: d :: ds.takeWhile Char.isDigit, ds.dropWhile Char.isDigit) else ([], cs)
  | _ => ([], cs)

def exponent (cs : List Char) : List Char × List Char :=
  match cs with
  | e :: rest =>
    if e = 'e' ∨ e = 'E' then
      let (sign, digits) := exponentSign rest
      if digits.head?.any Char.isDigit then
        (e :: (sign ++ digits.takeWhile Char.isDigit), digits.dropWhile Char.isDigit)
      else ([], cs)
    else ([], cs)
  | [] => ([], cs)

def number (cs : List Char) : Except ReadError (Json × List Char) :=
  let (sign, digits) := minusSign cs
  match wholePart? digits with
  | none => .error .malformed
  | some (whole, rest) =>
    let (places, rest) := fraction rest
    let (power, rest) := exponent rest
    if places.isEmpty && power.isEmpty then
      match Decimal.readInteger (sign ++ whole) with
      | .ok n => .ok (.integer n, rest)
      | .error fault => .error (.number fault)
    else
      match Decimal.readFloat (sign ++ whole ++ places ++ power) with
      | .ok x => .ok (.float x, rest)
      | .error fault => .error (.number fault)

def atom (cs : List Char) : Except ReadError (Json × List Char) :=
  match cs with
  | 'n' :: 'u' :: 'l' :: 'l' :: rest => .ok (.null, rest)
  | 't' :: 'r' :: 'u' :: 'e' :: rest => .ok (.boolean true, rest)
  | 'f' :: 'a' :: 'l' :: 's' :: 'e' :: rest => .ok (.boolean false, rest)
  | 'N' :: 'a' :: 'N' :: rest => .ok (.float Decimal.notANumber, rest)
  | 'I' :: 'n' :: 'f' :: 'i' :: 'n' :: 'i' :: 't' :: 'y' :: rest => .ok (.float Decimal.infinity, rest)
  | '-' :: 'I' :: 'n' :: 'f' :: 'i' :: 'n' :: 'i' :: 't' :: 'y' :: rest =>
    .ok (.float (-Decimal.infinity), rest)
  | cs => number cs

mutual

/--
A value at the start of a text. The fuel bounds the depth of the calls; every other one of them consumes
a character.
-/
def value : (fuel : Nat) → List Char → Except ReadError (Json × List Char)
  | 0, _ => .error .malformed
  | fuel + 1, cs =>
    match cs with
    | '"' :: cs => do
      let (s, rest) ← stringBody cs
      return (.string (String.ofList s), rest)
    | '[' :: cs =>
      match skipSpaces cs with
      | ']' :: rest => .ok (.array [], rest)
      | cs => do
        let (vs, rest) ← items fuel cs
        return (.array vs, rest)
    | '{' :: cs =>
      match skipSpaces cs with
      | '}' :: rest => .ok (.object [], rest)
      | cs => do
        let (ms, rest) ← members fuel cs
        return (.object (ofMembers ms), rest)
    | cs => atom cs

def items : (fuel : Nat) → List Char → Except ReadError (List Json × List Char)
  | 0, _ => .error .malformed
  | fuel + 1, cs => do
    let (v, rest) ← value fuel cs
    match skipSpaces rest with
    | ']' :: rest => return ([v], rest)
    | ',' :: rest =>
      let (vs, rest) ← items fuel (skipSpaces rest)
      return (v :: vs, rest)
    | _ => .error .malformed

def members : (fuel : Nat) → List Char → Except ReadError (List (String × Json) × List Char)
  | 0, _ => .error .malformed
  | fuel + 1, cs =>
    match cs with
    | '"' :: cs => do
      let (k, rest) ← stringBody cs
      match skipSpaces rest with
      | ':' :: rest =>
        let (v, rest) ← value fuel (skipSpaces rest)
        match skipSpaces rest with
        | '}' :: rest => return ([(String.ofList k, v)], rest)
        | ',' :: rest =>
          let (ms, rest) ← members fuel (skipSpaces rest)
          return ((String.ofList k, v) :: ms, rest)
        | _ => .error .malformed
      | _ => .error .malformed
    | _ => .error .malformed

end

def parse (text : String) : Except ReadError Json := do
  let cs := text.toList
  let (v, rest) ← value (2 * cs.length + 2) (skipSpaces cs)
  if (skipSpaces rest).isEmpty then return v else .error .malformed

end LuaTypes.Json
