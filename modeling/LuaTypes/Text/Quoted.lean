import LuaTypes.Text.Printable
import LuaTypes.Text.Surrogate

/-!
Quoted texts, as messages show them. The quotation marks are single unless only double ones save an
escape; a backslash stands before the mark and before itself, and characters that are not printable are
written by their code points.
-/

namespace LuaTypes.Text

def hexDigits (width n : Nat) : List Char :=
  let digits := Nat.toDigits 16 n
  List.replicate (width - digits.length) '0' ++ digits

namespace Quoted

def encodeChar (mark c : Char) : List Char :=
  if c = mark || c = '\\' then ['\\', c]
  else if c = '\n' then ['\\', 'n']
  else if c = '\r' then ['\\', 'r']
  else if c = '\t' then ['\\', 't']
  else if isPrintable c then [c]
  else
    let n := codePoint c
    if n < 0x100 then '\\' :: 'x' :: hexDigits 2 n
    else if n < 0x10000 then '\\' :: 'u' :: hexDigits 4 n
    else '\\' :: 'U' :: hexDigits 8 n

def mark (s : List Char) : Char :=
  if s.contains '\'' && ! s.contains '"' then '"' else '\''

end Quoted

def quoted (s : String) : String :=
  let mark := Quoted.mark s.toList
  String.ofList (mark :: (s.toList.flatMap (Quoted.encodeChar mark) ++ [mark]))

end LuaTypes.Text
