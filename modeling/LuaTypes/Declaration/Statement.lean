import LuaTypes.Text.Blank
import LuaTypes.Text.Numeral

/-!
The statements that a declaration file may hold: a function without a body, an empty table, and the
return of a name. A local function or table counts as a global one.
-/

namespace LuaTypes.Declaration

inductive Statement where
  | function (name : List Char) (params : List String)
  | table (name : List Char)
  | moduleReturn (name : List Char)

def afterWord? (word : List Char) (s : List Char) : Option (List Char) :=
  if word.isPrefixOf s && (s.drop word.length).head?.any Text.isBlank then
    some (Text.stripLeft (s.drop word.length))
  else none

def splitName? (inName : Char → Bool) : List Char → Option (List Char × List Char)
  | [] => none
  | c :: cs =>
    if Text.isIdentifierStart c then some (c :: cs.takeWhile inName, cs.dropWhile inName) else none

def inDottedName (c : Char) : Bool :=
  Text.isWordChar c || c == '.'

def inFunctionName (c : Char) : Bool :=
  inDottedName c || c == ':'

def nonBlankParts (s : List Char) : List String :=
  ((Text.splitAtEach ',' s).map Text.strip).filterMap fun p =>
    if p.isEmpty then none else some (String.ofList p)

namespace Statement

def function? (s : List Char) : Option Statement := do
  let s := (afterWord? ['l', 'o', 'c', 'a', 'l'] s).getD s
  let s ← afterWord? ['f', 'u', 'n', 'c', 't', 'i', 'o', 'n'] s
  let (name, s) ← splitName? inFunctionName s
  match Text.stripLeft s with
  | '(' :: s =>
    match s.dropWhile (· ≠ ')') with
    | ')' :: tail =>
      if Text.stripLeft tail = ['e', 'n', 'd'] then
        some (.function name (nonBlankParts (s.takeWhile (· ≠ ')'))))
      else none
    | _ => none
  | _ => none

def assignment? (s : List Char) : Option Statement := do
  let (name, s) ← splitName? inDottedName s
  match Text.stripLeft s with
  | '=' :: s =>
    match Text.stripLeft s with
    | '{' :: s => if Text.stripLeft s = ['}'] then some (.table name) else none
    | _ => none
  | _ => none

/--
The word `local` is passed over unless it is the name itself.
-/
def table? (s : List Char) : Option Statement :=
  match (afterWord? ['l', 'o', 'c', 'a', 'l'] s).bind assignment? with
  | some t => some t
  | none => assignment? s

def moduleReturn? (s : List Char) : Option Statement := do
  let s ← afterWord? ['r', 'e', 't', 'u', 'r', 'n'] s
  let (name, s) ← splitName? inDottedName s
  if s.isEmpty then some (.moduleReturn name) else none

def parse? (s : List Char) : Option Statement :=
  match function? s with
  | some f => some f
  | none =>
    match table? s with
    | some t => some t
    | none => moduleReturn? s

end Statement

end LuaTypes.Declaration
