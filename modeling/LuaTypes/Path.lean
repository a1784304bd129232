import LuaTypes.Text.Blank

/-!
Paths of files: the names of the directories on the way, from the root of the tree or from the working
directory. Points that stay in a directory are dropped when a path is read; those that leave it remain.
-/

namespace LuaTypes

/--
Where a path starts. Two slashes lead where a single one does, but a path keeps them; more than two are
as good as one.
-/
inductive Path.Start where
  | working
  | root
  | doubledRoot
  deriving DecidableEq, Repr

structure Path where
  start : Path.Start := .working
  parts : List String := []
  deriving DecidableEq, Repr

namespace Path

def Start.ofText (text : List Char) : Start :=
  match (text.takeWhile (· = '/')).length with
  | 0 => .working
  | 2 => .doubledRoot
  | _ => .root

def Start.text : Start → String
  | .working => ""
  | .root => "/"
  | .doubledRoot => "//"

def isAbsolute (p : Path) : Bool :=
  p.start ≠ .working

def up : String := ".."

def ofString (text : String) : Path where
  start := .ofText text.toList
  parts :=
    ((Text.splitAtEach '/' text.toList).filter fun p => p ≠ [] ∧ p ≠ ['.']).map String.ofList

def toString (p : Path) : String :=
  if ! p.isAbsolute && p.parts.isEmpty then "."
  else p.start.text ++ Text.join "/" p.parts

def append (p q : Path) : Path :=
  if q.isAbsolute then q else { p with parts := p.parts ++ q.parts }

def child (p : Path) (text : String) : Path :=
  p.append (ofString text)

def descend (p : Path) (names : List String) : Path :=
  { p with parts := p.parts ++ names }

def hasNull (p : Path) : Bool :=
  p.parts.any (·.toList.contains '\x00')

def parent (p : Path) : Path :=
  { p with parts := p.parts.dropLast }

def relativeTo? (p base : Path) : Option Path :=
  if p.start = base.start ∧ base.parts.isPrefixOf p.parts then
    some { parts := p.parts.drop base.parts.length }
  else none

def settle (names : List String) : List String :=
  names.foldl (fun place name => if name = up then place.dropLast else place ++ [name]) []

end Path

/--
A name without the ending behind its last point. A point at the start or at the end of a name announces
no ending.
-/
def stem (name : String) : String :=
  match Text.splitAtLast? '.' name.toList with
  | none => name
  | some (before, ending) =>
    if before.isEmpty || ending.isEmpty then name else String.ofList before

end LuaTypes
