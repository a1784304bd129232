import LuaTypes.FileTree
import LuaTypes.Text.Quoted
import LuaTypes.Text.Utf8

/-!
Access to the files of a tree by their paths. All directories on a path have to be there, and neither
the path nor a name may be too long. Files are read and written as texts in UTF-8; in a text that is read
every end of a line is a line feed.
-/

namespace LuaTypes.FileTree

inductive Fault where
  | notFound
  | alreadyExists
  | notDirectory
  | isDirectory
  | tooLong
  | nullCharacter
  deriving DecidableEq, Repr

namespace Fault

/--
Is the fault found by the system of files? It does not even get to see a path with a null character.
-/
def isOfSystem (f : Fault) : Bool :=
  f ≠ .nullCharacter

def message : Fault → String
  | .notFound => "[Errno 2] No such file or directory"
  | .alreadyExists => "[Errno 17] File exists"
  | .notDirectory => "[Errno 20] Not a directory"
  | .isDirectory => "[Errno 21] Is a directory"
  | .tooLong => "[Errno 36] File name too long"
  | .nullCharacter => "embedded null byte"

end Fault

structure AccessError where
  fault : Fault
  path : Path
  deriving DecidableEq, Repr

def AccessError.message (e : AccessError) : String :=
  if e.fault.isOfSystem then e.fault.message ++ ": " ++ Text.quoted e.path.toString
  else e.fault.message

inductive TextError where
  | access (error : AccessError)
  | encoding (error : Text.Utf8Error)
  deriving DecidableEq, Repr

namespace TextError

def encodingMessage (e : Text.Utf8Error) : String :=
  let place :=
    if e.length = 1 then
      "byte 0x" ++ String.ofList (Text.hexDigits 2 e.first.toNat) ++ " in position " ++ toString e.offset
    else "bytes in position " ++ toString e.offset ++ "-" ++ toString (e.offset + e.length - 1)
  "'utf-8' codec can't decode " ++ place ++ ": " ++ e.fault.message

def message : TextError → String
  | .access e => e.message
  | .encoding e => encodingMessage e

end TextError

/-! Places -/

def nameLimit : Nat := 255

def pathLimit : Nat := 4095

def walk (t : FileTree) (place : Location) : List String → Except Fault Location
  | [] => .ok place
  | name :: names =>
    match t.lookup? place with
    | none => .error .notFound
    | some (.file ..) => .error .notDirectory
    | some (.directory _) =>
      if nameLimit < name.utf8ByteSize then .error .tooLong
      else walk t (if name = Path.up then place.dropLast else place ++ [name]) names

def locate (t : FileTree) (p : Path) : Except Fault Location :=
  if p.hasNull then .error .nullCharacter
  else if pathLimit < p.toString.utf8ByteSize then .error .tooLong
  else t.walk (if p.isAbsolute then [] else t.working) p.parts

/--
What a path leads to. A path that leads nowhere is no error, but one that is too long is.
-/
def find? (t : FileTree) (p : Path) : Except AccessError (Option Entry) :=
  match t.locate p with
  | .ok place => .ok (t.lookup? place)
  | .error .tooLong => .error ⟨.tooLong, p⟩
  | .error _ => .ok none

def contains (t : FileTree) (p : Path) : Except AccessError Bool := do
  return (← t.find? p).isSome

def isDirectory (t : FileTree) (p : Path) : Except AccessError Bool := do
  return (← t.find? p).any (·.isDirectory)

def settled (t : FileTree) (p : Path) : Path where
  start := .root
  parts := Path.settle ((if p.isAbsolute then [] else t.working) ++ p.parts)

def resolve (t : FileTree) (p : Path) : Except AccessError Path :=
  if p.hasNull then .error ⟨.nullCharacter, p⟩ else .ok (t.settled p)

/-! Reading -/

def readBytes (t : FileTree) (p : Path) : Except AccessError (List UInt8) :=
  match t.locate p with
  | .error fault => .error ⟨fault, p⟩
  | .ok place =>
    match t.lookup? place with
    | none => .error ⟨.notFound, p⟩
    | some (.directory _) => .error ⟨.isDirectory, p⟩
    | some (.file content _) => .ok content

def readText (t : FileTree) (p : Path) : Except TextError String :=
  match t.readBytes p with
  | .error e => .error (.access e)
  | .ok bytes =>
    match Text.decodeUtf8 bytes with
    | .error e => .error (.encoding e)
    | .ok text => .ok (String.ofList (Text.unifyLineEnds text))

def hasSuffix (suffix name : String) : Bool :=
  suffix.toList.isSuffixOf name.toList

def filesBelow (t : FileTree) (directory : Path) (suffix : String) : List (List String) :=
  match t.locate directory with
  | .error _ => []
  | .ok place =>
    if ! t.isDirectoryAt place then []
    else
      let files := t.entries.filter fun (l, e) =>
        e.isFile && place.isPrefixOf l && l.getLast?.any (hasSuffix suffix)
      (files.map fun (l, _) => l.drop place.length).mergeSort fun a b => ! (b < a : Bool)

/-! Writing -/

abbrev Action (ε α : Type) := EStateM ε FileTree α

def writeText (now : Int) (p : Path) (text : String) : Action AccessError Unit := do
  let t ← get
  match t.locate p with
  | .error fault => throw ⟨fault, p⟩
  | .ok place =>
    match t.lookup? place with
    | some (.directory _) => throw ⟨.isDirectory, p⟩
    | _ => set (t.insert place (.file (Text.encodeUtf8 text.toList) now))

def makeDirectory (now : Int) (p : Path) : Action AccessError Unit := do
  let t ← get
  match t.locate p with
  | .error fault => throw ⟨fault, p⟩
  | .ok place =>
    if (t.lookup? place).isSome then throw ⟨.alreadyExists, p⟩
    else set (t.insert place (.directory now))

def keepDirectory (p : Path) (e : AccessError) : Action AccessError Unit := do
  match (← get).isDirectory p with
  | .ok true => return ()
  | _ => throw e

def ensureDirectory (now : Int) (p : Path) : Action AccessError Unit := do
  try makeDirectory now p
  catch e => keepDirectory p e

def ensureDirectories (now : Int) : Nat → Path → Action AccessError Unit
  | 0, p => ensureDirectory now p
  | levels + 1, p => do
    try makeDirectory now p
    catch e =>
      -- A directory on the way is missing: make that one, then try again.
      if e.fault = .notFound then do
        ensureDirectories now levels p.parent
        ensureDirectory now p
      else keepDirectory p e

def ensurePath (now : Int) (p : Path) : Action AccessError Unit :=
  ensureDirectories now p.parts.length p

end LuaTypes.FileTree
