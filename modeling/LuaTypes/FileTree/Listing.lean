import LuaTypes.FileTree.Access

/-!
Trees of files in exchange with a file system: a tree is built from a listing of files, and a change of a
tree is told as the entries that are new. A line of a listing holds the kind of an entry, `f` or `d`, the
time of its last change in seconds with a fraction, and its path.
-/

namespace LuaTypes.FileTree

structure Listed where
  directory : Bool
  modified : Int
  path : Path
  deriving DecidableEq, Repr

namespace Listed

/--
The time counts units of the last place of the fraction, which a listing has in one length only.
-/
def ofLine? (line : String) : Option Listed :=
  match Text.splitAtEach ' ' line.toList with
  | kind :: time :: path =>
    match (String.ofList (time.filter (· ≠ '.'))).toInt? with
    | none => none
    | some modified =>
      let path := Path.ofString (Text.join " " (path.map String.ofList))
      match kind with
      | ['f'] => some ⟨false, modified, path⟩
      | ['d'] => some ⟨true, modified, path⟩
      | _ => none
  | _ => none

def toEntry (l : Listed) (content : List UInt8) : Entry :=
  if l.directory then .directory l.modified else .file content l.modified

end Listed

def ofListing (working : Path) (files : List (Listed × List UInt8)) : FileTree :=
  let place := Path.settle working.parts
  let empty : FileTree :=
    { working := place
      entries := (List.range place.length).map fun n => (place.take (n + 1), .directory 0) }
  files.foldl (fun t (l, content) => t.insert (t.settled l.path).parts (l.toEntry content)) empty

def lastChange (t : FileTree) : Int :=
  t.entries.foldl (fun time (_, e) => max time e.modified) 0

def newEntries (before after : FileTree) : List (Path × Entry) :=
  let fresh := after.entries.filter fun (place, e) => before.lookup? place ≠ some e
  fresh.map fun (place, e) => ({ start := .root, parts := place }, e)

end LuaTypes.FileTree
