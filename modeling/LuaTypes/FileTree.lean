import LuaTypes.Path

/-!
A tree of files: what stands at each place, and when it was last written. Relative paths start in the
working directory of the tree.
-/

namespace LuaTypes

abbrev Location := List String

inductive Entry where
  | file (content : List UInt8) (modified : Int)
  | directory (modified : Int)
  deriving DecidableEq, Repr

namespace Entry

def isDirectory : Entry → Bool
  | .directory _ => true
  | .file .. => false

def isFile : Entry → Bool
  | .directory _ => false
  | .file .. => true

def modified : Entry → Int
  | .file _ modified => modified
  | .directory modified => modified

end Entry

/--
All entries are files and directories: there are no symbolic links, and no place shares its file with
another one.
-/
structure FileTree where
  working : Location := []
  entries : List (Location × Entry) := []

namespace FileTree

def lookup? (t : FileTree) (place : Location) : Option Entry :=
  if place.isEmpty then some (.directory 0) else t.entries.lookup place

def insertEntry (place : Location) (e : Entry) : List (Location × Entry) → List (Location × Entry)
  | [] => [(place, e)]
  | (l, f) :: rest => if l = place then (l, e) :: rest else (l, f) :: insertEntry place e rest

def insert (t : FileTree) (place : Location) (e : Entry) : FileTree :=
  { t with entries := insertEntry place e t.entries }

def delete (t : FileTree) (place : Location) : FileTree :=
  { t with entries := t.entries.filter fun e => ! place.isPrefixOf e.1 }

def isDirectoryAt (t : FileTree) (place : Location) : Bool :=
  (t.lookup? place).any (·.isDirectory)

theorem lookup_insertEntry (place l : Location) (e : Entry) (entries : List (Location × Entry))
    : (insertEntry place e entries).lookup l = if l = place then some e else entries.lookup l := by
  induction entries with
  | nil =>
    by_cases h : l = place
    · simp [insertEntry, h]
    · simp [insertEntry, List.lookup_cons, beq_false_of_ne h, h]
  | cons head rest ih =>
    obtain ⟨k, f⟩ := head
    by_cases hk : k = place
    · subst hk
      by_cases h : l = k
      · simp [insertEntry, h]
      · simp [insertEntry, List.lookup_cons, beq_false_of_ne h, h]
    · by_cases h : l = k
      · subst h
        simp [insertEntry, hk]
      · simp [insertEntry, hk, List.lookup_cons, beq_false_of_ne h, ih]

theorem lookup?_insert (t : FileTree) (place l : Location) (e : Entry)
    : (t.insert place e).lookup? l = if l = place ∧ l ≠ [] then some e else t.lookup? l := by
  cases l with
  | nil => simp [lookup?]
  | cons name names => simp [lookup?, insert, lookup_insertEntry]

end FileTree

end LuaTypes
