import LuaTypes.CommandLine.Command
import LuaTypes.FileTree.Listing

/-!
The command line. The program sees the files that its standard input lists, as the command
`find . -type d -printf 'd %T@ %p\n' -o -type f -printf 'f %T@ %p\n'` does, and writes those that it
has made or changed.
-/

namespace LuaTypes

partial def readLines (input : IO.FS.Stream) (lines : List String) : IO (List String) := do
  let line ← input.getLine
  if line.isEmpty then return lines.reverse
  readLines input ((line.takeWhile (· ≠ '\n')).copy :: lines)

def readListed (l : FileTree.Listed) : IO (FileTree.Listed × List UInt8) := do
  if l.directory then return (l, [])
  let content ← IO.FS.readBinFile l.path.toString
  return (l, content.toList)

def readTree : IO FileTree := do
  let working ← IO.getEnv "PWD"
  let lines ← readLines (← IO.getStdin) []
  let files ← (lines.filterMap FileTree.Listed.ofLine?).mapM readListed
  return .ofListing (.ofString (working.getD "/")) files

def writeEntry (path : Path) : Entry → IO Unit
  | .directory _ => IO.FS.createDirAll path.toString
  | .file content _ => IO.FS.writeBinFile path.toString ⟨content.toArray⟩

/--
Runs the program on the files that are listed. What it writes counts as later than
everything that is there.
-/
def runListed (arguments : List String) : IO UInt32 := do
  let tree ← readTree
  let outcome := CommandLine.run (tree.lastChange + 1) arguments tree
  (tree.newEntries outcome.tree).forM fun (path, entry) => writeEntry path entry
  IO.print outcome.output
  IO.eprint outcome.errors
  match outcome.exit with
  | .ok code => return code.toUInt32
  | .error fault =>
    IO.eprintln fault.message
    return 1

end LuaTypes

def main (arguments : List String) : IO UInt32 :=
  LuaTypes.runListed arguments
