import LuaTypes.Artifact
import LuaTypes.Declaration.Parser
import LuaTypes.FileTree.Access

/-!
Loading of a library of declaration files. Every file below the directory of the library has a key, and
an artifact in the build directory that is used in place of the file as long as it is newer.
-/

namespace LuaTypes.Build

open Declaration FileTree

def sourceSuffix : String := ".lua"

def artifactSuffix : String := ".decl.json"

/--
Why a library cannot be loaded. A numeral without a value, a path that cannot be used and a file that is
refused as an artifact are no faults that are told of one file, so they have no message of their own here.
-/
inductive Error where
  | noLibrary (path : Path)
  | unreadable (path : Path) (error : TextError)
  | unparsable (path : Path) (error : Declaration.Error)
  | number (fault : Decimal.NumberFault)
  | access (error : AccessError)
  | refused (refusal : Artifact.Refusal)
  deriving DecidableEq, Repr

namespace Error

def isReported : Error → Bool
  | .number _ | .access _ | .refused _ => false
  | _ => true

def message : Error → String
  | .noLibrary path => "Library directory '" ++ path.toString ++ "' does not exist"
  | .unreadable path e => "Cannot read source file '" ++ path.toString ++ "': " ++ e.message
  | .unparsable path e =>
    "Parse error in '" ++ path.toString ++ "': " ++ e.message Declaration.Problem.message
  | .number fault => fault.message
  | .access e => e.message
  | .refused refusal => refusal.message

end Error

def sourceNames (t : FileTree) (library : Path) : List (List String) :=
  t.filesBelow library sourceSuffix

def sources (t : FileTree) (library : Path) : List Path :=
  (sourceNames t library).map library.descend

def key (names : List String) : String :=
  let path := Text.join "/" (names.dropLast ++ names.getLast?.toList.map stem)
  -- A name may hold a backslash, which parts the names of a key as well.
  String.ofList (path.toList.map fun c => if c = '\\' then '/' else c)

def artifactPath (build : Path) (key : String) : Path :=
  let parts := (Text.splitAtEach '/' key.toList).map String.ofList
  (parts.dropLast.foldl Path.child build).child (parts.getLastD "" ++ artifactSuffix)

def sourcesIn (t : FileTree) (library : Path) : Except AccessError (List Path) := do
  return if ← t.isDirectory library then sources t library else []

def compileFile (t : FileTree) (source : Path) : Except Error File :=
  match t.readText source with
  | .error (.access ⟨.nullCharacter, p⟩) => .error (.access ⟨.nullCharacter, p⟩)
  | .error e => .error (.unreadable source e)
  | .ok text =>
    match File.parse text with
    | .ok file => .ok file
    | .error (.number fault) => .error (.number fault)
    | .error e => .error (.unparsable source e)

def loadLibrary (t : FileTree) (library : Path) : Except Error Corpus := do
  if ← (t.isDirectory library).mapError .access then
    (sourceNames t library).foldlM (fun corpus names => do
      return corpus.insert (key names) (← compileFile t (library.descend names))) {}
  else throw (.noLibrary library)

/-! Artifacts -/

variable [Artifact.Codec]

inductive ArtifactError where
  | unreadable (error : TextError)
  | invalid (error : Artifact.Error)

def readArtifact (t : FileTree) (artifact : Path) : Except ArtifactError File :=
  match t.readText artifact with
  | .error e => .error (.unreadable e)
  | .ok text =>
    match Artifact.toFile text with
    | .error e => .error (.invalid e)
    | .ok file => .ok file

def isUpToDate (t : FileTree) (source artifact : Path) : Except AccessError Bool := do
  match ← t.find? artifact with
  -- Without an artifact the source is not looked at.
  | none => return false
  | some a =>
    match ← t.find? source with
    | none => return false
    | some s => return s.modified < a.modified

/--
The file in an artifact that is newer than its source. Contents that are no artifact count as none.
-/
def cached? (t : FileTree) (source artifact : Path) : Except AccessError (Option File) := do
  if ← isUpToDate t source artifact then
    match readArtifact t artifact with
    | .ok file => return some file
    -- Only a file that is out of reach is an error; a torn or foreign artifact is made anew.
    | .error (.unreadable (.access e)) => throw e
    | .error _ => return none
  else return none

def check {ε α : Type} (result : Except ε α) : Action ε α :=
  match result with
  | .ok x => return x
  | .error e => throw e

def mapError {ε δ α : Type} (f : ε → δ) (action : Action ε α) : Action δ α := fun t =>
  match action t with
  | .ok x t => .ok x t
  | .error e t => .error (f e) t

def writeArtifact (now : Int) (file : File) (artifact : Path) : Action Error Unit := do
  mapError .access (ensurePath now artifact.parent)
  -- The directories are there already when the file turns out to be refused.
  let text ← check ((Artifact.serialize file).mapError .refused)
  mapError .access (writeText now artifact text)

def compileSource (now : Int) (source artifact : Path) : Action Error File := do
  match ← check ((cached? (← get) source artifact).mapError .access) with
  | some file => return file
  | none =>
    let file ← check (compileFile (← get) source)
    -- A file that cannot be parsed leaves no artifact behind.
    writeArtifact now file artifact
    return file

def compileSources (now : Int) (library build : Path) (corpus : Corpus)
    : List (List String) → Action Error Corpus
  | [] => return corpus
  | names :: rest => do
    let key := key names
    let file ← compileSource now (library.descend names) (artifactPath build key)
    compileSources now library build (corpus.insert key file) rest

/--
Loads a library. The artifacts of its files are used where they are newer than the files, and written
where they are not.
-/
def compileLibrary (now : Int) (library build : Path) : Action Error Corpus := do
  let t ← get
  if ← check ((t.isDirectory library).mapError .access) then
    compileSources now library build {} (sourceNames t library)
  else throw (.noLibrary library)

end LuaTypes.Build
