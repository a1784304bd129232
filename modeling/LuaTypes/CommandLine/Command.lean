import LuaTypes.Analysis
import LuaTypes.Build
import LuaTypes.Bundled
import LuaTypes.Call.Check
import LuaTypes.CommandLine.Request
import LuaTypes.Declaration.Render
import LuaTypes.Validation
import LuaTypes.Workspace.Files

/-!
What the commands do: they read and change a tree of files, print lines, and end with an exit code. An
error of the user is printed; some faults end a command before it has an exit code.
-/

namespace LuaTypes.CommandLine

open Declaration FileTree Workspace

inductive Failure where
  | config (error : LoadError)
  | build (error : Build.Error)
  | access (error : AccessError)
  | number (fault : Decimal.NumberFault)
  | outside (path base : Path)
  | refused (refusal : Artifact.Refusal)
  deriving DecidableEq, Repr

namespace Failure

def message : Failure → String
  | .config e => e.message
  | .build e => e.message
  | .access e => e.message
  | .number fault => fault.message
  | .outside path base =>
    Text.quoted path.toString ++ " is not in the subpath of " ++ Text.quoted base.toString ++
      " OR one path is relative and the other is absolute."
  | .refused refusal => refusal.message

end Failure

structure Session where
  tree : FileTree
  output : String := ""
  errors : String := ""

/--
A part of a command. What it has changed and printed before it fails remains.
-/
abbrev Command (α : Type) := EStateM Failure Session α

namespace Command

def tree : Command FileTree := do
  return (← get).tree

def ask {α : Type} (question : FileTree → Except AccessError α) : Command α := do
  match question (← tree) with
  | .ok x => return x
  | .error e => throw (.access e)

def say (line : String) : Command Unit :=
  modify fun s => { s with output := s.output ++ line ++ "\n" }

def complain (line : String) : Command Unit :=
  modify fun s => { s with errors := s.errors ++ "Error: " ++ line ++ "\n" }

def warn (line : String) : Command Unit :=
  say ("Warning: " ++ line)

def attempt {ε α : Type} (action : Action ε α) : Command (Except ε α) := fun s =>
  match action s.tree with
  | .ok x t => .ok (.ok x) { s with tree := t }
  | .error e t => .ok (.error e) { s with tree := t }

def act {ε α : Type} (failure : ε → Failure) (action : Action ε α) : Command α := do
  match ← attempt action with
  | .ok x => return x
  | .error e => throw (failure e)

/-! Workspaces -/

variable [Artifact.Codec] [Validation.Dump] [Yaml.Library]

def workspace? (name : String) : Command (Option (Path × Config)) := do
  let directory ← ask (·.resolve (.ofString name))
  let file := directory.child Config.fileName
  if ! (← ask (·.contains directory)) then
    complain ("directory '" ++ directory.toString ++ "' does not exist.")
    return none
  if ! (← ask (·.contains file)) then
    complain ("no catsdecl workspace found at '" ++ directory.toString ++
      "'. Run 'catsdecl init' to initialize a workspace.")
    return none
  match Config.load (← tree) file with
  | .ok config => return some (directory, config)
  | .error e =>
    if ! e.isReported then throw (.config e)
    complain e.message
    return none

def corpus? (now : Int) (directory : Path) (config : Config) : Command (Option Corpus) := do
  let library := directory.child config.library
  match ← attempt (Build.compileLibrary now library (directory.child config.buildDirectory)) with
  | .ok corpus => return some corpus
  | .error e =>
    if ! e.isReported then throw (.build e)
    complain e.message
    return none

/-! Commands -/

def configHeader : String :=
  "# catsdecl Workspace Configuration\n" ++
    "# This file marks the root of a LuaCATS declaration workspace.\n\n"

def newConfig : Config where
  library := "library"
  disableBuiltins := ["string"]

def copySource (now : Int) (library : Path) (name source : String) : Command Unit := do
  let file := name ++ Build.sourceSuffix
  if ← ask (·.contains (library.child file)) then
    say ("  keeping existing '" ++ newConfig.library ++ "/" ++ file ++ "'")
  else act .access (writeText now (library.child file) source)

def copySources (now : Int) (library : Path) : List (String × String) → Command Unit
  | [] => return ()
  | (name, source) :: rest => do
    copySource now library name source
    copySources now library rest

def init (now : Int) (name : String) : Command Nat := do
  let directory ← ask (·.resolve (.ofString name))
  let file := directory.child Config.fileName
  if ! (← ask (·.contains directory)) then
    complain ("directory '" ++ directory.toString ++ "' does not exist.")
    return 1
  if ← ask (·.contains file) then
    complain ("workspace already exists at '" ++ file.toString ++ "'.")
    return 1
  let library := directory.child newConfig.library
  act .access (ensureDirectory now library)
  copySources now library Bundled.sources
  act .access (writeText now file (configHeader ++ newConfig.render))
  say ("Initialized catsdecl workspace at '" ++ file.toString ++ "'.")
  return 0

def check (now : Int) (name : String) : Command Nat := do
  match ← workspace? name with
  | none => return 1
  | some (directory, config) =>
    let library := directory.child config.library
    if (← ask (·.isDirectory library)) && (← ask (Build.sourcesIn · library)).isEmpty then
      say "No declaration files found in the library."
      return 0
    match ← corpus? now directory config with
    | none => return 1
    | some corpus =>
      say ("Checking " ++ toString corpus.files.length ++ " declaration file(s)...")
      let problems := Analysis.problems corpus
      let errors := Validation.errors corpus
      problems.forM fun p => complain p.message
      (Validation.warnings corpus).forM fun w => warn w.message
      (LanguageServer.conflicts config corpus).forM fun c => warn c.message
      errors.forM fun e => complain e.message
      if problems.isEmpty && errors.isEmpty then
        say "No issues found."
        return 0
      else return 1

def formatSource (now : Int) (onlyCheck : Bool) (directory source : Path)
    : Command (Except Build.Error Bool) := do
  let t ← tree
  match Build.compileFile t source with
  | .error e => return .error e
  | .ok file =>
    let canonical := file.render
    if (t.readText source).toOption = some canonical then return .ok false
    match source.relativeTo? directory with
    | none => throw (.outside source directory)
    | some shown =>
      if onlyCheck then say ("Would reformat '" ++ shown.toString ++ "'")
      else
        act .access (writeText now source canonical)
        say ("Reformatted '" ++ shown.toString ++ "'")
      return .ok true

def formatSources (now : Int) (onlyCheck : Bool) (directory : Path)
    : List Path → Command (Option Nat)
  | [] => return some 0
  | source :: rest => do
    match ← formatSource now onlyCheck directory source with
    | .error e =>
      if ! e.isReported then throw (.build e)
      complain e.message
      return none
    | .ok changed =>
      let more ← formatSources now onlyCheck directory rest
      return more.map (· + if changed then 1 else 0)

def format (now : Int) (name : String) (onlyCheck : Bool) : Command Nat := do
  match ← workspace? name with
  | none => return 1
  | some (directory, config) =>
    let library := directory.child config.library
    if ! (← ask (·.isDirectory library)) then
      complain ("Library directory '" ++ library.toString ++ "' does not exist")
      return 1
    match ← formatSources now onlyCheck directory (← ask (Build.sourcesIn · library)) with
    | none => return 1
    | some 0 =>
      say "All declaration files are canonical."
      return 0
    | some changed =>
      if onlyCheck then
        say (toString changed ++ " file(s) would be reformatted.")
        return 1
      else return 0

def luarc (now : Int) (name : String) : Command Nat := do
  match ← workspace? name with
  | none => return 1
  | some (directory, config) =>
    match ← corpus? now directory config with
    | none => return 1
    | some corpus =>
      (LanguageServer.conflicts config corpus).forM fun c => warn c.message
      let file := directory.child LanguageServer.fileName
      match ← attempt (LanguageServer.write now file config) with
      | .error e =>
        complain (LanguageServer.writeMessage e)
        return 1
      | .ok () =>
        say ("Wrote '" ++ file.toString ++ "'.")
        return 0

def dump (now : Int) (name : String) (output : Option String) : Command Nat := do
  match ← workspace? name with
  | none => return 1
  | some (directory, config) =>
    match ← corpus? now directory config with
    | none => return 1
    | some corpus =>
      match Artifact.serializeCorpus corpus (some 2), output with
      | .error refusal, _ => throw (.refused refusal)
      | .ok data, none =>
        say data
        return 0
      | .ok data, some output =>
        let file := Path.ofString output
        match ← attempt (writeText now file (data ++ "\n")) with
        | .error e =>
          if ! e.fault.isOfSystem then throw (.access e)
          complain ("cannot write '" ++ file.toString ++ "': " ++ e.message)
          return 1
        | .ok () =>
          say ("Wrote " ++ toString corpus.files.length ++ " declaration file(s) to '" ++
            file.toString ++ "'.")
          return 0

def checkCall (expression : String) (corpus : Corpus) : Command Nat := do
  match Call.parse expression with
  | .error (.number fault) => throw (.number fault)
  | .error e =>
    complain ("invalid call expression: " ++ e.message Call.Problem.message)
    return 1
  | .ok call =>
    match call.check (SymbolTable.ofCorpus corpus) with
    | [] =>
      say ("Call to '" ++ call.callee ++ "' type-checks.")
      return 0
    | faults =>
      faults.forM fun f => complain f.message
      return 1

def call (now : Int) (expression name : String) (bundled : Bool) : Command Nat := do
  if bundled then checkCall expression Bundled.corpus
  else
    match ← workspace? name with
    | none => return 1
    | some (directory, config) =>
      match ← corpus? now directory config with
      | none => return 1
      | some corpus => checkCall expression corpus

def ofRequest (now : Int) : Request → Command Nat
  | .init directory => init now directory
  | .check directory => check now directory
  | .format directory onlyCheck => format now directory onlyCheck
  | .luarc directory => luarc now directory
  | .dump directory output => dump now directory output
  | .call expression directory bundled => call now expression directory bundled

end Command

/-! The program -/

structure Outcome where
  tree : FileTree
  output : String
  errors : String
  exit : Except Failure Nat

def run [Artifact.Codec] [Validation.Dump] [Yaml.Library] (now : Int) (arguments : List String) (t : FileTree) : Outcome :=
  match request arguments with
  | .error (g, .help) => ⟨t, g.help, "", .ok 0⟩
  | .error (g, .problem p) => ⟨t, "", g.usage ++ g.program ++ ": error: " ++ p.message ++ "\n", .ok 2⟩
  | .ok r =>
    match Command.ofRequest now r { tree := t } with
    | .ok code s => ⟨s.tree, s.output, s.errors, .ok code⟩
    | .error e s => ⟨s.tree, s.output, s.errors, .error e⟩

end LuaTypes.CommandLine
