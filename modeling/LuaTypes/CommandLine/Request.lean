import LuaTypes.CommandLine.Arguments
import LuaTypes.Workspace.LanguageServer

/-!
The commands of the program, and the texts that explain them.
-/

namespace LuaTypes.CommandLine

inductive Request where
  | init (directory : String)
  | check (directory : String)
  | format (directory : String) (onlyCheck : Bool)
  | luarc (directory : String)
  | dump (directory : String) (output : Option String)
  | call (expression directory : String) (bundled : Bool)
  deriving DecidableEq, Repr

/-! Texts -/

def joinLines (lines : List String) : String :=
  Text.join "" (lines.map (· ++ "\n"))

def program : String := "catsdecl"

def directoryHelp : List String :=
  ["  directory   Directory containing the catsdecl workspace (default: current",
    "              directory)"]

def helpHelp : String := "  -h, --help  show this help message and exit"

def helpText (usage : String) (description operands switches : List String) : String :=
  usage ++ "\n" ++ joinLines description ++ "\npositional arguments:\n" ++ joinLines operands ++
    "\noptions:\n" ++ joinLines switches

/-! Grammars -/

def directory : Operand := ⟨"directory", .optional, []⟩

def expression : Operand := ⟨"expression", .one, []⟩

def checkSwitch : Switch := ⟨["--check"], false⟩

def outputSwitch : Switch := ⟨["--output", "-o"], true⟩

def bundledSwitch : Switch := ⟨["--bundled"], false⟩

def grammar (command usage : String) (description operands switches : List String)
    (own : List Switch) (parts : List Operand) : Grammar :=
  let usage := "usage: " ++ program ++ " " ++ command ++ " " ++ usage ++ "\n"
  { program := program ++ " " ++ command
    usage
    help := helpText usage description operands switches
    switches := helpSwitch :: own
    operands := parts }

def initGrammar : Grammar :=
  grammar "init" "[-h] [directory]"
    ["Write .catsdecl.yaml and copy the bundled declaration library into the", "directory."]
    ["  directory   Directory to initialize the workspace in (default: current",
      "              directory)"]
    [helpHelp] [] [directory]

def checkGrammar : Grammar :=
  grammar "check" "[-h] [directory]"
    ["Parse, analyze and validate every declaration file of the workspace."]
    directoryHelp [helpHelp] [] [directory]

def formatGrammar : Grammar :=
  grammar "format" "[-h] [--check] [directory]"
    ["Rewrite every declaration file of the workspace in canonical LuaCATS layout."]
    directoryHelp
    [helpHelp, "  --check     Report files that are not canonical instead of rewriting them"]
    [checkSwitch] [directory]

def luarcGrammar : Grammar :=
  grammar "luarc" "[-h] [directory]"
    ["Write .luarc.json registering the declaration library and disabling the",
      "builtin libraries it replaces."]
    directoryHelp [helpHelp] [] [directory]

def dumpGrammar : Grammar :=
  grammar "dump" "[-h] [--output OUTPUT] [directory]"
    ["Compile the workspace library and write the merged corpus as JSON."]
    ["  directory             Directory containing the catsdecl workspace (default:",
      "                        current directory)"]
    ["  -h, --help            show this help message and exit",
      "  --output OUTPUT, -o OUTPUT",
      "                        File to write the JSON to (default: standard output)"]
    [outputSwitch] [directory]

def callGrammar : Grammar :=
  grammar "call" "[-h] [--bundled] expression [directory]"
    ["Check a call such as 'peripheral.wrap(\"top\")' against the declared signature."]
    ("  expression  Lua call expression with literal arguments" :: directoryHelp)
    [helpHelp, "  --bundled   Check against the bundled declaration library instead of a",
      "              workspace"]
    [bundledSwitch] [expression, directory]

def commands : List (String × Grammar) :=
  [("init", initGrammar), ("check", checkGrammar), ("format", formatGrammar), ("luarc", luarcGrammar),
    ("dump", dumpGrammar), ("call", callGrammar)]

def mainGrammar : Grammar :=
  let usage := "usage: " ++ program ++ " [-h] COMMAND ...\n"
  { program
    usage
    help := helpText usage ["catsdecl: LuaCATS declaration corpus toolkit for CC: Tweaked"]
      ["  COMMAND",
        "    init      Initialize a new declaration workspace",
        "    check     Check the declaration library for errors",
        "    format    Rewrite declaration files in canonical form",
        "    luarc     Write the language-server .luarc.json",
        "    dump      Export the declaration corpus as JSON",
        "    call      Type-check a call expression against the corpus"]
      [helpHelp]
    switches := [helpSwitch]
    operands := [⟨"COMMAND", .remaining, commands.map (·.1)⟩] }

/-! Requests -/

def directoryOf (p : Parsed) : String :=
  (p.operand? directory.name).getD "."

def requestOf (command : String) (p : Parsed) : Option Request :=
  match command with
  | "init" => some (.init (directoryOf p))
  | "check" => some (.check (directoryOf p))
  | "format" => some (.format (directoryOf p) (p.hasSwitch checkSwitch.name))
  | "luarc" => some (.luarc (directoryOf p))
  | "dump" => some (.dump (directoryOf p) (p.value? outputSwitch.name))
  | "call" =>
    some (.call ((p.operand? expression.name).getD "") (directoryOf p)
      (p.hasSwitch bundledSwitch.name))
  | _ => none

abbrev Rejection := Grammar × Stop

def Grammar.read (g : Grammar) (arguments : List String) : Except Rejection Parsed :=
  (g.parse arguments).mapError (g, ·)

def request (arguments : List String) : Except Rejection Request := do
  let outer ← mainGrammar.read arguments
  let (extras, request) ← match outer.remaining with
    | [] => pure (outer.extras, none)
    | command :: arguments =>
      match commands.lookup command with
      | none => pure (outer.extras, none)
      | some g =>
        let inner ← g.read arguments
        pure (outer.extras ++ inner.extras, requestOf command inner)
  match extras, request with
  | [], some r => return r
  | [], none => throw (mainGrammar, .help)
  | extras, _ => throw (mainGrammar, .problem (.unrecognized extras))

end LuaTypes.CommandLine
