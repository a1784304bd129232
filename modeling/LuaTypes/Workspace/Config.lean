import LuaTypes.Yaml.Library

/-!
The configuration of a workspace: where the library is, where its artifacts go, and what the language
server should assume. It is written as a YAML mapping; a loaded mapping is checked field by field.
-/

namespace LuaTypes.Workspace

structure Config where
  library : String
  buildDirectory : String := ".catsdecl-build"
  runtimeVersion : String := "Lua 5.2"
  disableBuiltins : List String := []
  deriving DecidableEq, Repr

namespace Config

def fileName : String := ".catsdecl.yaml"

/--
Why a loaded value is no configuration. Unknown keys are listed in order, which fails if they have none, and
if one of them is a number that is too long to be shown.
-/
inductive Problem where
  | notMapping
  | unknownFields (keys : List String)
  | unorderedFields
  | longField
  | missingField (key : String)
  | notString (key : String)
  | notStrings (key : String)
  deriving DecidableEq, Repr

inductive Error where
  | yaml (error : Yaml.Error)
  | content (problem : Problem)
  deriving DecidableEq, Repr

namespace Problem

def message : Problem → String
  | .notMapping => "workspace config must be a YAML mapping"
  | .unknownFields keys => "unknown field(s) " ++ Text.join ", " keys
  | .unorderedFields => "unknown fields of different kinds"
  | .longField =>
    "Exceeds the limit (4300 digits) for integer string conversion; " ++
      "use sys.set_int_max_str_digits() to increase the limit"
  | .missingField key => "missing required field '" ++ key ++ "'"
  | .notString key => "'" ++ key ++ "' must be a string"
  | .notStrings key => "'" ++ key ++ "' must be a list of strings"

end Problem

def Error.message (label : String) : Error → String
  | .yaml .malformed => "Invalid YAML in " ++ label
  | .yaml e => e.message
  | .content .longField => Problem.longField.message
  | .content p => label ++ ": " ++ p.message

/-! Fields -/

def libraryKey : String := "library"

def buildDirectoryKey : String := "build-directory"

def runtimeVersionKey : String := "runtime-version"

def disableBuiltinsKey : String := "disable-builtins"

def keys : List String :=
  [libraryKey, buildDirectoryKey, runtimeVersionKey, disableBuiltinsKey]

def isKnown (key : Yaml.Value) : Bool :=
  keys.any fun k => Yaml.Value.sameKey key (.string k)

def sorted? : List Yaml.Value → Option (List Yaml.Value)
  | [] => some []
  | [key] => some [key]
  | keys =>
    if keys.all fun key => keys.all key.isComparable then
      some (keys.mergeSort fun a b => a.compare? b != some .gt)
    else none

def checkKeys (entries : List (Yaml.Value × Yaml.Value)) : Except Problem Unit :=
  match sorted? ((entries.map (·.1)).filter (! isKnown ·)) with
  | none => .error .unorderedFields
  | some [] => .ok ()
  | some unknown =>
    if unknown.all Yaml.Value.hasText then .error (.unknownFields (unknown.map Yaml.Value.text))
    else .error .longField

def string? : Yaml.Value → Option String
  | .string s => some s
  | _ => none

def strings? : Yaml.Value → Option (List String)
  | .list items => items.mapM string?
  | _ => none

def text (entries : List (Yaml.Value × Yaml.Value)) (key : String) (absent : Except Problem String)
    : Except Problem String :=
  match Yaml.Value.lookup? key entries with
  | none => absent
  | some v => match string? v with
    | some s => .ok s
    | none => .error (.notString key)

def texts (entries : List (Yaml.Value × Yaml.Value)) (key : String) : Except Problem (List String) :=
  match Yaml.Value.lookup? key entries with
  | none => .ok []
  | some v => match strings? v with
    | some ss => .ok ss
    | none => .error (.notStrings key)

def ofValue : Yaml.Value → Except Problem Config
  | .map entries => do
    -- Unknown keys are told before missing and unsuitable values.
    checkKeys entries
    let library ← text entries libraryKey (.error (.missingField libraryKey))
    let standard : Config := { library }
    let buildDirectory ← text entries buildDirectoryKey (.ok standard.buildDirectory)
    let runtimeVersion ← text entries runtimeVersionKey (.ok standard.runtimeVersion)
    let disableBuiltins ← texts entries disableBuiltinsKey
    return { library, buildDirectory, runtimeVersion, disableBuiltins }
  | _ => .error .notMapping

variable [Yaml.Library]

def parse (source : String) : Except Error Config :=
  match Yaml.Library.load source with
  | .error e => .error (.yaml e)
  | .ok v => (ofValue v).mapError .content

def render (c : Config) : String :=
  Yaml.Library.dump [(libraryKey, .text c.library), (buildDirectoryKey, .text c.buildDirectory),
    (runtimeVersionKey, .text c.runtimeVersion), (disableBuiltinsKey, .texts c.disableBuiltins)]

end Config

end LuaTypes.Workspace
