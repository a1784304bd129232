import LuaTypes.FileTree.Access
import LuaTypes.Workspace.LanguageServer

/-!
The files of a workspace: reading its configuration, and writing the settings of the language server.
-/

namespace LuaTypes.Workspace

open FileTree

inductive LoadError where
  | missing (path : Path)
  | unreadable (error : TextError)
  | access (error : AccessError)
  | invalid (path : Path) (error : Config.Error)
  deriving DecidableEq, Repr

namespace LoadError

/--
Is the error reported to the user? Faults of values, fields without an order or a text and paths that cannot
be used end the program.
-/
def isReported : LoadError → Bool
  | .access _ => false
  | .invalid _ (.content .unorderedFields) => false
  | .invalid _ (.content .longField) => false
  | .invalid _ (.yaml e) => e = .malformed
  | _ => true

def message : LoadError → String
  | .missing path => "Workspace config file not found: " ++ path.toString
  | .unreadable e => "Cannot read workspace config file: " ++ e.message
  | .access e => e.message
  | .invalid path e => e.message path.toString

end LoadError

def Config.load [Yaml.Library] (t : FileTree) (path : Path) : Except LoadError Config :=
  match t.readText path with
  | .error (.access ⟨.notFound, _⟩) => .error (.missing path)
  | .error (.access ⟨.nullCharacter, p⟩) => .error (.access ⟨.nullCharacter, p⟩)
  | .error e => .error (.unreadable e)
  | .ok text => (Config.parse text).mapError (.invalid path)

namespace LanguageServer

def write (now : Int) (path : Path) (config : Config) : Action AccessError Unit :=
  writeText now path (render config ++ "\n")

def writeMessage (e : AccessError) : String :=
  "Cannot write '" ++ e.path.toString ++ "': " ++ e.message

end LanguageServer

end LuaTypes.Workspace
