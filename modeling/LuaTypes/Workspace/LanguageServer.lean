import LuaTypes.Analysis
import LuaTypes.Json.Printer
import LuaTypes.Workspace.Config

/-!
The settings of the language server. It has declarations of the standard libraries of its own; the ones
that the corpus replaces have to be disabled there, and no others should be.
-/

namespace LuaTypes.Workspace.LanguageServer

open Declaration

def fileName : String := ".luarc.json"

def schema : String :=
  "https://raw.githubusercontent.com/LuaLS/vscode-lua/master/setting/schema.json"

def builtins : List String :=
  ["basic", "bit", "bit32", "builtin", "coroutine", "debug", "ffi", "io", "jit", "jit.profile",
    "jit.util", "math", "os", "package", "string", "string.buffer", "table", "table.clear", "table.new",
    "utf8"]

def settings (config : Config) : Json :=
  .object [
    ("$schema", .string schema),
    ("runtime.version", .string config.runtimeVersion),
    ("runtime.builtin",
      .object ((Analysis.sortedNames config.disableBuiltins).map fun name => (name, .string "disable"))),
    ("workspace.library", .array [.string config.library])]

def render (config : Config) : String :=
  (settings config).print (.indented 2) 0

inductive Conflict where
  | duplicate (name : String)
  | notBuiltin (name : String)
  | notReplaced (name : String)
  deriving DecidableEq, Repr

namespace Conflict

def message : Conflict → String
  | .duplicate name =>
    "Namespace '" ++ name ++ "' duplicates the language server's builtin '" ++ name ++
      "' library; add it to 'disable-builtins'."
  | .notBuiltin name => "'" ++ name ++ "' in 'disable-builtins' is not a language-server builtin."
  | .notReplaced name =>
    "Builtin '" ++ name ++ "' is disabled but the corpus does not declare a replacement."

end Conflict

def conflicts (config : Config) (corpus : Corpus) : List Conflict :=
  let declared := Analysis.sortedNames (corpus.namespaces.map (·.name))
  let disabled := Analysis.sortedNames config.disableBuiltins
  (declared.filter fun n => builtins.contains n && ! disabled.contains n).map .duplicate ++
    (disabled.filter (! builtins.contains ·)).map .notBuiltin ++
    (disabled.filter fun n => builtins.contains n && ! declared.contains n).map .notReplaced

end LuaTypes.Workspace.LanguageServer
