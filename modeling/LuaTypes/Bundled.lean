import LuaTypes.Bundled.Peripheral
import LuaTypes.Bundled.Shell
import LuaTypes.Bundled.Strings
import LuaTypes.Declaration.Parser

/-!
The declaration library that new workspaces start with.
-/

namespace LuaTypes.Bundled

def sources : List (String × String) :=
  [("peripheral", peripheralSource), ("shell", shellSource), ("string", stringSource)]

def corpus : Declaration.Corpus where
  files := sources.filterMap fun (key, source) =>
    (Declaration.File.parse source).toOption.map (key, ·)

end LuaTypes.Bundled
