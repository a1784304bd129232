import LuaTypes.Yaml.Load
import LuaTypes.Yaml.Printer

/-!
The library that reads and writes YAML. It is a parameter of all that is kept in configurations.
-/

namespace LuaTypes.Yaml

inductive Item where
  | text (value : String)
  | texts (values : List String)

class Library where
  load : String → Except Error Value
  dump : List (String × Item) → String

def Printer.item (key : String) : Item → String
  | .text value => entry key value
  | .texts values => listEntry key values

instance : Library where
  load := Yaml.load
  dump items := Text.join "" (items.map fun (key, item) => Printer.item key item)

end LuaTypes.Yaml
