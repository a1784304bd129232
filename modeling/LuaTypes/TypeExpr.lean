/-!
Type expressions: names, literal values, and what is built from them. `T?` stands for `T` or `nil`, and
`...` in a list of returned types for any number of values.
-/

namespace LuaTypes

inductive Literal where
  | string (value : String)
  | integer (value : Int)
  | float (value : Float)
  | boolean (value : Bool)
  deriving DecidableEq

namespace TypeExpr

structure Param (τ : Type) where
  name : String
  type : Option τ := none
  optional : Bool := false

/--
A member of a table type: a named one, or with a key type the values under all such keys.
-/
structure Field (τ : Type) where
  name : Option String := none
  key : Option τ := none
  type : τ
  optional : Bool := false

end TypeExpr

inductive TypeExpr where
  | named (name : String)
  | literal (value : Literal)
  | union (members : List TypeExpr)
  | optional (inner : TypeExpr)
  | array (element : TypeExpr)
  | generic (name : String) (args : List TypeExpr)
  | function (params : List (TypeExpr.Param TypeExpr)) (returns : List TypeExpr) (isAsync : Bool)
  | table (fields : List (TypeExpr.Field TypeExpr))
  | vararg

namespace TypeExpr

instance : Inhabited TypeExpr := ⟨.vararg⟩

def builtinNames : List String :=
  ["any", "unknown", "nil", "boolean", "string", "number", "integer", "function", "table", "thread",
    "userdata", "lightuserdata", "self"]

def nil : TypeExpr := .named "nil"

def any : TypeExpr := .named "any"

mutual

/--
Is `nil` among the values by the form of the type alone, whatever its names mean?
-/
def isNullable : TypeExpr → Bool
  | .named name => name = "nil"
  | .optional _ => true
  | .union members => anyNullable members
  | _ => false

def anyNullable : List TypeExpr → Bool
  | [] => false
  | t :: ts => t.isNullable || anyNullable ts

end

mutual

def namedReferences : TypeExpr → List String
  | .named name => [name]
  | .literal _ => []
  | .union members => listReferences members
  | .optional inner => inner.namedReferences
  | .array element => element.namedReferences
  | .generic name args => name :: listReferences args
  | .function params returns _ => paramReferences params ++ listReferences returns
  | .table fields => fieldReferences fields
  | .vararg => []

def listReferences : List TypeExpr → List String
  | [] => []
  | t :: ts => t.namedReferences ++ listReferences ts

def optionReferences : Option TypeExpr → List String
  | none => []
  | some t => t.namedReferences

def paramReferences : List (Param TypeExpr) → List String
  | [] => []
  | ⟨_, type, _⟩ :: ps => optionReferences type ++ paramReferences ps

def fieldReferences : List (Field TypeExpr) → List String
  | [] => []
  | ⟨_, key, type, _⟩ :: fs =>
    optionReferences key ++ type.namedReferences ++ fieldReferences fs

end

end TypeExpr

end LuaTypes
