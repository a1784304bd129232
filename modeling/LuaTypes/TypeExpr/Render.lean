import LuaTypes.Decimal.Number
import LuaTypes.TypeExpr

/-!
Writing of type expressions. Parentheses stand around a function type wherever something could follow
it, and around a union before a mark.
-/

namespace LuaTypes

def Literal.escapeChar (c : Char) : List Char :=
  if c = '"' then ['\\', '"']
  else if c = '\\' then ['\\', '\\']
  else if c = '\n' then ['\\', 'n']
  else if c = '\r' then ['\\', 'r']
  else if c = '\t' then ['\\', 't']
  else if c.toNat = 0x08 then ['\\', 'b']
  else if c.toNat = 0x0C then ['\\', 'f']
  else if c.toNat < 0x20 then '\\' :: 'u' :: Text.hexDigits 4 c.toNat
  else [c]

namespace Literal

def floatNames : Decimal.FloatNames := ⟨"inf", "nan"⟩

def renderString (s : String) : String :=
  String.ofList ('"' :: (s.toList.flatMap escapeChar ++ ['"']))

def render : Literal → String
  | .string value => renderString value
  | .integer value => Decimal.integerText value
  | .float value => Decimal.floatText floatNames value
  | .boolean true => "true"
  | .boolean false => "false"

end Literal

namespace TypeExpr

def parenthesize (wrap : Bool) (text : String) : String :=
  if wrap then "(" ++ text ++ ")" else text

def isFunction : TypeExpr → Bool
  | .function .. => true
  | _ => false

def needsParens : TypeExpr → Bool
  | .function .. => true
  | .union _ => true
  | _ => false

mutual

def render : TypeExpr → String
  | .named name => name
  | .literal value => value.render
  | .union members => Text.join " | " (renderOperands members)
  | .optional inner => parenthesize inner.needsParens inner.render ++ "?"
  | .array element => parenthesize element.needsParens element.render ++ "[]"
  | .generic name args => name ++ "<" ++ Text.join ", " (renderEach args) ++ ">"
  | .function params returns isAsync =>
    (if isAsync then "async " else "") ++ "fun(" ++ Text.join ", " (renderParams params) ++ ")" ++
      (if returns.isEmpty then "" else ": " ++ Text.join ", " (renderOperands returns))
  | .table [] => "\x7b\x7d"
  | .table (f :: fs) => "\x7b " ++ Text.join ", " (renderFields (f :: fs)) ++ " \x7d"
  | .vararg => "..."

def renderOperands : List TypeExpr → List String
  | [] => []
  | t :: ts => parenthesize t.isFunction t.render :: renderOperands ts

def renderEach : List TypeExpr → List String
  | [] => []
  | t :: ts => t.render :: renderEach ts

def renderTyping : Option TypeExpr → String
  | none => ""
  | some t => ": " ++ t.render

def renderParams : List (Param TypeExpr) → List String
  | [] => []
  | ⟨name, type, isOptional⟩ :: ps =>
    (name ++ (if isOptional then "?" else "") ++ renderTyping type) :: renderParams ps

def renderKey (name : Option String) (isOptional : Bool) : Option TypeExpr → String
  | some key => "[" ++ key.render ++ "]"
  | none => name.getD "None" ++ (if isOptional then "?" else "")

def renderFields : List (Field TypeExpr) → List String
  | [] => []
  | ⟨name, key, type, isOptional⟩ :: fs =>
    (renderKey name isOptional key ++ ": " ++ type.render) :: renderFields fs

end

end TypeExpr

end LuaTypes
