import LuaTypes.Token.Reader
import LuaTypes.TypeExpr

/-!
Reading of type expressions, either from a whole text or from the start of one that goes on with prose.

Alternatives bind weakest, then the marks `[]` and `?` behind a type. A list of returned types goes on
over commas only outside of all brackets, since inside they separate what the brackets hold.
-/

namespace LuaTypes

namespace TypeExpr

inductive Terminal where
  | symbol (symbol : Symbol)
  | keyword (keyword : Keyword)
  | name
  deriving DecidableEq, Repr

namespace Terminal

def text : Terminal → String
  | .symbol s => s.text
  | .keyword k => k.text
  | .name => "NAME"

end Terminal

inductive Problem where
  | expected (terminals : List Terminal) (found : Lexeme)
  | expectedType (found : Lexeme)
  | trailing (found : Lexeme)
  deriving DecidableEq, Repr

namespace Problem

def describe : Lexeme → String
  | .endOfText => "end of type"
  | lexeme => Text.quoted lexeme.text

def message : Problem → String
  | .expected terminals found =>
    "Expected " ++ Text.join ", " (terminals.map (Text.quoted ·.text)) ++ ", got " ++ describe found
  | .expectedType found => "Expected a type, got " ++ describe found
  | .trailing found => "Unexpected " ++ describe found ++ " after type"

end Problem

namespace Parser

/--
How a type is read: the frame of its text, and whether brackets are open around it.
-/
structure Context extends Frame where
  nested : Bool := false

def Context.inside (ctx : Context) : Context :=
  { ctx with nested := true }

abbrev ParseM := Reader Problem

def expect (ctx : Context) (symbol : Symbol) : ParseM Unit := do
  let found ← Reader.peek
  if found = .symbol symbol then
    let _ ← Reader.advance ctx.toFrame
  else Reader.fail ctx.toFrame (.expected [.symbol symbol] found)

def expectKeyword (ctx : Context) (keyword : Keyword) : ParseM Unit := do
  let found ← Reader.peek
  if found = .keyword keyword then
    let _ ← Reader.advance ctx.toFrame
  else Reader.fail ctx.toFrame (.expected [.keyword keyword] found)

def accept (ctx : Context) (symbol : Symbol) : ParseM Bool :=
  Reader.accept ctx.toFrame (.symbol symbol)

def behind {α : Type} (ctx : Context) (symbol : Symbol) (otherwise : α) (read : ParseM α) : ParseM α := do
  if ← accept ctx symbol then read else return otherwise

def continued {α : Type} (ctx : Context) (separator : Symbol) (item : α) (more : ParseM (List α))
    : ParseM (List α) := do
  if ← accept ctx separator then return item :: (← more) else return [item]

def numberLiteral (text : String) : Except Decimal.NumberFault Literal :=
  if text.toList.contains '.' then (Decimal.readFloat text.toList).map .float
  else (Decimal.readInteger text.toList).map .integer

def ofName (name : String) : TypeExpr :=
  if name = "true" then .literal (.boolean true)
  else if name = "false" then .literal (.boolean false)
  else .named name

def ofMembers : List TypeExpr → TypeExpr
  | [t] => t
  | ts => .union ts

def marks (ctx : Context) : (fuel : Nat) → TypeExpr → ParseM TypeExpr
  | 0, t => pure t
  | fuel + 1, t => do
    if ← accept ctx .brackets then marks ctx fuel (.array t)
    else if ← accept ctx .question then marks ctx fuel (.optional t)
    else return t

def paramName (ctx : Context) : ParseM String := do
  match ← Reader.peek with
  | .name name =>
    let _ ← Reader.advance ctx.toFrame
    return name
  | .symbol .ellipsis =>
    let _ ← Reader.advance ctx.toFrame
    return Symbol.ellipsis.text
  | found => Reader.fail ctx.toFrame (.expected [.name, .symbol .ellipsis] found)

def orVararg (ctx : Context) (read : ParseM TypeExpr) : ParseM TypeExpr := do
  if ← accept ctx .ellipsis then return .vararg else read

def paramList (read : ParseM (List (Param TypeExpr))) : ParseM (List (Param TypeExpr)) := do
  if ← Reader.nextIs (.symbol .closeParen) then return [] else read

mutual

def union (ctx : Context) : (fuel : Nat) → ParseM TypeExpr
  | 0 => do Reader.fail ctx.toFrame (.expectedType (← Reader.peek))
  | fuel + 1 => return ofMembers (← members ctx fuel)

def members (ctx : Context) : (fuel : Nat) → ParseM (List TypeExpr)
  | 0 => do Reader.fail ctx.toFrame (.expectedType (← Reader.peek))
  | fuel + 1 => do
    let t ← marks ctx fuel (← primary ctx fuel)
    continued ctx .pipe t (members ctx fuel)

def primary (ctx : Context) : (fuel : Nat) → ParseM TypeExpr
  | 0 => do Reader.fail ctx.toFrame (.expectedType (← Reader.peek))
  | fuel + 1 => do
    match ← Reader.peek with
    | .name name =>
      let _ ← Reader.advance ctx.toFrame
      -- The truth values are literals and take no arguments.
      if name = "true" ∨ name = "false" then return ofName name
      else if ← accept ctx .openAngle then
        let args ← arguments ctx.inside fuel
        expect ctx .closeAngle
        return .generic name args
      else return ofName name
    | .string content =>
      let _ ← Reader.advance ctx.toFrame
      return .literal (.string content)
    | .number text =>
      let _ ← Reader.advance ctx.toFrame
      return .literal (← Reader.ofNumber (numberLiteral text))
    | .keyword .function => function ctx false fuel
    | .keyword .async =>
      let _ ← Reader.advance ctx.toFrame
      function ctx true fuel
    | .symbol .openBrace =>
      let _ ← Reader.advance ctx.toFrame
      let fields ← fields ctx.inside fuel
      expect ctx .closeBrace
      return .table fields
    | .symbol .openParen =>
      let _ ← Reader.advance ctx.toFrame
      let t ← union ctx.inside fuel
      expect ctx .closeParen
      return t
    | found => Reader.fail ctx.toFrame (.expectedType found)

def arguments (ctx : Context) : (fuel : Nat) → ParseM (List TypeExpr)
  | 0 => do Reader.fail ctx.toFrame (.expectedType (← Reader.peek))
  | fuel + 1 => do
    let t ← union ctx fuel
    continued ctx .comma t (arguments ctx fuel)

def function (ctx : Context) (isAsync : Bool) : (fuel : Nat) → ParseM TypeExpr
  | 0 => do Reader.fail ctx.toFrame (.expectedType (← Reader.peek))
  | fuel + 1 => do
    expectKeyword ctx .function
    expect ctx .openParen
    let params ← paramList (params ctx.inside fuel)
    expect ctx .closeParen
    let returns ← behind ctx .colon [] (returns ctx fuel)
    return .function params returns isAsync

def params (ctx : Context) : (fuel : Nat) → ParseM (List (Param TypeExpr))
  | 0 => do Reader.fail ctx.toFrame (.expectedType (← Reader.peek))
  | fuel + 1 => do
    let name ← paramName ctx
    let optional ← accept ctx .question
    let type ← behind ctx .colon none (some <$> union ctx fuel)
    continued ctx .comma { name, type, optional } (params ctx fuel)

def returns (ctx : Context) : (fuel : Nat) → ParseM (List TypeExpr)
  | 0 => do Reader.fail ctx.toFrame (.expectedType (← Reader.peek))
  | fuel + 1 => do
    let t ← orVararg ctx (union ctx fuel)
    -- Between brackets the comma belongs to what they hold.
    if ctx.nested then return [t] else continued ctx .comma t (returns ctx fuel)

def fields (ctx : Context) : (fuel : Nat) → ParseM (List (Field TypeExpr))
  | 0 => do Reader.fail ctx.toFrame (.expectedType (← Reader.peek))
  | fuel + 1 => do
    let next ← Reader.peek
    if next = .symbol .closeBrace ∨ next = .endOfText then return []
    let f ← field ctx fuel
    continued ctx .comma f (fields ctx fuel)

def field (ctx : Context) : (fuel : Nat) → ParseM (Field TypeExpr)
  | 0 => do Reader.fail ctx.toFrame (.expectedType (← Reader.peek))
  | fuel + 1 => do
    if ← accept ctx .openBracket then
      let key ← union ctx fuel
      expect ctx .closeBracket
      expect ctx .colon
      return { key, type := ← union ctx fuel }
    else match ← Reader.peek with
      | .name name =>
        let _ ← Reader.advance ctx.toFrame
        let optional ← accept ctx .question
        expect ctx .colon
        return { name, type := ← union ctx fuel, optional }
      | found => Reader.fail ctx.toFrame (.expected [.name] found)

end

/--
A type at the head of the tokens. No chain of rules without a token between them has eight steps.
-/
def type (ctx : Context) : ParseM TypeExpr := fun tokens =>
  union ctx (8 * (tokens.length + 1)) tokens

end Parser

def parse (text : String) (line : Int := 1) : Except (ReadError Problem) TypeExpr := do
  let ctx : Parser.Context := { origin := { line } }
  let (t, rest) ← Reader.run ctx.toFrame text.toList (Parser.type ctx)
  match (Reader.first rest).lexeme with
  | .endOfText => return t
  | found => .error (.grammar (.trailing found) (ctx.origin.shift (Reader.first rest).offset))

/--
The longest type at the start of a text whose first character lies at `origin`, and the rest of the text
without surrounding blanks.
-/
def parsePrefix (text : List Char) (origin : Position)
    : Except (ReadError Problem) (TypeExpr × List Char) := do
  let ctx : Parser.Context := { origin, strict := false }
  let (t, rest) ← Reader.run ctx.toFrame text (Parser.type ctx)
  return (t, Text.strip (text.drop (Reader.first rest).offset))

end TypeExpr

end LuaTypes
