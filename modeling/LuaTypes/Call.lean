import LuaTypes.Token.Reader
import LuaTypes.TypeExpr.Parser

/-!
Calls with literal arguments. A call is read down to the name of its function and the types of its
arguments: literals keep their values, table constructors are tables, and of anything else nothing is
known.
-/

namespace LuaTypes

structure Call where
  callee : String
  args : List TypeExpr := []

namespace Call

inductive Problem where
  | expected (terminal : TypeExpr.Terminal) (found : Lexeme)
  | expectedArgument (found : Lexeme)
  | trailing (found : Lexeme)
  | unterminated (opening : Symbol)
  deriving DecidableEq, Repr

namespace Problem

def describe (lexeme : Lexeme) : String :=
  Text.quoted (if lexeme.text.isEmpty then "end of input" else lexeme.text)

def message : Problem → String
  | .expected terminal found =>
    "Expected " ++ Text.quoted terminal.text ++ ", got " ++ describe found
  | .expectedArgument found => "Expected an argument, got " ++ describe found
  | .trailing found => "Unexpected " ++ Text.quoted found.text
  | .unterminated opening => "Unterminated " ++ Text.quoted opening.text

end Problem

namespace Parser

abbrev ParseM := Reader Problem

def frame : Frame := {}

def advance : ParseM Lexeme := Reader.advance frame

def expect (symbol : Symbol) : ParseM Unit := do
  let found ← Reader.peek
  if found = .symbol symbol then
    let _ ← advance
  else Reader.fail frame (.expected (.symbol symbol) found)

def name : ParseM String := do
  match ← Reader.peek with
  | .name name =>
    let _ ← advance
    return name
  | found => Reader.fail frame (.expected .name found)

def finish : ParseM Unit := do
  match ← Reader.peek with
  | .endOfText => return
  | found => Reader.fail frame (.trailing found)

/--
Consumes tokens up to the symbol that closes the bracket before them; `depth` brackets of the kind are
open within it. The fuel bounds the number of tokens.
-/
def skipBracket (opening closing : Symbol) : (fuel depth : Nat) → ParseM Unit
  | 0, _ => Reader.fail frame (.unterminated opening)
  | fuel + 1, depth => do
    let next ← Reader.peek
    if next = .endOfText then Reader.fail frame (.unterminated opening)
    let _ ← advance
    if next = .symbol opening then skipBracket opening closing fuel (depth + 1)
    else if next = .symbol closing then
      match depth with
      | 0 => return
      | depth + 1 => skipBracket opening closing fuel depth
    else skipBracket opening closing fuel depth

def skipBalanced (opening closing : Symbol) : ParseM Unit := do
  let _ ← advance
  skipBracket opening closing ((← get).length + 1) 0

def word (text : String) : ParseM TypeExpr := do
  let _ ← advance
  if text = "true" then return .literal (.boolean true)
  else if text = "false" then return .literal (.boolean false)
  else if text = "nil" then return TypeExpr.nil
  else
    if (← Reader.peek) = .symbol .openParen then skipBalanced .openParen .closeParen
    return TypeExpr.any

def argument : ParseM TypeExpr := do
  match ← Reader.peek with
  | .string content =>
    let _ ← advance
    return .literal (.string content)
  | .number text =>
    let _ ← advance
    return .literal (← Reader.ofNumber (TypeExpr.Parser.numberLiteral text))
  | .symbol .openBrace =>
    skipBalanced .openBrace .closeBrace
    return .named "table"
  | .name text => word text
  | .keyword k => word k.text
  | found => Reader.fail frame (.expectedArgument found)

def arguments : (fuel : Nat) → ParseM (List TypeExpr)
  | 0 => do Reader.fail frame (.expectedArgument (← Reader.peek))
  | fuel + 1 => do
    let t ← argument
    if (← Reader.peek) = .symbol .comma then
      let _ ← advance
      return t :: (← arguments fuel)
    else return [t]

def call : ParseM Call := do
  let first ← name
  let callee ←
    if (← Reader.peek) = .symbol .colon then do
      let _ ← advance
      pure (first ++ ":" ++ (← name))
    else pure first
  expect .openParen
  let args ←
    if (← Reader.peek) = .symbol .closeParen then pure []
    else arguments ((← get).length + 1)
  expect .closeParen
  finish
  return { callee, args }

end Parser

def parse (text : String) : Except (ReadError Problem) Call := do
  return (← Reader.run Parser.frame text.toList Parser.call).1

def parseValue (text : String) : Except (ReadError Problem) TypeExpr := do
  let value : Reader Problem TypeExpr := do
    let t ← Parser.argument
    Parser.finish
    return t
  return (← Reader.run Parser.frame text.toList value).1

end Call

end LuaTypes
