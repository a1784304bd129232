import LuaTypes.Decimal.Number
import LuaTypes.Token

/-!
Readers consume tokens one by one, with one token of lookahead. A strict reader fails as soon as an
unknown token comes up for lookahead, whether or not it would have been wanted; a lenient one takes it for
a token that fits nowhere.
-/

namespace LuaTypes

inductive ReadError (π : Type) where
  | token (fault : TokenFault) (position : Position)
  | number (fault : Decimal.NumberFault)
  | grammar (problem : π) (position : Position)
  deriving DecidableEq, Repr

namespace ReadError

variable {π ρ : Type}

def map (f : π → ρ) : ReadError π → ReadError ρ
  | .token fault position => .token fault position
  | .number fault => .number fault
  | .grammar problem position => .grammar (f problem) position

def located (position : Position) (text : String) : String :=
  "Line " ++ Decimal.integerText position.line ++ ", column " ++ Decimal.integerText position.column ++
    ": " ++ text

def message (text : π → String) : ReadError π → String
  | .token fault position => located position fault.message
  | .number fault => fault.message
  | .grammar problem position => located position (text problem)

end ReadError

/--
How a reader takes its text: where the first character of the text lies in the source, and whether
unknown tokens are refused.
-/
structure Frame where
  origin : Position := {}
  strict : Bool := true

abbrev Reader (π : Type) := StateT (List Token) (Except (ReadError π))

namespace Reader

variable {π : Type}

def first (tokens : List Token) : Token :=
  tokens.headD ⟨.endOfText, 0⟩

def guardKnown (frame : Frame) (tokens : List Token) : Except (ReadError π) Unit :=
  match (first tokens).lexeme with
  | .unknown _ failed =>
    if frame.strict then
      .error (.token failed.fault (frame.origin.shift ((first tokens).offset + failed.offset)))
    else .ok ()
  | _ => .ok ()

def peek : Reader π Lexeme := do
  return (first (← get)).lexeme

def advance (frame : Frame) : Reader π Lexeme := fun tokens =>
  match tokens with
  | t :: u :: rest => do
    -- The token behind the consumed one is looked at here, so a strict reader fails at it even if no rule
    -- would have asked for it.
    guardKnown frame (u :: rest)
    return (t.lexeme, u :: rest)
  | tokens => .ok ((first tokens).lexeme, tokens)

def nextIs (lexeme : Lexeme) : Reader π Bool := do
  return (← peek) = lexeme

def fail {α : Type} (frame : Frame) (problem : π) : Reader π α := fun tokens =>
  .error (.grammar problem (frame.origin.shift (first tokens).offset))

def ofNumber {α : Type} : Except Decimal.NumberFault α → Reader π α
  | .ok x => pure x
  | .error fault => fun _ => .error (.number fault)

def accept (frame : Frame) (lexeme : Lexeme) : Reader π Bool := do
  if ← nextIs lexeme then
    let _ ← advance frame
    return true
  else return false

def run {α : Type} (frame : Frame) (text : List Char) (r : Reader π α)
    : Except (ReadError π) (α × List Token) := do
  let tokens := Token.scan text
  guardKnown frame tokens
  StateT.run r tokens

end Reader

def Token.tokenize (line : Int) (text : List Char) : Except (ReadError Empty) (List Token) := do
  let tokens := Token.scan text
  match tokens.find? fun t => match t.lexeme with | .unknown .. => true | _ => false with
  | some t =>
    Reader.guardKnown { origin := { line } } [t]
    return tokens
  | none => return tokens

end LuaTypes
