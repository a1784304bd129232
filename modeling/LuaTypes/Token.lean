import LuaTypes.Text.Blank
import LuaTypes.Text.Numeral
import LuaTypes.Text.Quoted

/-!
Tokens of type expressions and of calls. Every text has tokens: where none can start, a single character
is passed over as an unknown token, which remembers why reading failed there. The tokens of a text lie
one after the other in it, with nothing but spaces between them, and an end token follows.
-/

namespace LuaTypes

structure Position where
  line : Int := 1
  column : Int := 1
  deriving DecidableEq, Repr

def Position.shift (p : Position) (n : Nat) : Position :=
  { p with column := p.column + n }

inductive Symbol where
  | pipe
  | question
  | ellipsis
  | brackets
  | openParen
  | closeParen
  | openBracket
  | closeBracket
  | openBrace
  | closeBrace
  | openAngle
  | closeAngle
  | colon
  | comma
  deriving DecidableEq, Repr

namespace Symbol

def text : Symbol → String
  | .pipe => "|"
  | .question => "?"
  | .ellipsis => "..."
  | .brackets => "[]"
  | .openParen => "("
  | .closeParen => ")"
  | .openBracket => "["
  | .closeBracket => "]"
  | .openBrace => "\x7b"
  | .closeBrace => "\x7d"
  | .openAngle => "<"
  | .closeAngle => ">"
  | .colon => ":"
  | .comma => ","

def ofChar? : Char → Option Symbol
  | '|' => some .pipe
  | '?' => some .question
  | '(' => some .openParen
  | ')' => some .closeParen
  | '[' => some .openBracket
  | ']' => some .closeBracket
  | '{' => some .openBrace
  | '}' => some .closeBrace
  | '<' => some .openAngle
  | '>' => some .closeAngle
  | ':' => some .colon
  | ',' => some .comma
  | _ => none

end Symbol

inductive Keyword where
  | function
  | async
  deriving DecidableEq, Repr

namespace Keyword

def text : Keyword → String
  | .function => "fun"
  | .async => "async"

def ofWord? (word : List Char) : Option Keyword :=
  if word = ['f', 'u', 'n'] then some .function
  else if word = ['a', 's', 'y', 'n', 'c'] then some .async
  else none

end Keyword

inductive TokenFault where
  | unexpected (c : Char)
  | invalidEscape (escaped : Option Char)
  | unterminatedString
  deriving DecidableEq, Repr

namespace TokenFault

def message : TokenFault → String
  | .unexpected c => "Unexpected character: " ++ Text.quoted (String.singleton c)
  | .invalidEscape escaped =>
    "Invalid escape sequence: '\\" ++ String.ofList escaped.toList ++ "'"
  | .unterminatedString => "Unterminated string literal"

end TokenFault

/--
A failed attempt to read a token: the cause lies `offset` characters after the start of the attempt,
which gave up after `length` characters.
-/
structure FailedToken where
  fault : TokenFault
  offset : Nat
  length : Nat
  deriving DecidableEq, Repr

inductive Lexeme where
  | symbol (symbol : Symbol)
  | keyword (keyword : Keyword)
  | string (content : String)
  | number (text : String)
  | name (text : String)
  | unknown (c : Char) (failed : FailedToken)
  | endOfText
  deriving DecidableEq, Repr

namespace Lexeme

def text : Lexeme → String
  | .symbol s => s.text
  | .keyword k => k.text
  | .string content => content
  | .number text => text
  | .name text => text
  | .unknown c _ => String.singleton c
  | .endOfText => ""

def unescape? : Char → Option Char
  | 'n' => some '\n'
  | 't' => some '\t'
  | '\\' => some '\\'
  | '"' => some '"'
  | '\'' => some '\''
  | _ => none

/--
The characters of a string up to its closing quotation mark, and the number of characters read with it;
or the fault with the number of characters before it, and the number of characters read.
-/
def stringBody (mark : Char) : List Char → Except (TokenFault × Nat) (List Char × Nat)
  | [] => .error (.unterminatedString, 0)
  | '\\' :: cs =>
    match cs with
    -- A backslash at the end of the text escapes nothing.
    | [] => .error (.invalidEscape none, 0)
    | e :: cs =>
      match unescape? e with
      | none => .error (.invalidEscape (some e), 0)
      | some c =>
        match stringBody mark cs with
        | .ok (content, length) => .ok (c :: content, length + 2)
        | .error (fault, length) => .error (fault, length + 2)
  | c :: cs =>
    if c = mark then .ok ([], 1)
    else
      match stringBody mark cs with
      | .ok (content, length) => .ok (c :: content, length + 1)
      | .error (fault, length) => .error (fault, length + 1)

/--
The string that starts with the quotation mark `mark` before `cs`. An invalid escape is reported where
it stands, a missing end at the start of the string.
-/
def ofString (mark : Char) (cs : List Char) : Lexeme × Nat :=
  match stringBody mark cs with
  | .ok (content, length) => (.string (String.ofList content), length + 1)
  | .error (.unterminatedString, length) =>
    (.unknown mark ⟨.unterminatedString, 0, length + 1⟩, 1)
  | .error (fault, length) => (.unknown mark ⟨fault, length + 1, length + 1⟩, 1)

def numberRest (cs : List Char) : List Char :=
  cs.takeWhile Text.isDigit ++
    match cs.dropWhile Text.isDigit with
    | '.' :: d :: ds => if Text.isDigit d then '.' :: d :: ds.takeWhile Text.isDigit else []
    | _ => []

def isNameStart (c : Char) : Bool :=
  Text.isLetter c || c == '_'

def namePart : List Char → List Char
  | [] => []
  | c :: cs =>
    if Text.isWordChar c || (c == '.' && cs.head?.any isNameStart) then c :: namePart cs else []

def ofWord (word : List Char) : Lexeme :=
  match Keyword.ofWord? word with
  | some k => .keyword k
  | none => .name (String.ofList word)

def read (c : Char) (cs : List Char) : Lexeme × Nat :=
  match c, cs with
  -- The symbols of several characters go before those of one.
  | '.', '.' :: '.' :: _ => (.symbol .ellipsis, 3)
  | '[', ']' :: _ => (.symbol .brackets, 2)
  | c, cs =>
    match Symbol.ofChar? c with
    | some s => (.symbol s, 1)
    | none =>
      if c = '"' ∨ c = '\'' ∨ c = '\x60' then ofString c cs
      else if Text.isDigit c || (c == '-' && cs.head?.any Text.isDigit) then
        let rest := numberRest cs
        (.number (String.ofList (c :: rest)), rest.length + 1)
      else if isNameStart c then
        let rest := namePart cs
        (ofWord (c :: rest), rest.length + 1)
      else (.unknown c ⟨.unexpected c, 0, 0⟩, 1)

end Lexeme

structure Token where
  lexeme : Lexeme
  offset : Nat
  deriving DecidableEq, Repr

namespace Token

def isSpace (c : Char) : Bool :=
  c == ' ' || c == '\t' || c == '\r' || c == '\n'

def scanFrom (skip offset : Nat) : List Char → List Token
  | [] => [⟨.endOfText, offset⟩]
  | c :: cs =>
    match skip with
    | skip + 1 => scanFrom skip (offset + 1) cs
    | 0 =>
      if isSpace c then scanFrom 0 (offset + 1) cs
      else
        let (lexeme, length) := Lexeme.read c cs
        ⟨lexeme, offset⟩ :: scanFrom (length - 1) (offset + 1) cs

def scan (text : List Char) : List Token :=
  scanFrom 0 0 text

end Token

structure Lexer where
  offset : Nat
  rest : List Char

namespace Lexer

def ofText (text : List Char) : Lexer :=
  ⟨0, text⟩

def skip (l : Lexer) (n : Nat) : Lexer :=
  ⟨l.offset + n, l.rest.drop n⟩

def next (l : Lexer) : Token × Lexer :=
  let l := l.skip (l.rest.takeWhile Token.isSpace).length
  match l.rest with
  | [] => (⟨.endOfText, l.offset⟩, l)
  | c :: cs =>
    let (lexeme, length) := Lexeme.read c cs
    (⟨lexeme, l.offset⟩, l.skip length)

def nextKnown (l : Lexer) : Except (FailedToken × Nat) Token × Lexer :=
  match l.next with
  | (⟨.unknown _ failed, offset⟩, _) =>
    let start := l.skip (l.rest.takeWhile Token.isSpace).length
    (.error (failed, offset), start.skip failed.length)
  | (t, l) => (.ok t, l)

end Lexer

end LuaTypes
