import LuaTypes.Text.Quoted
import LuaTypes.Yaml.Tag

/-!
Writing of texts as YAML, in ASCII characters. A text is plain if it is read back as that text, else
between single marks, and between double marks if it needs escapes. Long lines are broken at spaces.
-/

namespace LuaTypes.Yaml.Printer

def width : Nat := 80

def indentation : Nat := 2

def brokenLine : List Char := '\n' :: List.replicate indentation ' '

/-! Forms -/

inductive Form where
  | plain
  | single
  | double
  deriving DecidableEq, Repr

def isGraphic (c : Char) : Bool :=
  c.toNat < 0x7F && 0x20 ≤ c.toNat

def adjoin (c d : Char) : List Char → Bool
  | x :: y :: rest => (x = c && y = d) || adjoin c d (y :: rest)
  | _ => false

def hasMark : List Char → Bool
  | x :: y :: rest => (y = ':' && rest.head?.all (· = ' ')) || (x = ' ' && y = '#') || hasMark (y :: rest)
  | _ => false

def startsWithMark : List Char → Bool
  | [] => true
  | c :: cs =>
    ("#,[]\x7b\x7d&*!|>'\"%@\x60".toList).contains c ||
      ((c = '?' || c = ':' || c = '-') && cs.head?.all (· = ' ')) ||
      (c :: cs).take 3 = ['-', '-', '-'] || (c :: cs).take 3 = ['.', '.', '.']

def isPlain (text : List Char) : Bool :=
  text.all isGraphic && text.head? ≠ some ' ' && text.getLast? ≠ some ' ' && ! startsWithMark text &&
    ! hasMark text && Tag.ofPlain text = .string

def isSingle (text : List Char) : Bool :=
  text.all (fun c => isGraphic c || c = '\n') && ! adjoin ' ' '\n' text && ! adjoin '\n' ' ' text

def form (text : List Char) : Form :=
  if isPlain text then .plain else if isSingle text then .single else .double

/-! Lines -/

def sameRun (c d : Char) : Bool :=
  (c == ' ') == (d == ' ') && (c == '\n') == (d == '\n')

def runs : List Char → List (List Char)
  | [] => []
  | c :: cs =>
    match runs cs with
    | (d :: ds) :: rest => if sameRun c d then (c :: d :: ds) :: rest else [c] :: (d :: ds) :: rest
    | rest => [c] :: rest

/--
The parts of a text from a column on. A space where the line is full becomes a line break, but not at
the start and the end of the text.
-/
def writeRuns (column : Nat) (first : Bool) : List (List Char) → List Char
  | [] => []
  | run :: rest =>
    let (text, column) :=
      if run = [' '] && width < column && ! first && ! rest.isEmpty then (brokenLine, indentation)
      else if run.head? = some '\n' then ('\n' :: run ++ List.replicate indentation ' ', indentation)
      else (run, column + run.length)
    text ++ writeRuns column false rest

def doubled (text : List Char) : List Char :=
  text.flatMap fun c => if c = '\'' then ['\'', '\''] else [c]

def escapeLetter? (c : Char) : Option Char :=
  match c with
  | '"' => some '"'
  | '\\' => some '\\'
  | '\n' => some 'n'
  | '\r' => some 'r'
  | '\t' => some 't'
  | '\u2028' => some 'L'
  | '\u2029' => some 'P'
  | c => match c.toNat with
    | 0x00 => some '0'
    | 0x07 => some 'a'
    | 0x08 => some 'b'
    | 0x0B => some 'v'
    | 0x0C => some 'f'
    | 0x1B => some 'e'
    | 0x85 => some 'N'
    | 0xA0 => some '_'
    | _ => none

def hexCode (width n : Nat) : List Char :=
  (Text.hexDigits width n).map Char.toUpper

def escape? (c : Char) : Option (List Char) :=
  match escapeLetter? c with
  | some letter => some ['\\', letter]
  | none =>
    if isGraphic c then none
    else
      let n := Text.codePoint c
      if n < 0x100 then some ('\\' :: 'x' :: hexCode 2 n)
      else if n < 0x10000 then some ('\\' :: 'u' :: hexCode 4 n)
      else some ('\\' :: 'U' :: hexCode 8 n)

def writeEscaped (column : Nat) (first : Bool) (pending : List Char) : List Char → List Char
  | [] => pending.reverse
  | c :: cs =>
    let mayBreak := ! first && ! cs.isEmpty
    match escape? c with
    | some code =>
      let column := column + pending.length + code.length
      let (after, column) :=
        if mayBreak && width < column - 1 then
          if cs.head? = some ' ' then ('\\' :: brokenLine ++ ['\\'], indentation + 1)
          else ('\\' :: brokenLine, indentation)
        else ([], column)
      pending.reverse ++ code ++ after ++ writeEscaped column false [] cs
    | none =>
      if mayBreak && (c = ' ' || pending.isEmpty) && width < column + pending.length then
        let (after, column) :=
          if c = ' ' then ('\\' :: brokenLine ++ ['\\'], indentation + 1)
          else ('\\' :: brokenLine, indentation)
        pending.reverse ++ after ++ writeEscaped column false [c] cs
      else writeEscaped column false (c :: pending) cs

def text (column : Nat) (s : String) : String :=
  let cs := s.toList
  String.ofList <| match form cs with
    | .plain => writeRuns column true (runs cs)
    | .single => '\'' :: (writeRuns (column + 1) true (runs (doubled cs)) ++ ['\''])
    | .double => '"' :: (writeEscaped (column + 1) true [] cs ++ ['"'])

/-! Entries -/

def entry (key value : String) : String :=
  key ++ ": " ++ text (key.length + 2) value ++ "\n"

def listEntry (key : String) (values : List String) : String :=
  if values.isEmpty then key ++ ": []\n"
  else key ++ ":\n" ++ Text.join "" (values.map fun v => "- " ++ text 2 v ++ "\n")

end LuaTypes.Yaml.Printer
