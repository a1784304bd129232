import LuaTypes.Yaml.Token

/-!
From a text to its tokens. Indentation opens and closes collections of a block, and a colon makes a key
of what stands before it on its line, so the token of a key is put in when its colon is found.
-/

namespace LuaTypes.Yaml.Token

/--
A node that a colon may make a key: its place, and how many tokens precede it. In a block it has to be a
key if it stands at the indentation of its collection.
-/
structure Candidate where
  tokens : Nat
  required : Bool
  index : Nat
  line : Nat
  column : Nat

def maxKeyLength : Nat := 1024

/--
The state of reading: the tokens so far, the last one first, the columns of the open collections of the
block, the innermost first, and one candidate for a key at most for each open flow collection and for
the block around them.
-/
structure Scanner where
  cursor : Cursor
  tokens : List Token := []
  count : Nat := 0
  columns : List Nat := []
  candidate : Option Candidate := none
  outer : List (Option Candidate) := []
  keyAllowed : Bool := true

namespace Scanner

def inFlow (s : Scanner) : Bool :=
  ! s.outer.isEmpty

def indent (s : Scanner) : Int :=
  match s.columns with
  | [] => -1
  | column :: _ => column

def push (s : Scanner) (t : Token) : Scanner :=
  { s with tokens := t :: s.tokens, count := s.count + 1 }

def insert (s : Scanner) (n : Nat) (t : Token) : Scanner :=
  { s with tokens := s.tokens.insertIdx (s.count - n) t, count := s.count + 1 }

def close (column : Int) : List Nat → Scanner → Scanner
  | [], s => { s with columns := [] }
  | c :: cs, s => if column < c then close column cs (s.push .blockEnd) else { s with columns := c :: cs }

def unwind (s : Scanner) (column : Int) : Scanner :=
  if s.inFlow then s else close column s.columns s

def open? (s : Scanner) (column : Nat) : Option Scanner :=
  if s.indent < column then some { s with columns := column :: s.columns } else none

/-! Candidates -/

def dropCandidate (s : Scanner) : Except Error Scanner :=
  if s.candidate.any (·.required) then .error .malformed else .ok { s with candidate := none }

def isStale (c : Cursor) (k : Candidate) : Bool :=
  k.line ≠ c.line || maxKeyLength < c.index - k.index

def dropStale (s : Scanner) : Except Error Scanner :=
  let stale (k : Option Candidate) := k.any (isStale s.cursor)
  if (s.candidate :: s.outer).any fun k => stale k && k.any (·.required) then .error .malformed
  else
    let keep (k : Option Candidate) := if stale k then none else k
    .ok { s with candidate := keep s.candidate, outer := s.outer.map keep }

def saveCandidate (s : Scanner) : Except Error Scanner := do
  if ! s.keyAllowed then return s
  let c := s.cursor
  -- What starts a line at the indentation of its collection can only be the next key.
  let required := ! s.inFlow && s.indent = c.column
  let s ← s.dropCandidate
  return { s with candidate := some ⟨s.count, required, c.index, c.line, c.column⟩ }

/-! Tokens -/

def skipBlanks : Nat → Scanner → Scanner
  | 0, s => s
  | fuel + 1, s =>
    let c := s.cursor.skipSpaces.skipComment
    match c.lineBreak? with
    | none => { s with cursor := c }
    | some (_, c) => skipBlanks fuel { s with cursor := c, keyAllowed := s.keyAllowed || ! s.inFlow }

def marker (s : Scanner) (t : Token) (c : Cursor) : Except Error Scanner := do
  let s ← (s.unwind (-1)).dropCandidate
  return { s.push t with cursor := c, keyAllowed := false }

def openFlow (s : Scanner) (t : Token) : Except Error Scanner := do
  let s ← s.saveCandidate
  return { s.push t with
    candidate := none, outer := s.candidate :: s.outer, keyAllowed := true, cursor := s.cursor.next }

def closeFlow (s : Scanner) (t : Token) : Except Error Scanner := do
  let s ← s.dropCandidate
  match s.outer with
  | [] => throw .malformed
  | k :: ks =>
    return { s.push t with candidate := k, outer := ks, keyAllowed := false, cursor := s.cursor.next }

/--
An indicator of an entry, a key or a value. In a block it has to stand where a key may start, and opens a
collection of the kind `start` if it is indented more than the last one.
-/
def entry (s : Scanner) (start t : Token) (keyAllowed : Bool) : Except Error Scanner := do
  let s ←
    if s.inFlow then pure s
    else if ! s.keyAllowed then throw .malformed
    else match s.open? s.cursor.column with
      | some s => pure (s.push start)
      | none => pure s
  let s ← s.dropCandidate
  return { s.push t with keyAllowed, cursor := s.cursor.next }

def colon (s : Scanner) : Except Error Scanner :=
  match s.candidate with
  | none => s.entry .blockMapping .value (! s.inFlow)
  | some k =>
    -- Only the colon shows that the node before it was a key: its tokens come in late.
    let s := s.insert k.tokens .key
    let s := if s.inFlow then s else match s.open? k.column with
      | some s => s.insert k.tokens .blockMapping
      | none => s
    .ok { s.push .value with candidate := none, keyAllowed := false, cursor := s.cursor.next }

def content (s : Scanner) (read : Cursor → Except Error (Token × Cursor)) : Except Error Scanner := do
  let s ← s.saveCandidate
  let (t, c) ← read s.cursor
  return { s.push t with keyAllowed := false, cursor := c }

def named (token : List Char → Token) (c : Cursor) : Except Error (Token × Cursor) := do
  let (name, c) ← name c.next
  return (token name, c)

def quoted (mark : Char) (c : Cursor) : Except Error (Token × Cursor) := do
  let (text, c) ← Scalar.quoted mark c
  return (scalar text false, c)

def blockScalar (s : Scanner) (folding : Bool) : Except Error Scanner := do
  let s ← s.dropCandidate
  let (text, c) ← Scalar.block folding s.indent s.cursor
  return { s.push (scalar text false) with keyAllowed := true, cursor := c }

def plainScalar (s : Scanner) : Except Error Scanner := do
  let s ← s.saveCandidate
  let (text, c, keyAllowed) := Scalar.plain s.inFlow (s.indent + 1) s.cursor
  return { s.push (scalar text true) with keyAllowed, cursor := c }

def startsPlain (inFlow : Bool) (c : Char) (following : Option Char) : Bool :=
  ! (endsWordOrTab (some c) || ("-?:,[]\x7b\x7d#&*!|>'\"%@\x60".toList).contains c) ||
    (! endsWordOrTab following && (c == '-' || (! inFlow && (c == '?' || c == ':'))))

def token (s : Scanner) (c : Char) (rest : List Char) : Except Error Scanner :=
  let following := rest.head?
  let atMarker := s.cursor.column == 0 && s.cursor.isAtMarker
  if c = '%' ∧ s.cursor.column = 0 then do
    let s ← (s.unwind (-1)).dropCandidate
    let (t, c) ← readDirective s.cursor
    return { s.push t with keyAllowed := false, cursor := c }
  else if c = '-' ∧ atMarker then s.marker .documentStart (s.cursor.drop 3)
  else if c = '.' ∧ atMarker then s.marker .documentEnd (s.cursor.drop 3)
  else if c = '[' then s.openFlow .openSequence
  else if c = '\x7b' then s.openFlow .openMapping
  else if c = ']' then s.closeFlow .closeSequence
  else if c = '\x7d' then s.closeFlow .closeMapping
  else if c = ',' then do
    let s ← s.dropCandidate
    return { s.push .flowEntry with keyAllowed := true, cursor := s.cursor.next }
  else if c = '-' ∧ endsWordOrTab following then s.entry .blockSequence .blockEntry true
  else if c = '?' ∧ (s.inFlow ∨ endsWordOrTab following) then s.entry .blockMapping .key (! s.inFlow)
  else if c = ':' ∧ (s.inFlow ∨ endsWordOrTab following) then s.colon
  else if c = '*' then s.content (named .alias)
  else if c = '&' then s.content (named .anchor)
  else if c = '!' then s.content readTag
  else if c = '|' ∧ ! s.inFlow then s.blockScalar false
  else if c = '>' ∧ ! s.inFlow then s.blockScalar true
  else if c = '\'' ∨ c = '"' then s.content (quoted c)
  else if startsPlain s.inFlow c following then s.plainScalar
  else .error .malformed

def step (s : Scanner) : Except Error (List Token ⊕ Scanner) := do
  let s ← (skipBlanks (s.cursor.rest.length + 1) s).dropStale
  -- A token that is less indented than the collections before it ends them.
  let s := s.unwind s.cursor.column
  match s.cursor.rest with
  | [] =>
    let s ← s.marker .endOfText s.cursor
    return .inl s.tokens
  | c :: rest => return .inr (← s.token c rest)

def run : Nat → Scanner → List Token
  | 0, s => .fault .malformed :: s.tokens
  | fuel + 1, s =>
    match s.step with
    | .error e => .fault e :: s.tokens
    | .ok (.inl tokens) => tokens
    | .ok (.inr s) => run fuel s

end Scanner

def scan (text : List Char) : List Token :=
  if ! text.all isAllowed then [.fault .malformed]
  else
    let c := Cursor.ofText text
    let c := if c.peek? = some Cursor.byteOrderMark then c.next else c
    (Scanner.run (text.length + 1) { cursor := c }).reverse

end LuaTypes.Yaml.Token
