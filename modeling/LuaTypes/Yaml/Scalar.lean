import LuaTypes.Text.Surrogate
import LuaTypes.Yaml.Cursor
import LuaTypes.Yaml.Error

/-!
Texts of scalars: quoted ones, plain ones, and blocks of lines. A single line break within a quoted,
plain or folded scalar is a space, and each further one stands for itself.
-/

namespace LuaTypes.Yaml.Scalar

/--
What a line break and the empty lines after it stand for.
-/
def folded (lineEnd : Char) (breaks : List Char) : List Char :=
  if lineEnd ≠ '\n' then lineEnd :: breaks
  else if breaks.isEmpty then [' '] else breaks

/-! Quoted scalars -/

def escape? : Char → Option Char
  | '0' => some '\x00'
  | 'a' => some '\x07'
  | 'b' => some '\x08'
  | 't' => some '\t'
  | '\t' => some '\t'
  | 'n' => some '\n'
  | 'v' => some '\x0b'
  | 'f' => some '\x0c'
  | 'r' => some '\r'
  | 'e' => some '\x1b'
  | ' ' => some ' '
  | '"' => some '"'
  | '\\' => some '\\'
  | '/' => some '/'
  | 'N' => some '\u0085'
  | '_' => some '\u00a0'
  | 'L' => some '\u2028'
  | 'P' => some '\u2029'
  | _ => none

def codeWidth? : Char → Option Nat
  | 'x' => some 2
  | 'u' => some 4
  | 'U' => some 8
  | _ => none

def hexValue? (c : Char) : Option Nat :=
  if c.isDigit then some (c.toNat - 0x30)
  else if 'a' ≤ c ∧ c ≤ 'f' then some (c.toNat - 0x61 + 10)
  else if 'A' ≤ c ∧ c ≤ 'F' then some (c.toNat - 0x41 + 10)
  else none

def hexCode? (width : Nat) (digits : List Char) : Option Nat :=
  if digits.length < width then none
  else (digits.take width).foldlM (fun n c => (hexValue? c).map (16 * n + ·)) 0

def quotedBreaks : Nat → Cursor → Except Error (List Char × Cursor)
  | 0, c => .ok ([], c)
  | fuel + 1, c =>
    if c.isAtMarker then .error .malformed
    else
      let c := c.skipWhile fun ch => ch == ' ' || ch == '\t'
      match c.lineBreak? with
      | none => .ok ([], c)
      | some (b, c) => do
        let (bs, c) ← quotedBreaks fuel c
        return (b :: bs, c)

def quotedGap (c : Cursor) : Except Error (List Char × Cursor) :=
  let (blanks, c) := c.takeWhile fun ch => ch == ' ' || ch == '\t'
  match c.lineBreak? with
  | none => .ok (blanks, c)
  | some (b, c) => do
    let (bs, c) ← quotedBreaks (c.rest.length + 1) c
    return (folded b bs, c)

def escaped (c : Cursor) : Except Error (List Char × Cursor) :=
  match c.rest with
  | [] => .error .malformed
  | ch :: rest =>
    match escape? ch, codeWidth? ch, c.lineBreak? with
    | some x, _, _ => .ok ([x], c.next)
    | none, some width, _ =>
      match hexCode? width rest with
      | none => .error .malformed
      | some code =>
        if code < 0x110000 then .ok ([Text.ofCodePoint code], c.drop (width + 1))
        else .error (.characterCode code)
    | none, none, some (_, c) => quotedBreaks (c.rest.length + 1) c
    | none, none, none => .error .malformed

def quotedFrom (mark : Char) : Nat → Cursor → Except Error (List Char × Cursor)
  | 0, _ => .error .malformed
  | fuel + 1, c =>
    match c.rest with
    | [] => .error .malformed
    | ch :: rest =>
      if ch = mark then
        if mark = '\'' ∧ rest.head? = some '\'' then do
          let (text, c) ← quotedFrom mark fuel (c.drop 2)
          return ('\'' :: text, c)
        else .ok ([], c.next)
      else do
        let (piece, c) ←
          if ch = '\\' ∧ mark = '"' then escaped c.next
          else if ch = ' ' ∨ ch = '\t' ∨ isBreak ch then quotedGap c
          else .ok ([ch], c.next)
        let (text, c) ← quotedFrom mark fuel c
        return (piece ++ text, c)

def quoted (mark : Char) (c : Cursor) : Except Error (List Char × Cursor) :=
  quotedFrom mark (c.rest.length + 1) c.next

/-! Plain scalars -/

def isFlowMark (c : Char) : Bool :=
  c == ',' || c == '[' || c == ']' || c == '\x7b' || c == '\x7d'

def endsKey (inFlow : Bool) (c : Option Char) : Bool :=
  endsWordOrTab c || (inFlow && c.any isFlowMark)

def plainWord (inFlow : Bool) : List Char → List Char
  | [] => []
  | c :: cs =>
    if endsWordOrTab (some c) || (c == ':' && endsKey inFlow cs.head?) ||
        (inFlow && (isFlowMark c || c == '?')) then []
    else c :: plainWord inFlow cs

structure Gap where
  text : List Char
  cursor : Cursor
  hasBreak : Bool

def plainBreaks : Nat → Cursor → Option (List Char) × Cursor
  | 0, c => (some [], c)
  | fuel + 1, c =>
    if c.isAtMarker then (none, c)
    else
      let c := c.skipSpaces
      match c.lineBreak? with
      | none => (some [], c)
      | some (b, c) =>
        let (bs, c) := plainBreaks fuel c
        (bs.map (b :: ·), c)

def plainGap (c : Cursor) : Gap :=
  let (spaces, c) := c.takeWhile (· == ' ')
  match c.lineBreak? with
  | none => ⟨spaces, c, false⟩
  | some (b, c) =>
    match plainBreaks (c.rest.length + 1) c with
    | (none, c) => ⟨[], c, true⟩
    | (some bs, c) => ⟨folded b bs, c, true⟩

/--
The text of a plain scalar from here on. In a block it goes on only in lines that are indented by at
least `indent`. Yields also whether a line break stands between the scalar and the place after it.
-/
def plainFrom (inFlow : Bool) (indent : Int) : Nat → Cursor → List Char × Cursor × Bool
  | 0, c => ([], c, false)
  | fuel + 1, c =>
    let word := plainWord inFlow c.rest
    let gap := plainGap (c.drop word.length)
    if word.isEmpty then ([], c, false)
    else if gap.text.isEmpty || gap.cursor.peek? == some '#' ||
        (! inFlow && (gap.cursor.column : Int) < indent) then (word, gap.cursor, gap.hasBreak)
    else
      let (text, c, hasBreak) := plainFrom inFlow indent fuel gap.cursor
      if text.isEmpty then (word, c, gap.hasBreak) else (word ++ gap.text ++ text, c, hasBreak)

def plain (inFlow : Bool) (indent : Int) (c : Cursor) : List Char × Cursor × Bool :=
  plainFrom inFlow indent (c.rest.length + 1) c

/-! Blocks of lines -/

inductive Chomping where
  | strip
  | clip
  | keep
  deriving DecidableEq, Repr

def chomping? : Option Char → Option Chomping
  | some '+' => some .keep
  | some '-' => some .strip
  | _ => none

def increment? (c : Option Char) : Except Error (Option Nat) :=
  match c with
  | some d =>
    if d = '0' then .error .malformed
    else .ok (if d.isDigit then some (d.toNat - 0x30) else none)
  | none => .ok none

/--
What follows the sign of a block: its chomping and its indentation in either order.
-/
def header (c : Cursor) : Except Error (Chomping × Option Nat × Cursor) := do
  let (chomping, increment, c) ← match chomping? c.peek? with
    | some chomping =>
      match ← increment? c.next.peek? with
      | none => pure (chomping, none, c.next)
      | some n => pure (chomping, some n, c.drop 2)
    | none =>
      match ← increment? c.peek? with
      | none => pure (.clip, none, c)
      | some n =>
        match chomping? c.next.peek? with
        | none => pure (.clip, some n, c.next)
        | some chomping => pure (chomping, some n, c.drop 2)
  if endsWord c.peek? then return (chomping, increment, c) else throw .malformed

def restOfLine (c : Cursor) : Except Error Cursor :=
  let c := c.skipSpaces.skipComment
  match c.lineBreak? with
  | some (_, c) => .ok c
  | none => if c.isAtEnd then .ok c else .error .malformed

def blockBreaks (indent : Nat) : Nat → Cursor → List Char × Cursor
  | 0, c => ([], c)
  | fuel + 1, c =>
    let c := c.skipSpacesTo indent
    match c.lineBreak? with
    | none => ([], c)
    | some (b, c) =>
      let (bs, c) := blockBreaks indent fuel c
      (b :: bs, c)

def blockIndentation (deepest : Nat) : Nat → Cursor → List Char × Nat × Cursor
  | 0, c => ([], deepest, c)
  | fuel + 1, c =>
    let c := c.skipSpaces
    let deepest := max deepest c.column
    match c.lineBreak? with
    | none => ([], deepest, c)
    | some (b, c) =>
      let (bs, deepest, c) := blockIndentation deepest fuel c
      (b :: bs, deepest, c)

structure Lines where
  text : List Char
  lineEnd : List Char
  breaks : List Char
  cursor : Cursor

def startsBlank (c : Option Char) : Bool :=
  c == some ' ' || c == some '\t'

def blockLines (folding : Bool) (indent : Nat) : Nat → List Char → Cursor → Lines
  | 0, breaks, c => ⟨[], [], breaks, c⟩
  | fuel + 1, breaks, c =>
    if c.column ≠ indent ∨ c.isAtEnd then ⟨[], [], breaks, c⟩
    else
      let (line, after) := c.takeWhile (! isBreak ·)
      let (lineEnd, after) := match after.lineBreak? with
        | none => ([], after)
        | some (b, after) => ([b], after)
      let (next, after) := blockBreaks indent (after.rest.length + 1) after
      if after.column ≠ indent ∨ after.isAtEnd then ⟨breaks ++ line, lineEnd, next, after⟩
      else
        let joint :=
          if folding && lineEnd == ['\n'] && ! startsBlank c.peek? && ! startsBlank after.peek? then
            if next.isEmpty then [' '] else []
          else lineEnd
        let more := blockLines folding indent fuel next after
        { more with text := breaks ++ line ++ joint ++ more.text }

def block (folding : Bool) (indent : Int) (c : Cursor) : Except Error (List Char × Cursor) := do
  let (chomping, increment, c) ← header c.next
  let c ← restOfLine c
  let least := max 1 (indent + 1).toNat
  let fuel := c.rest.length + 1
  let (column, breaks, c) := match increment with
    | some n =>
      let (breaks, c) := blockBreaks (least + n - 1) fuel c
      (least + n - 1, breaks, c)
    | none =>
      let (breaks, deepest, c) := blockIndentation 0 fuel c
      (max least deepest, breaks, c)
  let lines := blockLines folding column fuel breaks c
  let text := match chomping with
    | .strip => lines.text
    | .clip => lines.text ++ lines.lineEnd
    | .keep => lines.text ++ lines.lineEnd ++ lines.breaks
  return (text, lines.cursor)

end LuaTypes.Yaml.Scalar
