import LuaTypes.Text.Utf8
import LuaTypes.Yaml.Scalar

/-!
Tokens of a YAML text: the indicators, the starts and ends of indented collections, the properties of
nodes and the texts of scalars. A text that is no sequence of tokens ends with a fault.
-/

namespace LuaTypes.Yaml

inductive Directive where
  | version (major : Nat)
  | tag (handle uri : List Char)
  | unknown
  deriving DecidableEq, Repr

inductive Token where
  | directive (directive : Directive)
  | documentStart
  | documentEnd
  | blockSequence
  | blockMapping
  | blockEnd
  | openSequence
  | closeSequence
  | openMapping
  | closeMapping
  | flowEntry
  | blockEntry
  | key
  | value
  | alias (name : List Char)
  | anchor (name : List Char)
  | tag (handle : Option (List Char)) (suffix : List Char)
  | scalar (text : List Char) (plain : Bool)
  | endOfText
  | fault (error : Error)
  deriving DecidableEq, Repr

namespace Token

/-! Anchors and aliases -/

def endsName (c : Option Char) : Bool :=
  endsWordOrTab c || c.any fun c => ['?', ':', ',', ']', '\x7d', '%', '@', '\x60'].contains c

def name (c : Cursor) : Except Error (List Char × Cursor) :=
  let (name, c) := c.takeWhile isNameChar
  if name.isEmpty || ! endsName c.peek? then .error .malformed else .ok (name, c)

/-! Tags -/

def isUriChar (c : Char) : Bool :=
  c.isAlphanum || ("-;/?:@&=+$,_.!~*'()[]%".toList).contains c

def uriBytes : Nat → Cursor → Except Error (List UInt8 × Cursor)
  | 0, c => .ok ([], c)
  | fuel + 1, c =>
    match c.rest with
    | '%' :: digits =>
      match Scalar.hexCode? 2 digits with
      | none => .error .malformed
      | some n => do
        let (bytes, c) ← uriBytes fuel (c.drop 3)
        return (n.toUInt8 :: bytes, c)
    | _ => .ok ([], c)

def uriFrom : Nat → Cursor → Except Error (List Char × Cursor)
  | 0, c => .ok ([], c)
  | fuel + 1, c =>
    match c.peek? with
    | some '%' => do
      let (bytes, c) ← uriBytes (c.rest.length + 1) c
      match Text.decodeUtf8 bytes with
      | .error _ => throw .malformed
      | .ok text =>
        let (more, c) ← uriFrom fuel c
        return (text ++ more, c)
    | some ch =>
      if isUriChar ch then do
        let (more, c) ← uriFrom fuel c.next
        return (ch :: more, c)
      else .ok ([], c)
    | none => .ok ([], c)

def uri (c : Cursor) : Except Error (List Char × Cursor) := do
  let (text, after) ← uriFrom (c.rest.length + 1) c
  if after.index = c.index then throw .malformed else return (text, after)

/--
The handle of a tag: an exclamation mark, or a name between two of them. The single mark of a directive
is followed by a space.
-/
def handle (c : Cursor) : Except Error (List Char × Cursor) :=
  match c.rest with
  | '!' :: ' ' :: _ => .ok (['!'], c.next)
  | '!' :: rest =>
    let name := rest.takeWhile isNameChar
    if (rest.drop name.length).head? = some '!' then .ok ('!' :: name ++ ['!'], c.drop (name.length + 2))
    else .error .malformed
  | _ => .error .malformed

def readTag (c : Cursor) : Except Error (Token × Cursor) := do
  let (token, c) ← match c.rest with
    | _ :: '<' :: _ =>
      let (suffix, c) ← uri (c.drop 2)
      if c.peek? = some '>' then pure (tag none suffix, c.next) else throw .malformed
    | _ :: rest =>
      if endsWordOrTab rest.head? then pure (tag none ['!'], c.next)
      else
        let (handle, c) ←
          if (rest.takeWhile fun ch => ! endsWord (some ch)).contains '!' then handle c
          else pure (['!'], c.next)
        let (suffix, c) ← uri c
        pure (tag (some handle) suffix, c)
    | [] => throw .malformed
  if endsWord c.peek? then return (token, c) else throw .malformed

/-! Directives -/

def versionPart (c : Cursor) : Except Error (Nat × Cursor) :=
  let (digits, c) := c.takeWhile Char.isDigit
  if digits.isEmpty then .error .malformed
  else match Decimal.readInteger digits with
    | .ok n => .ok (n.toNat, c)
    | .error e => .error (.number e)

def readDirective (c : Cursor) : Except Error (Token × Cursor) := do
  let (name, c) := c.next.takeWhile isNameChar
  if name.isEmpty || ! endsWord c.peek? then throw .malformed
  let (d, c) ←
    if name = "YAML".toList then do
      let (major, c) ← versionPart c.skipSpaces
      if c.peek? ≠ some '.' then throw .malformed
      let (_, c) ← versionPart c.next
      if endsWord c.peek? then pure (Directive.version major, c) else throw .malformed
    else if name = "TAG".toList then do
      let (handle, c) ← handle c.skipSpaces
      if c.peek? ≠ some ' ' then throw .malformed
      let (uri, c) ← uri c.skipSpaces
      if endsWord c.peek? then pure (Directive.tag handle uri, c) else throw .malformed
    else pure (Directive.unknown, c.skipWhile (! isBreak ·))
  return (directive d, ← Scalar.restOfLine c)

end Token

end LuaTypes.Yaml
