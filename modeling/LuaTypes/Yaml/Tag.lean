import LuaTypes.Yaml.Timestamp

/-!
Tags of nodes: what kind of value a node denotes. A plain scalar without a tag has the one that the form
of its text implies.
-/

namespace LuaTypes.Yaml

inductive Tag where
  | null
  | boolean
  | integer
  | float
  | string
  | binary
  | timestamp
  | sequence
  | mapping
  | set
  | orderedMap
  | pairs
  | merge
  | value
  | other
  deriving DecidableEq, Repr

namespace Tag

def common : List Char := "tag:yaml.org,2002:".toList

def ofUri (uri : List Char) : Tag :=
  if ! common.isPrefixOf uri then .other
  else match String.ofList (uri.drop common.length) with
    | "null" => .null
    | "bool" => .boolean
    | "int" => .integer
    | "float" => .float
    | "str" => .string
    | "binary" => .binary
    | "timestamp" => .timestamp
    | "seq" => .sequence
    | "map" => .mapping
    | "set" => .set
    | "omap" => .orderedMap
    | "pairs" => .pairs
    | "merge" => .merge
    | "value" => .value
    | _ => .other

def isCollection : Tag → Bool
  | .sequence | .mapping | .set | .orderedMap | .pairs => true
  | _ => false

/-! Forms of numbers -/

def unsigned : List Char → List Char
  | c :: cs => if isSign c then cs else c :: cs
  | [] => []

def isGrouped (p : Char → Bool) (c : Char) : Bool :=
  p c || c == '_'

def afterDigits? : List Char → Option (List Char)
  | c :: cs => if c.isDigit then some (cs.dropWhile (isGrouped Char.isDigit)) else none
  | [] => none

def afterSixtieths : List Char → List Char
  | ':' :: c :: d :: cs =>
    if '0' ≤ c ∧ c ≤ '5' ∧ d.isDigit then afterSixtieths cs
    else if c.isDigit then afterSixtieths (d :: cs)
    else ':' :: c :: d :: cs
  | [':', c] => if c.isDigit then [] else [':', c]
  | cs => cs
termination_by cs => cs.length

def afterSixtieths? (cs : List Char) : Option (List Char) :=
  let rest := afterSixtieths cs
  if rest.length < cs.length then some rest else none

def isOctal (c : Char) : Bool :=
  '0' ≤ c && c ≤ '7'

def isHex (c : Char) : Bool :=
  c.isDigit || ('a' ≤ c && c ≤ 'f') || ('A' ≤ c && c ≤ 'F')

def isBinary (c : Char) : Bool :=
  c == '0' || c == '1'

def areDigits (p : Char → Bool) (cs : List Char) : Bool :=
  ! cs.isEmpty && cs.all (isGrouped p)

def isInteger (text : List Char) : Bool :=
  match unsigned text with
  | ['0'] => true
  | '0' :: 'b' :: cs => areDigits isBinary cs
  | '0' :: 'x' :: cs => areDigits isHex cs
  | '0' :: cs => areDigits isOctal cs
  | cs =>
    match afterDigits? cs with
    | none => false
    | some rest => rest.isEmpty || (afterSixtieths? rest).any (·.isEmpty)

def isExponent : List Char → Bool
  | [] => true
  | e :: s :: d :: ds => (e == 'e' || e == 'E') && isSign s && (d :: ds).all Char.isDigit
  | _ => false

def arePlaces (cs : List Char) : Bool :=
  isExponent (cs.dropWhile (isGrouped Char.isDigit))

def isFloat (text : List Char) : Bool :=
  match unsigned text with
  | '.' :: cs =>
    [".inf", ".Inf", ".INF"].contains (String.ofList ('.' :: cs)) ||
      [".nan", ".NaN", ".NAN"].contains (String.ofList text) ||
      (text.head? == some '.' && cs.head?.any Char.isDigit && arePlaces cs)
  | cs =>
    match afterDigits? cs with
    | none => false
    | some ('.' :: places) => arePlaces places
    | some rest =>
      match afterSixtieths? rest with
      | some ('.' :: places) => places.all (isGrouped Char.isDigit)
      | _ => false

end Tag

def Tag.ofPlain (text : List Char) : Tag :=
  let s := String.ofList text
  if ["", "~", "null", "Null", "NULL"].contains s then .null
  else if ["yes", "Yes", "YES", "no", "No", "NO", "true", "True", "TRUE", "false", "False", "FALSE",
      "on", "On", "ON", "off", "Off", "OFF"].contains s then .boolean
  else if s = "<<" then .merge
  else if s = "=" then .value
  else if ["!", "&", "*"].contains s then .other
  else if isFloat text then .float
  else if isInteger text then .integer
  else if (TimeText.ofText? text).any (·.isComplete) then .timestamp
  else .string

end LuaTypes.Yaml
