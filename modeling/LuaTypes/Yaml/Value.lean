import LuaTypes.Yaml.Timestamp

/-!
Values of a YAML text. The keys of a map are scalars; of two equal keys the later one replaces the value
of the earlier one, and numbers and truth values are equal if they count the same.
-/

namespace LuaTypes.Yaml

inductive Value where
  | null
  | boolean (value : Bool)
  | integer (value : Int)
  | float (value : Float)
  | string (value : String)
  | date (value : Date)
  | moment (value : Moment)
  | bytes (value : List UInt8)
  | list (items : List Value)
  | map (entries : List (Value × Value))
  | set (items : List Value)
  | recursive

namespace Value

instance : Inhabited Value := ⟨.null⟩

/--
A number that is exactly `coefficient * 2 ^ exponent`, or lies beyond all of them.
-/
inductive Magnitude where
  | finite (coefficient exponent : Int)
  | infinite (negative : Bool)
  | none

def Magnitude.compare : Magnitude → Magnitude → Option Ordering
  | .finite m e, .finite n f =>
    let least := min e f
    some (Ord.compare (m <<< (e - least).toNat) (n <<< (f - least).toNat))
  | .infinite a, .infinite b => some (Ord.compare b a)
  | .infinite a, .finite .. => some (if a then .lt else .gt)
  | .finite .., .infinite b => some (if b then .gt else .lt)
  | .none, _ | _, .none => Option.none

def Magnitude.ofFloat (x : Float) : Magnitude :=
  let b := Decimal.Binary.ofFloat x
  if b.isFinite then .finite (if b.negative then -b.significand else b.significand) b.scale
  else if b.fraction = 0 then .infinite b.negative
  else .none

def magnitude? : Value → Option Magnitude
  | .boolean b => some (.finite (if b then 1 else 0) 0)
  | .integer n => some (.finite n 0)
  | .float x => some (.ofFloat x)
  | _ => Option.none

def compare? (a b : Value) : Option Ordering :=
  match a.magnitude?, b.magnitude? with
  | some x, some y => x.compare y
  | _, _ =>
    match a, b with
    | .string s, .string t => some (Ord.compare s t)
    | .date d, .date e => some (Ord.compare d.ordinal e.ordinal)
    | .moment m, .moment n =>
      if m.offset.isSome = n.offset.isSome then some (Ord.compare m.microseconds n.microseconds)
      else Option.none
    | .bytes x, .bytes y => some (compareOfLessAndEq x y)
    | _, _ => Option.none

def isComparable (a b : Value) : Bool :=
  (a.compare? b).isSome || (a.magnitude?.isSome && b.magnitude?.isSome)

def sameKey (a b : Value) : Bool :=
  match a, b with
  | .null, .null => true
  | .float x, .float y => (x.isNaN && y.isNaN) || a.compare? b == some .eq
  | _, _ => a.compare? b == some .eq

def insert (key value : Value) : List (Value × Value) → List (Value × Value)
  | [] => [(key, value)]
  | (k, v) :: es => if sameKey k key then (k, value) :: es else (k, v) :: insert key value es

def lookup? (key : String) (entries : List (Value × Value)) : Option Value :=
  (entries.find? fun e => sameKey e.1 (.string key)).map (·.2)

/-! Texts -/

def byteText (mark : Char) (b : UInt8) : List Char :=
  let c := Char.ofNat b.toNat
  if b < 0x80 then Text.Quoted.encodeChar mark c else '\\' :: 'x' :: Text.hexDigits 2 b.toNat

def bytesText (bs : List UInt8) : String :=
  let mark := Text.Quoted.mark (bs.map fun b => Char.ofNat b.toNat)
  String.ofList ('b' :: mark :: (bs.flatMap (byteText mark) ++ [mark]))

def hasText : Value → Bool
  | .integer n => (Nat.toDigits 10 n.natAbs).length ≤ Decimal.maxIntegerDigits
  | _ => true

def text : Value → String
  | .null => "None"
  | .boolean b => if b then "True" else "False"
  | .integer n => Decimal.integerText n
  | .float x => Decimal.floatText ⟨"inf", "nan"⟩ x
  | .string s => Text.quoted s
  | .date d => d.text
  | .moment m => m.text
  | .bytes bs => bytesText bs
  | .list _ => "[...]"
  | .map _ => "\x7b...\x7d"
  | .set _ => "\x7b...\x7d"
  | .recursive => "..."

end Value

end LuaTypes.Yaml
