import LuaTypes.Decimal.Shortest
import LuaTypes.Text.Blank
import LuaTypes.Text.Numeral
import LuaTypes.Text.Quoted

/-!
Numbers as texts. Integers are read and written in full, up to a limit on their digits; floating-point
numbers are written by their shortest decimal, with a point for magnitudes from `0.0001` up to but
without `1e16`, and with an exponent of at least two digits beyond.
-/

namespace LuaTypes.Decimal

open Text

inductive NumberFault where
  | notInteger (text : String)
  | notFloat (text : String)
  | tooManyDigits (digits : Nat)
  deriving DecidableEq, Repr

/--
Integers of more digits are refused.
-/
def maxIntegerDigits : Nat := 4300

namespace NumberFault

def message : NumberFault → String
  | .notInteger text =>
    "invalid literal for int() with base 10: " ++ String.ofList ((quoted text).toList.take 200)
  | .notFloat text => "could not convert string to float: " ++ quoted text
  | .tooManyDigits digits =>
    "Exceeds the limit (4300 digits) for integer string conversion: value has " ++ toString digits ++
      " digits; use sys.set_int_max_str_digits() to increase the limit"

end NumberFault

def ofDigits (digits : List Nat) : Nat :=
  digits.foldl (fun n d => 10 * n + d) 0

def digitRun : List Char → List Nat × List Char
  | [] => ([], [])
  | c :: cs =>
    match decimalValue? c with
    | none => ([], c :: cs)
    | some d => let (ds, rest) := digitRun cs; (d :: ds, rest)

def splitMinus : List Char → Bool × List Char
  | '-' :: cs => (true, cs)
  | cs => (false, cs)

def splitSign : List Char → Bool × List Char
  | '+' :: cs => (false, cs)
  | cs => splitMinus cs

/--
The integer that a text denotes: decimal digits of any script with an optional minus sign. The digits
are counted before what follows them is looked at.
-/
def readInteger (text : List Char) : Except NumberFault Int :=
  let (negative, cs) := splitMinus text
  let (digits, rest) := digitRun cs
  if digits.length > maxIntegerDigits then .error (.tooManyDigits digits.length)
  else if digits.isEmpty || ! rest.isEmpty then .error (.notInteger (String.ofList text))
  else .ok (if negative then -(ofDigits digits : Int) else ofDigits digits)

def integerText (n : Int) : String :=
  let digits := Nat.toDigits 10 n.natAbs
  String.ofList (if n < 0 then '-' :: digits else digits)

def infinity : Float := Float.ofBits 0x7FF0000000000000

def notANumber : Float := Float.ofBits 0x7FF8000000000000

/--
The floating-point number nearest to `coefficient * 10 ^ exponent`. Numbers far beyond both ends of the
range are decided by the length of the coefficient alone.
-/
def toFloat (negative : Bool) (s : Scaled) : Float :=
  let magnitude := (Nat.toDigits 10 s.coefficient).length + s.exponent
  let x :=
    if s.coefficient = 0 ∨ magnitude < -400 then 0.0
    else if 400 < magnitude then infinity
    else .ofModel (.ofScientific s.coefficient s.exponent)
  if negative then -x else x

def ungroup? (afterDigit : Bool) : List Char → Option (List Char)
  | [] => some []
  | '_' :: cs =>
    if afterDigit && cs.head?.any fun c => (decimalValue? c).isSome then ungroup? false cs else none
  | c :: cs => (ungroup? (decimalValue? c).isSome cs).map (c :: ·)

def placeRun : List Char → List Nat × List Char
  | '.' :: cs => digitRun cs
  | cs => ([], cs)

def exponent? : List Char → Option Int
  | [] => some 0
  | e :: cs =>
    if e = 'e' ∨ e = 'E' then
      let (negative, cs) := splitSign cs
      let (digits, rest) := digitRun cs
      if digits.isEmpty || ! rest.isEmpty then none
      else some (if negative then -(ofDigits digits : Int) else ofDigits digits)
    else none

def magnitude? (cs : List Char) : Option (Scaled ⊕ Float) :=
  let word := String.ofList (cs.map Char.toLower)
  if word = "inf" ∨ word = "infinity" then some (.inr infinity)
  else if word = "nan" then some (.inr notANumber)
  else
    let (whole, rest) := digitRun cs
    let (places, rest) := placeRun rest
    if whole.isEmpty && places.isEmpty then none
    else (exponent? rest).map fun e => .inl ⟨ofDigits (whole ++ places), e - places.length⟩

def float? (text : List Char) : Option Float := do
  let cs ← ungroup? false (strip text)
  let (negative, cs) := splitSign cs
  match ← magnitude? cs with
  | .inl s => return toFloat negative s
  | .inr x => return if negative then -x else x

def readFloat (text : List Char) : Except NumberFault Float :=
  match float? text with
  | some x => .ok x
  | none => .error (.notFloat (String.ofList text))

structure FloatNames where
  infinity : String
  notANumber : String

def Scaled.digits (s : Scaled) : List Char × Int :=
  let digits := Nat.toDigits 10 s.coefficient
  ((digits.reverse.dropWhile (· = '0')).reverse, s.exponent + digits.length - 1)

def floatLayout (digits : List Char) (exponent : Int) : List Char :=
  if -4 ≤ exponent ∧ exponent < 0 then
    '0' :: '.' :: (List.replicate (-exponent - 1).toNat '0' ++ digits)
  else if 0 ≤ exponent ∧ exponent < 16 then
    let whole := exponent.toNat + 1
    let places := digits.drop whole
    digits.take whole ++ List.replicate (whole - digits.length) '0' ++
      '.' :: (if places.isEmpty then ['0'] else places)
  else
    let mantissa := match digits with
      | d :: e :: ds => d :: '.' :: e :: ds
      | ds => ds
    let power := Nat.toDigits 10 exponent.natAbs
    mantissa ++ 'e' :: (if exponent < 0 then '-' else '+') ::
      (List.replicate (2 - power.length) '0' ++ power)

def floatText (names : FloatNames) (x : Float) : String :=
  let b := Binary.ofFloat x
  let sign := if b.negative then "-" else ""
  if ! b.isFinite then
    if b.fraction = 0 then sign ++ names.infinity else names.notANumber
  else if b.significand = 0 then sign ++ "0.0"
  else
    let (digits, exponent) := (shortest b.significand b.scale).digits
    sign ++ String.ofList (floatLayout digits exponent)

end LuaTypes.Decimal
