import LuaTypes.Decimal.Number

/-!
Dates and moments of the calendar, and the texts that denote them: a year of four digits, a month and a
day, possibly with a time of the day and its offset from universal time.
-/

namespace LuaTypes.Yaml

structure Date where
  year : Nat
  month : Nat
  day : Nat
  deriving DecidableEq, Repr

structure Moment where
  date : Date
  hour : Nat
  minute : Nat
  second : Nat
  microsecond : Nat := 0
  offset : Option Int := none
  deriving DecidableEq, Repr

inductive TimeFault where
  | year (value : Nat)
  | month
  | day
  | hour
  | minute
  | second
  | offset (seconds : Int)
  deriving DecidableEq, Repr

def durationText (seconds : Int) : String :=
  let days := Int.fdiv seconds 86400
  let rest := Int.fmod seconds 86400
  let parts :=
    (if days = 0 then [] else ["days=" ++ Decimal.integerText days]) ++
      (if rest = 0 then [] else ["seconds=" ++ Decimal.integerText rest])
  "datetime.timedelta(" ++ (if parts.isEmpty then "0" else Text.join ", " parts) ++ ")"

namespace TimeFault

def message : TimeFault → String
  | .year value => "year " ++ toString value ++ " is out of range"
  | .month => "month must be in 1..12"
  | .day => "day is out of range for month"
  | .hour => "hour must be in 0..23"
  | .minute => "minute must be in 0..59"
  | .second => "second must be in 0..59"
  | .offset seconds =>
    "offset must be a timedelta strictly between -timedelta(hours=24) and timedelta(hours=24), not " ++
      durationText seconds ++ "."

end TimeFault

namespace Date

def isLeap (year : Nat) : Bool :=
  year % 4 == 0 && (year % 100 != 0 || year % 400 == 0)

def daysInMonth (year month : Nat) : Nat :=
  if month = 2 then (if isLeap year then 29 else 28)
  else if month = 4 ∨ month = 6 ∨ month = 9 ∨ month = 11 then 30 else 31

def daysBeforeYear (year : Nat) : Nat :=
  let y := year - 1
  y * 365 + y / 4 - y / 100 + y / 400

def ordinal (d : Date) : Nat :=
  let months := (List.range (d.month - 1)).map fun m => daysInMonth d.year (m + 1)
  daysBeforeYear d.year + months.foldl (· + ·) 0 + d.day

def ofParts (year month day : Nat) : Except TimeFault Date :=
  if year = 0 then .error (.year year)
  else if month = 0 ∨ 12 < month then .error .month
  else if day = 0 ∨ daysInMonth year month < day then .error .day
  else .ok ⟨year, month, day⟩

def parts (d : Date) : List String :=
  [d.year, d.month, d.day].map toString

def text (d : Date) : String :=
  "datetime.date(" ++ Text.join ", " d.parts ++ ")"

end Date

namespace Moment

def microseconds (m : Moment) : Int :=
  let seconds : Int := ((m.date.ordinal * 24 + m.hour) * 60 + m.minute) * 60 + m.second
  (seconds - m.offset.getD 0) * 1000000 + m.microsecond

def offsetText (seconds : Int) : String :=
  if seconds = 0 then "datetime.timezone.utc" else "datetime.timezone(" ++ durationText seconds ++ ")"

def text (m : Moment) : String :=
  let parts := m.date.parts ++ [toString m.hour, toString m.minute] ++
    (if m.second = 0 ∧ m.microsecond = 0 then [] else [toString m.second]) ++
    (if m.microsecond = 0 then [] else [toString m.microsecond]) ++
    m.offset.toList.map fun o => "tzinfo=" ++ offsetText o
  "datetime.datetime(" ++ Text.join ", " parts ++ ")"

end Moment

/-! Texts -/

def isSign (c : Char) : Bool :=
  c == '+' || c == '-'

/--
The parts of a timestamp as they are written. The offset has a sign, hours and minutes.
-/
structure TimeText where
  year : List Char
  month : List Char
  day : List Char
  clock : Option (List Char × List Char × List Char) := none
  fraction : List Char := []
  utc : Bool := false
  offset : Option (Bool × List Char × List Char) := none

namespace TimeText

def digits (most : Nat) (cs : List Char) : List Char × List Char :=
  let ds := (cs.take most).takeWhile Char.isDigit
  (ds, cs.drop ds.length)

def zone? (t : TimeText) (cs : List Char) : Option TimeText :=
  match cs.dropWhile fun c => c == ' ' || c == '\t' with
  | [] => if cs.isEmpty then some t else none
  | ['Z'] => some { t with utc := true }
  | sign :: cs =>
    let (hours, cs) := digits 2 cs
    let (minutes, cs, complete) := match cs with
      | ':' :: cs => let (ds, rest) := digits 2 cs; (ds, rest, ds.length == 2)
      | cs => ([], cs, true)
    if isSign sign && ! hours.isEmpty && complete && cs.isEmpty then
      some { t with offset := some (sign == '-', hours, minutes) }
    else none

def clock? (t : TimeText) (cs : List Char) : Option TimeText := do
  let cs ← match cs with
    | 'T' :: cs | 't' :: cs => some cs
    | c :: cs => if c = ' ' ∨ c = '\t' then some (cs.dropWhile fun c => c == ' ' || c == '\t') else none
    | [] => none
  let (hour, cs) := digits 2 cs
  let (minute, cs) ← match cs with
    | ':' :: cs => some (digits 2 cs)
    | _ => none
  let (second, cs) ← match cs with
    | ':' :: cs => some (digits 2 cs)
    | _ => none
  let (fraction, cs) := match cs with
    | '.' :: cs => (cs.takeWhile Char.isDigit, cs.dropWhile Char.isDigit)
    | cs => ([], cs)
  if hour.isEmpty || minute.length ≠ 2 || second.length ≠ 2 then none
  else zone? { t with clock := some (hour, minute, second), fraction } cs

def ofText? (text : List Char) : Option TimeText := do
  let (year, cs) := digits 4 text
  let (month, cs) ← match cs with
    | '-' :: cs => some (digits 2 cs)
    | _ => none
  let (day, cs) ← match cs with
    | '-' :: cs => some (digits 2 cs)
    | _ => none
  if year.length ≠ 4 || month.isEmpty || day.isEmpty then none
  else if cs.isEmpty then some { year, month, day } else clock? { year, month, day } cs

/--
Is every part of the date written with all its digits, or does a time of the day follow?
-/
def isComplete (t : TimeText) : Bool :=
  t.clock.isSome || (t.month.length == 2 && t.day.length == 2)

def number (digits : List Char) : Nat :=
  digits.foldl (fun n c => 10 * n + (c.toNat - 0x30)) 0

def offset? (t : TimeText) : Except TimeFault (Option Int) :=
  match t.offset with
  | none => .ok (if t.utc then some 0 else none)
  | some (negative, hours, minutes) =>
    let seconds : Int := (number hours * 60 + number minutes) * 60
    let seconds := if negative then -seconds else seconds
    if seconds.natAbs < 86400 then .ok (some seconds) else .error (.offset seconds)

/--
The date or the moment that a text denotes. Of the fraction of a second six digits count.
-/
def value (t : TimeText) : Except TimeFault (Date ⊕ Moment) := do
  let date := Date.ofParts (number t.year) (number t.month) (number t.day)
  match t.clock with
  | none => return .inl (← date)
  | some (hour, minute, second) =>
    let offset ← t.offset?
    let date ← date
    if 23 < number hour then throw .hour
    if 59 < number minute then throw .minute
    if 59 < number second then throw .second
    let fraction := (t.fraction ++ List.replicate 6 '0').take 6
    let microsecond := if t.fraction.isEmpty then 0 else number fraction
    return .inr ⟨date, number hour, number minute, number second, microsecond, offset⟩

end TimeText

end LuaTypes.Yaml
