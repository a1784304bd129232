import LuaTypes.Decimal.Binary

/-!
The shortest decimal of a binary floating-point number: of all decimals that are read back as the
number, those with the fewest digits, and of these the one nearest to it. A finite number other than
zero is `significand * 2 ^ exponent` up to its sign, and the reals that round to it form an interval
around it; the search walks through the grids of multiples of powers of ten, coarsest first, and looks at
the two neighbours of the number on each.
-/

namespace LuaTypes.Decimal

structure Scaled where
  coefficient : Nat
  exponent : Int
  deriving DecidableEq, Repr

/--
A positive number with the interval of the reals that round to it, all in units of `1 / denominator`.
The ends belong to the interval if `closed` is set.
-/
structure Rounding where
  value : Nat
  least : Nat
  greatest : Nat
  denominator : Nat
  closed : Bool

/--
The interval of `significand * 2 ^ exponent`. Below a power of two the next number is half as far away as
above it, unless the number is subnormal.
-/
def Rounding.ofBinary (significand : Nat) (exponent : Int) : Rounding :=
  let below := if significand = Binary.leading ∧ -1074 < exponent then 1 else 2
  let up := 1 <<< (exponent - 2).toNat
  { value := 4 * significand * up
    least := (4 * significand - below) * up
    greatest := (4 * significand + 2) * up
    denominator := 1 <<< (2 - exponent).toNat
    closed := significand % 2 = 0 }

namespace Rounding

def contains (r : Rounding) (s : Scaled) : Bool :=
  let n := s.coefficient * Nat.pow 10 s.exponent.toNat * r.denominator
  let scale := Nat.pow 10 (-s.exponent).toNat
  if r.closed then r.least * scale ≤ n && n ≤ r.greatest * scale
  else r.least * scale < n && n < r.greatest * scale

/--
The neighbour of the value on the grid of the multiples of `10 ^ exponent` that lies in the interval, the
nearer one if both do, and of two equally near ones the even one.
-/
def onGrid? (r : Rounding) (exponent : Int) : Option Scaled :=
  let unit := Nat.pow 10 exponent.toNat * r.denominator
  let value := r.value * Nat.pow 10 (-exponent).toNat
  let coefficient := value / unit
  let low : Scaled := ⟨coefficient, exponent⟩
  let high : Scaled := ⟨coefficient + 1, exponent⟩
  match r.contains low, r.contains high with
  | false, false => none
  | true, false => some low
  | false, true => some high
  | true, true =>
    -- Both neighbours read back; the nearer one wins, and on a tie the even one.
    let distance := value % unit
    if 2 * distance < unit then some low
    else if unit < 2 * distance then some high
    else if coefficient % 2 = 0 then some low else some high

def search (r : Rounding) : (grids : Nat) → (exponent : Int) → Scaled
  | 0, exponent => ⟨r.value / r.denominator, exponent⟩
  | grids + 1, exponent => (r.onGrid? exponent).getD (r.search grids (exponent - 1))

end Rounding

/--
The shortest decimal that is read back as `significand * 2 ^ exponent`, for a significand other than
zero. No number has more than 17 digits, and the first grid is above the number.
-/
def shortest (significand : Nat) (exponent : Int) : Scaled :=
  let magnitude := (significand.log2 : Int) + exponent
  (Rounding.ofBinary significand exponent).search 24 (magnitude * 30103 / 100000 + 2)

end LuaTypes.Decimal
