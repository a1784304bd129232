/-!
Binary floating-point numbers of 64 bits by their fields: the sign, eleven bits of the exponent and 52 bits
of the fraction.
-/

namespace LuaTypes.Decimal

structure Binary where
  negative : Bool
  exponent : Nat
  fraction : Nat
  deriving DecidableEq, Repr

namespace Binary

def leading : Nat := 0x10000000000000

def ofFloat (x : Float) : Binary :=
  let bits := x.toBits.toNat
  { negative := bits / (0x800 * leading) % 2 = 1
    exponent := bits / leading % 0x800
    fraction := bits % leading }

def isFinite (b : Binary) : Bool :=
  b.exponent ≠ 0x7FF

/--
A finite number is `significand * 2 ^ scale` up to its sign. The numbers with the least exponent have no
leading bit.
-/
def significand (b : Binary) : Nat :=
  if b.exponent = 0 then b.fraction else leading + b.fraction

def scale (b : Binary) : Int :=
  (if b.exponent = 0 then 1 else b.exponent) - 1075

end Binary

end LuaTypes.Decimal
