/-!
# Exact magnitudes of reals

The reals of the language are 64-bit binary floating-point numbers. Every finite
one is a whole number of units, where the unit is the least positive real,
`2 ^ -1074`. Its magnitude is that number of units, and the exact questions about
reals, such as their remainders and their decimal digits, are questions about
natural numbers.

A magnitude has at most 53 significant bits; it is its significand times the gap
to the next real, a power of two.
-/

namespace Mel.Floating

/-- The number of units in one. -/
def one : Nat := 1 <<< 1074

def isNegative (real : Float) : Bool :=
  real.toBits >>> 63 == 1

def exponentField (real : Float) : Nat :=
  ((real.toBits >>> 52) &&& 0x7ff).toNat

def isInfinite (real : Float) : Bool :=
  exponentField real == 0x7ff && real.toBits &&& 0xfffffffffffff == 0

/-- The number of units between zero and a finite real. -/
def magnitude (real : Float) : Nat :=
  let fraction := (real.toBits &&& 0xfffffffffffff).toNat
  match exponentField real with
  | 0 => fraction
  | field + 1 => (1 <<< 52 + fraction) <<< field

/-- The exponent of the gap between reals of a magnitude. -/
def gapExponent (units : Nat) : Nat :=
  units.log2 - 52

def significand (units : Nat) : Nat :=
  units >>> gapExponent units

/-- The real of a given sign with a magnitude of at most 53 significant bits. -/
def ofMagnitude (negative : Bool) (units : Nat) : Float :=
  let bits :=
    if units < 1 <<< 52 then units
    else (gapExponent units + 1) <<< 52 + (significand units - 1 <<< 52)
  Float.ofBits (UInt64.ofNat (if negative then 1 <<< 63 + bits else bits))

/-- The whole part of the magnitude of a finite real. -/
def wholePart (real : Float) : Nat :=
  magnitude real / one

end Mel.Floating
