/-!
# Doubles by their bits

A double is held as its 64 bits and read as a value `mantissa * 2 ^ exponent`, so that all that
is said about it is said in whole numbers.
-/

namespace ScopeAnalysis

/-- An IEEE 754 double, given by its bits. -/
structure Double where
  bits : UInt64
  deriving DecidableEq, Repr

namespace Double

/-- What a double stands for. -/
inductive Value where
  | nan
  | infinity (negative : Bool)
  /-- The number `mantissa * 2 ^ exponent`, or its negative. -/
  | finite (negative : Bool) (mantissa : Nat) (exponent : Int)
  deriving DecidableEq, Repr

/-- The leading binary digit of a normal mantissa, which the bits leave out. -/
def hiddenBit : Nat := Nat.pow 2 52

def isNegative (d : Double) : Bool := Nat.pow 2 63 ≤ d.bits.toNat

def exponentField (d : Double) : Nat := d.bits.toNat / hiddenBit % Nat.pow 2 11

def fractionField (d : Double) : Nat := d.bits.toNat % hiddenBit

/-- The least exponent, shared by the subnormal numbers and the smallest normal ones. -/
def minExponent : Int := -1074

def value (d : Double) : Value :=
  if d.exponentField = 2047 then
    if d.fractionField = 0 then .infinity d.isNegative else .nan
  else if d.exponentField = 0 then
    .finite d.isNegative d.fractionField minExponent
  else
    .finite d.isNegative (hiddenBit + d.fractionField) (minExponent + (d.exponentField - 1))

end Double

end ScopeAnalysis
