/-!
Double-precision numbers as words of 64 bits: sign, exponent and fraction, the magnitude
`mantissa * 2 ^ scale` of a finite one, and equality by value.
-/
namespace ScopeChain

/-- A number given by its word; every word is a number, an infinity or no number at all. -/
structure Binary64 where
  bits : UInt64
  deriving DecidableEq, Inhabited

namespace Binary64

def isNegative (x : Binary64) : Bool := 0x8000000000000000 ≤ x.bits.toNat

def exponentField (x : Binary64) : Nat := x.bits.toNat / 0x10000000000000 % 0x800

def fraction (x : Binary64) : Nat := x.bits.toNat % 0x10000000000000

/-- The largest exponent field marks what is not finite. -/
def isFinite (x : Binary64) : Bool := x.exponentField < 2047

def isInfinite (x : Binary64) : Bool := x.exponentField == 2047 && x.fraction == 0

def isNaN (x : Binary64) : Bool := x.exponentField == 2047 && x.fraction != 0

/-- Above the lowest exponent field a leading one is left unwritten. -/
def mantissa (x : Binary64) : Nat :=
  if x.exponentField = 0 then x.fraction else 0x10000000000000 + x.fraction

/-- The power of two that the mantissa counts. -/
def scale (x : Binary64) : Int := if x.exponentField = 0 then -1074 else x.exponentField - 1075

def isZero (x : Binary64) : Bool := x.exponentField == 0 && x.fraction == 0

/-- A power of two with a full exponent range below it: the numbers below are twice as dense. -/
def narrowBelow (x : Binary64) : Bool := x.fraction == 0 && 1 < x.exponentField

/-- Equality by value: the zeros are equal, and what is no number equals nothing. -/
def equals (x y : Binary64) : Bool :=
  !x.isNaN && !y.isNaN && (x.bits == y.bits || (x.isZero && y.isZero))

end Binary64

end ScopeChain
