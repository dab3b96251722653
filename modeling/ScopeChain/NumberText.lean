import ScopeChain.Decimal

/-!
The two texts of a number: the plain one, which is what a program prints, and the inspected one,
which always looks like a number with a fraction or an exponent.
-/
namespace ScopeChain

namespace Decimal

def digitChars (d : Decimal) : List Char := Nat.toDigits 10 d.digits

/-- The power of ten that the first digit counts. -/
def leadingExponent (d : Decimal) : Int := d.exponent + d.digitChars.length - 1

/-- All digits written out, with a point only where digits follow it. -/
def positional (d : Decimal) : List Char :=
  if 0 ≤ d.exponent then
    d.digitChars ++ List.replicate d.exponent.toNat '0'
  else
    let places := (-d.exponent).toNat
    let digits := List.replicate (places + 1 - d.digitChars.length) '0' ++ d.digitChars
    digits.take (digits.length - places) ++ '.' :: digits.drop (digits.length - places)

/-- A whole number is given a zero after the point. -/
def fractional (d : Decimal) : List Char :=
  if 0 ≤ d.exponent then d.positional ++ ['.', '0'] else d.positional

/-- One digit before the point, which is left out if nothing follows it. -/
def scientific (d : Decimal) : List Char :=
  let tail := d.digitChars.drop 1
  d.digitChars.take 1 ++ (if tail.isEmpty then [] else '.' :: tail) ++
    'e' :: (toString d.leadingExponent).toList

/-- Inspected numbers are written out from a ten-thousandth up to, not including, `10 ^ 16`. -/
def inspected (d : Decimal) : List Char :=
  if -4 ≤ d.leadingExponent ∧ d.leadingExponent < 16 then d.fractional else d.scientific

end Decimal

namespace Binary64

/-- A sign for whatever is negative, also for zero, but not for what is no number. -/
def textWith (write : Decimal → List Char) (x : Binary64) : String :=
  if x.isNaN then "NaN"
  else
    let magnitude := if x.isInfinite then ['i', 'n', 'f'] else write x.decimal
    String.ofList (if x.isNegative then '-' :: magnitude else magnitude)

def text (x : Binary64) : String := x.textWith Decimal.positional

def inspect (x : Binary64) : String := x.textWith Decimal.inspected

end Binary64

end ScopeChain
