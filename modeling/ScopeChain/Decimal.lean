import ScopeChain.Binary64

/-!
The shortest decimal that rounds to a given finite double. A double stands for the interval of
numbers nearer to it than to its neighbours; of the decimal grids, the coarsest with a point in
that interval is taken, and on it the point nearest to the double.
-/
namespace ScopeChain

/-- The number `digits * 10 ^ exponent`. -/
structure Decimal where
  digits : Nat
  exponent : Int
  deriving DecidableEq, Inhabited

/-- The numbers that round to `mantissa * 2 ^ scale`. Counted in quarters of `2 ^ scale`, the
interval reaches down by `below` and up by two, and `closed` says whether the ends belong to it. -/
structure RoundingInterval where
  mantissa : Nat
  scale : Int
  below : Nat
  closed : Bool

namespace RoundingInterval

/-- The ends lie halfway to the neighbours and round to an even mantissa. -/
def ofBinary64 (x : Binary64) : RoundingInterval where
  mantissa := x.mantissa
  scale := x.scale
  below := if x.narrowBelow then 1 else 2
  closed := x.mantissa % 2 == 0

/-- A quarter of the double's unit, on the common scale with `gridUnit`. -/
def quarterUnit (i : RoundingInterval) (exponent : Int) : Nat :=
  Nat.pow 2 (i.scale - 2).toNat * Nat.pow 10 (-exponent).toNat

/-- The step of the grid `10 ^ exponent`, on the common scale with `quarterUnit`. -/
def gridUnit (i : RoundingInterval) (exponent : Int) : Nat :=
  Nat.pow 2 (2 - i.scale).toNat * Nat.pow 10 exponent.toNat

/-- Whether the grid point `n * 10 ^ exponent` lies in the interval. -/
def contains (i : RoundingInterval) (exponent : Int) (n : Nat) : Bool :=
  let low := (4 * i.mantissa - i.below) * i.quarterUnit exponent
  let high := (4 * i.mantissa + 2) * i.quarterUnit exponent
  let point := n * i.gridUnit exponent
  if i.closed then low ≤ point && point ≤ high else low < point && point < high

/-- The grid point just below the double, or the double itself. -/
def floor (i : RoundingInterval) (exponent : Int) : Nat :=
  4 * i.mantissa * i.quarterUnit exponent / i.gridUnit exponent

/-- Whether the point after the floor is at least as near to the double as the floor. -/
def upperIsNearer (i : RoundingInterval) (exponent : Int) : Bool :=
  let rest := 4 * i.mantissa * i.quarterUnit exponent % i.gridUnit exponent
  i.gridUnit exponent ≤ 2 * rest

/-- The point of a grid in the interval that is nearest to the double; the upper one of a tie. -/
def nearest? (i : RoundingInterval) (exponent : Int) : Option Nat :=
  let n := i.floor exponent
  match i.contains exponent n, i.contains exponent (n + 1) with
  | true, true => some (if i.upperIsNearer exponent then n + 1 else n)
  | true, false => some n
  | false, true => some (n + 1)
  | false, false => none

/-- The finest grid holds every double, so there the floor is the double itself. -/
def finestExponent : Int := -1074

/-- Search from a coarse grid towards the finest, which lies the given number of steps away. -/
def search (i : RoundingInterval) : Nat → Decimal
  | 0 => ⟨i.floor finestExponent, finestExponent⟩
  | steps + 1 =>
    let exponent := finestExponent + (steps + 1)
    match i.nearest? exponent with
    | some n => ⟨n, exponent⟩
    | none => i.search steps

/-- Ten to this power is beyond the interval, because `10 ^ k` is at least `2 ^ (3 * k)`, or
`2 ^ (4 * k)` where `k` is negative. -/
def startExponent (i : RoundingInterval) : Int :=
  let bits := i.scale + i.mantissa.log2 + 2
  max (bits / 3) (bits / 4) + 1

def shortest (i : RoundingInterval) : Decimal :=
  i.search (i.startExponent - finestExponent).toNat

end RoundingInterval

/-- The shortest decimal of a finite magnitude. -/
def Binary64.decimal (x : Binary64) : Decimal :=
  if x.isZero then ⟨0, 0⟩ else (RoundingInterval.ofBinary64 x).shortest

end ScopeChain
