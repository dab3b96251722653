import Mathlib.Algebra.Order.Field.Power
import Mathlib.Algebra.Order.Field.Rat
import Mathlib.Order.Monotone.Basic
import Mathlib.Tactic.Linarith
import Mathlib.Tactic.Ring
import ScopeChain.Binary64

/-!
Doubles in order. Without its sign the word of a finite double counts the magnitudes from zero
upward, so that the next word is the next magnitude. A mantissa is even iff its word is.
-/
namespace ScopeChain.Binary64

variable {x y : Binary64} {r s : Nat}

/-- The number that a finite double stands for, without its sign. -/
def magnitude (x : Binary64) : ℚ := x.mantissa * 2 ^ x.scale

def signed (negative : Bool) (v : ℚ) : ℚ := if negative then -v else v

def value (x : Binary64) : ℚ := signed x.isNegative x.magnitude

/-- The smallest magnitude above zero. -/
def smallest : ℚ := 2 ^ (-1074 : Int)

/-- The place of the magnitude among all magnitudes. -/
def rank (x : Binary64) : Nat := x.exponentField * 2 ^ 52 + x.fraction

/-- The mantissa of the magnitude at a place. -/
def mantissaAt (r : Nat) : Nat := if r < 2 ^ 52 then r else 2 ^ 52 + r % 2 ^ 52

/-- The distance from the magnitude at a place to the next, counted in the smallest. -/
def stepAt (r : Nat) : Nat := 2 ^ (r / 2 ^ 52 - 1)

/-- The magnitude at a place, counted in the smallest. -/
def unitsAt (r : Nat) : Nat := mantissaAt r * stepAt r

/-- The word with a sign and a magnitude. -/
def ofRank (negative : Bool) (r : Nat) : Binary64 :=
  ⟨.ofNat ((if negative then 2 ^ 63 else 0) + r)⟩

theorem stepAt_pos (r : Nat) : 0 < stepAt r := Nat.two_pow_pos _

/-- Where the mantissas start anew the distance doubles, except at the smallest of full length. -/
theorem unitsAt_succ (r : Nat) : unitsAt (r + 1) = unitsAt r + stepAt r := by
  by_cases hcarry : (r + 1) % 2 ^ 52 = 0 ∧ 2 ^ 52 ≤ r
  · have hstep : stepAt (r + 1) = 2 * stepAt r := by
      rw [stepAt, stepAt, ← Nat.pow_succ']
      congr 1
      omega
    have hlast : mantissaAt r = 2 ^ 53 - 1 := by
      rw [mantissaAt, if_neg (by omega)]
      omega
    have hfirst : mantissaAt (r + 1) = 2 ^ 52 := by
      rw [mantissaAt, if_neg (by omega), hcarry.1, Nat.add_zero]
    rw [unitsAt, unitsAt, hstep, hlast, hfirst]
    omega
  · have hstep : stepAt (r + 1) = stepAt r := by
      rw [stepAt, stepAt]
      congr 1
      omega
    have hmantissa : mantissaAt (r + 1) = mantissaAt r + 1 := by
      rw [mantissaAt, mantissaAt]
      split <;> split <;> omega
    rw [unitsAt, unitsAt, hstep, hmantissa, Nat.succ_mul]

theorem strictMono_unitsAt : StrictMono unitsAt := by
  refine strictMono_nat_of_lt_succ fun r => ?_
  have hstep := stepAt_pos r
  rw [unitsAt_succ]
  omega

theorem mantissaAt_mod_two (r : Nat) : mantissaAt r % 2 = r % 2 := by
  rw [mantissaAt]
  split <;> omega

/-! ### Words by their fields -/

theorem exponentField_lt (x : Binary64) : x.exponentField < 2048 := Nat.mod_lt _ (by decide)

theorem fraction_lt (x : Binary64) : x.fraction < 2 ^ 52 := Nat.mod_lt _ (by decide)

theorem toNat_bits (x : Binary64) :
    x.bits.toNat = (if x.isNegative then 2 ^ 63 else 0) + x.rank := by
  have hlt : x.bits.toNat < 2 ^ 64 := x.bits.toNat_lt
  simp only [isNegative, rank, exponentField, fraction, decide_eq_true_eq]
  split <;> omega

/-- A word is its sign and its magnitude. -/
theorem eq_of_rank_eq (hsign : x.isNegative = y.isNegative) (hrank : x.rank = y.rank) : x = y := by
  obtain ⟨bits⟩ := x
  obtain ⟨bits'⟩ := y
  refine congrArg mk (UInt64.toNat_inj.mp ?_)
  have hx := toNat_bits ⟨bits⟩
  rw [hsign, hrank] at hx
  exact hx.trans (toNat_bits ⟨bits'⟩).symm

theorem rank_div (x : Binary64) : x.rank / 2 ^ 52 = x.exponentField := by
  have hfraction := x.fraction_lt
  rw [rank]
  omega

theorem rank_mod (x : Binary64) : x.rank % 2 ^ 52 = x.fraction := by
  have hfraction := x.fraction_lt
  rw [rank]
  omega

theorem isFinite_iff : x.isFinite = true ↔ x.rank < 2047 * 2 ^ 52 := by
  have hdiv := x.rank_div
  rw [isFinite, decide_eq_true_eq, ← hdiv]
  omega

theorem isInfinite_iff : x.isInfinite = true ↔ x.rank = 2047 * 2 ^ 52 := by
  have hfraction := x.fraction_lt
  rw [isInfinite, Bool.and_eq_true, beq_iff_eq, beq_iff_eq, rank]
  omega

theorem isZero_iff : x.isZero = true ↔ x.rank = 0 := by
  rw [isZero, Bool.and_eq_true, beq_iff_eq, beq_iff_eq, rank]
  omega

theorem mantissa_eq (x : Binary64) : x.mantissa = mantissaAt x.rank := by
  have hdiv := x.rank_div
  have hmod := x.rank_mod
  rw [mantissa, mantissaAt]
  split <;> split <;> omega

theorem scale_eq (x : Binary64) : x.scale = ((x.rank / 2 ^ 52 - 1 : Nat) : Int) - 1074 := by
  have hdiv := x.rank_div
  rw [scale, hdiv]
  split <;> omega

theorem smallest_pos : 0 < smallest := zpow_pos two_pos _

theorem two_zpow_scale (x : Binary64) : (2 : ℚ) ^ x.scale = stepAt x.rank * smallest := by
  rw [scale_eq, sub_eq_add_neg, zpow_add₀ two_ne_zero, zpow_natCast, stepAt, Nat.cast_pow]
  rfl

theorem magnitude_eq (x : Binary64) : x.magnitude = unitsAt x.rank * smallest := by
  rw [magnitude, mantissa_eq, two_zpow_scale, unitsAt, Nat.cast_mul, mul_assoc]

theorem magnitude_nonneg (x : Binary64) : 0 ≤ x.magnitude := by
  rw [magnitude_eq]
  exact mul_nonneg (Nat.cast_nonneg _) smallest_pos.le

theorem magnitude_lt_iff : x.magnitude < y.magnitude ↔ x.rank < y.rank := by
  rw [magnitude_eq, magnitude_eq, mul_lt_mul_iff_left₀ smallest_pos, Nat.cast_lt,
    strictMono_unitsAt.lt_iff_lt]

theorem magnitude_eq_iff : x.magnitude = y.magnitude ↔ x.rank = y.rank := by
  rw [magnitude_eq, magnitude_eq, mul_left_inj' smallest_pos.ne', Nat.cast_inj,
    strictMono_unitsAt.injective.eq_iff]

theorem magnitude_eq_zero_iff : x.magnitude = 0 ↔ x.rank = 0 := by
  have hzero : unitsAt 0 = 0 := by decide
  rw [magnitude_eq, mul_eq_zero_iff_right smallest_pos.ne', Nat.cast_eq_zero]
  exact ⟨fun h => strictMono_unitsAt.injective (h.trans hzero.symm), fun h => by rw [h, hzero]⟩

theorem toNat_bits_ofRank (negative : Bool) (hr : r < 2 ^ 63) :
    (ofRank negative r).bits.toNat = (if negative then 2 ^ 63 else 0) + r := by
  rw [ofRank, UInt64.toNat_ofNat']
  split <;> omega

theorem isNegative_ofRank (negative : Bool) (hr : r < 2 ^ 63) :
    (ofRank negative r).isNegative = negative := by
  rw [isNegative, toNat_bits_ofRank negative hr]
  cases negative <;> simp
  omega

theorem rank_ofRank (negative : Bool) (hr : r < 2 ^ 63) : (ofRank negative r).rank = r := by
  have hbits := toNat_bits (ofRank negative r)
  rw [isNegative_ofRank negative hr, toNat_bits_ofRank negative hr] at hbits
  omega

end ScopeChain.Binary64
