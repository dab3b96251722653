import ScopeChain.Proofs.Roundings

/-!
What the search for a decimal finds. Its point lies in the rounding interval, and on no coarser grid
that the search has seen does a point lie there. So the decimal of a finite double rounds to it, and
it is a whole number iff the double is.
-/
namespace ScopeChain

theorem zpow_mul_toNat {a : ℚ} (ha : a ≠ 0) (k : Int) : a ^ k * a ^ (-k).toNat = a ^ k.toNat := by
  rw [← zpow_natCast, ← zpow_natCast, ← zpow_add₀ ha]
  congr 1
  omega

/-- The number that a decimal writes. -/
def Decimal.value (d : Decimal) : ℚ := d.digits * 10 ^ d.exponent

namespace RoundingInterval

variable {i : RoundingInterval} {e : Int} {n a k steps : Nat}

/-- What the common scale of the units leaves out of both. -/
def commonUnit (i : RoundingInterval) (e : Int) : Nat :=
  2 ^ (2 - i.scale).toNat * 10 ^ (-e).toNat

theorem quarterUnit_eq (i : RoundingInterval) (e : Int) :
    (i.quarterUnit e : ℚ) = 2 ^ (i.scale - 2) * i.commonUnit e := by
  have hscale := zpow_mul_toNat two_ne_zero (i.scale - 2)
  rw [neg_sub] at hscale
  rw [quarterUnit, commonUnit, Nat.pow_eq, Nat.pow_eq]
  push_cast
  rw [← mul_assoc, hscale]

theorem gridUnit_eq (i : RoundingInterval) (e : Int) :
    (i.gridUnit e : ℚ) = 10 ^ e * i.commonUnit e := by
  have hscale := zpow_mul_toNat (show (10 : ℚ) ≠ 0 by norm_num) e
  rw [gridUnit, commonUnit, Nat.pow_eq, Nat.pow_eq]
  push_cast
  rw [mul_left_comm, hscale]

theorem commonUnit_pos (i : RoundingInterval) (e : Int) : (0 : ℚ) < i.commonUnit e := by
  rw [commonUnit]
  positivity

/-- Quarters are compared with points of the grid as the numbers that they count. -/
theorem quarters_le_iff :
    a * i.quarterUnit e ≤ n * i.gridUnit e ↔ (a : ℚ) * 2 ^ (i.scale - 2) ≤ n * 10 ^ e := by
  rw [← mul_le_mul_iff_left₀ (i.commonUnit_pos e), mul_assoc, mul_assoc, ← quarterUnit_eq,
    ← gridUnit_eq]
  exact_mod_cast Iff.rfl

theorem le_quarters_iff :
    n * i.gridUnit e ≤ a * i.quarterUnit e ↔ (n : ℚ) * 10 ^ e ≤ a * 2 ^ (i.scale - 2) := by
  rw [← mul_le_mul_iff_left₀ (i.commonUnit_pos e), mul_assoc, mul_assoc, ← quarterUnit_eq,
    ← gridUnit_eq]
  exact_mod_cast Iff.rfl

theorem contains_iff (hbelow : i.below ≤ 4 * i.mantissa) :
    i.contains e n = true ↔ i.Covers (n * 10 ^ e) := by
  have hlow : i.low = (4 * i.mantissa - i.below : Nat) * 2 ^ (i.scale - 2) := by
    rw [low, Nat.cast_sub hbelow]
    push_cast
    rfl
  have hhigh : i.high = (4 * i.mantissa + 2 : Nat) * 2 ^ (i.scale - 2) := by
    rw [high]
    push_cast
    rfl
  rw [contains, Covers, hlow, hhigh]
  split <;> simp only [Bool.and_eq_true, decide_eq_true_eq]
  · rw [quarters_le_iff, le_quarters_iff]
  · rw [← not_le, ← not_le, quarters_le_iff, le_quarters_iff, not_le, not_le]

/-- A point of the grid that is the double itself is the floor there. -/
theorem floor_eq (h : (n : ℚ) * 10 ^ e = 4 * i.mantissa * 2 ^ (i.scale - 2)) :
    i.floor e = n := by
  have hunits : 4 * i.mantissa * i.quarterUnit e = n * i.gridUnit e := by
    apply le_antisymm
    · rw [quarters_le_iff, h]
      push_cast
      rfl
    · rw [le_quarters_iff, h]
      push_cast
      rfl
  have hgrid : 0 < i.gridUnit e := Nat.mul_pos (Nat.pow_pos two_pos) (Nat.pow_pos (by decide))
  rw [floor, hunits, Nat.mul_div_cancel n hgrid]

/-! ### The search -/

theorem contains_of_nearest? (h : i.nearest? e = some n) : i.contains e n = true := by
  unfold nearest? at h
  cases hfloor : i.contains e (i.floor e) <;> cases hnext : i.contains e (i.floor e + 1) <;>
    simp only [hfloor, hnext, Option.some.injEq, reduceCtorEq] at h
  · exact h ▸ hnext
  · exact h ▸ hfloor
  · split at h
    · exact h ▸ hnext
    · exact h ▸ hfloor

theorem isSome_nearest? (h : i.contains e (i.floor e) = true) : (i.nearest? e).isSome = true := by
  unfold nearest?
  cases hnext : i.contains e (i.floor e + 1) <;> simp [h, hnext]

/-- What is found lies in the interval. -/
theorem contains_search (h : i.contains finestExponent (i.floor finestExponent) = true)
    (steps : Nat) : i.contains (i.search steps).exponent (i.search steps).digits = true := by
  induction steps with
  | zero => exact h
  | succ steps ih =>
    rw [search]
    split
    · next hn => exact contains_of_nearest? hn
    · exact ih

/-- What is found is not finer than a grid with a point in the interval. -/
theorem le_exponent_search (hk : k ≤ steps) (h : (i.nearest? (finestExponent + k)).isSome = true) :
    finestExponent + k ≤ (i.search steps).exponent := by
  induction steps with
  | zero =>
    obtain rfl : k = 0 := by omega
    exact Int.le_refl _
  | succ steps ih =>
    rw [search]
    split
    · simp only
      omega
    · next hnone =>
      have hne : k ≠ steps + 1 := by
        rintro rfl
        push_cast at h
        simp [hnone] at h
      exact ih (by omega)

end RoundingInterval

/-! ### The decimal of a double -/

namespace Binary64

open RoundingInterval

variable {x : Binary64} {n : Nat} {e : Int}

theorem below_le (hx : 0 < x.rank) : (ofBinary64 x).below ≤ 4 * (ofBinary64 x).mantissa := by
  have hmantissa := mantissa_pos hx
  have hbelow := below_le_two x
  change _ ≤ 4 * x.mantissa
  omega

theorem magnitude_eq_quarters (x : Binary64) :
    x.magnitude = 4 * (ofBinary64 x).mantissa * 2 ^ ((ofBinary64 x).scale - 2) := by
  change _ = 4 * (x.mantissa : ℚ) * 2 ^ (x.scale - 2)
  rw [quarter_eq, magnitude]
  ring

theorem covers_magnitude (x : Binary64) : (ofBinary64 x).Covers x.magnitude := by
  have hunit : (0 : ℚ) < 2 ^ x.scale := zpow_pos two_pos _
  have hbelow : (0 : ℚ) < (ofBinary64 x).below := by exact_mod_cast below_pos x
  have hlow : (ofBinary64 x).low < x.magnitude := by
    rw [low_ofBinary64]
    exact sub_lt_self _ (by positivity)
  have hhigh : x.magnitude < (ofBinary64 x).high := by
    rw [high_ofBinary64]
    exact lt_add_of_pos_right _ (by positivity)
  rw [Covers]
  split
  · exact ⟨hlow.le, hhigh.le⟩
  · exact ⟨hlow, hhigh⟩

/-- On a grid that has the double as a point the search finds one. -/
theorem contains_floor (hx : 0 < x.rank) (h : (n : ℚ) * 10 ^ e = x.magnitude) :
    (ofBinary64 x).contains e ((ofBinary64 x).floor e) = true := by
  rw [floor_eq (h.trans x.magnitude_eq_quarters), contains_iff (below_le hx), h]
  exact x.covers_magnitude

theorem five_pow_mul (k : Nat) : (5 : ℚ) ^ k * 10 ^ (-(k : Int)) = 2 ^ (-(k : Int)) := by
  have hten : (10 : ℚ) = 5 * 2 := by norm_num
  rw [hten, mul_zpow, zpow_neg, zpow_natCast, mul_inv_cancel_left₀ (pow_ne_zero k (by norm_num))]

/-- Every magnitude is a point of the finest grid. -/
theorem contains_floor_finest (hx : 0 < x.rank) :
    (ofBinary64 x).contains finestExponent ((ofBinary64 x).floor finestExponent) = true := by
  refine contains_floor (n := unitsAt x.rank * 5 ^ 1074) hx ?_
  rw [Nat.cast_mul, Nat.cast_pow, mul_assoc, magnitude_eq]
  exact congrArg _ (five_pow_mul 1074)

theorem covers_decimal (x : Binary64) : (ofBinary64 x).Covers x.decimal.value := by
  by_cases hzero : x.isZero = true
  · have hmagnitude : x.magnitude = 0 := magnitude_eq_zero_iff.mpr (isZero_iff.mp hzero)
    have hvalue : x.decimal.value = 0 := by
      rw [decimal, if_pos hzero, Decimal.value, Nat.cast_zero, zero_mul]
    rw [hvalue, ← hmagnitude]
    exact x.covers_magnitude
  · have hx : 0 < x.rank := Nat.pos_of_ne_zero (mt isZero_iff.mpr hzero)
    rw [decimal, if_neg hzero, Decimal.value, ← contains_iff (below_le hx)]
    exact contains_search (contains_floor_finest hx) _

theorem isInteger_iff (x : Binary64) :
    (∃ k : Int, x.value = k) ↔ ∃ n : Nat, x.magnitude = n := by
  constructor
  · rintro ⟨k, hk⟩
    refine ⟨k.natAbs, ?_⟩
    rw [← abs_signed x.isNegative x.magnitude_nonneg, ← value, hk, Nat.cast_natAbs, Int.cast_abs]
  · rintro ⟨n, hn⟩
    refine ⟨if x.isNegative then -n else n, ?_⟩
    rw [value, signed, hn]
    split <;> push_cast <;> rfl

/-- The search begins at or above the grid of the whole numbers if the double is at least one. -/
theorem startExponent_nonneg (h : 1 ≤ x.magnitude) : 0 ≤ (ofBinary64 x).startExponent := by
  have hbits : 0 < x.scale + x.mantissa.log2 + 1 := by
    by_contra hneg
    have hlog : (x.mantissa : ℚ) < 2 ^ ((x.mantissa.log2 + 1 : Nat) : Int) := by
      rw [zpow_natCast]
      exact_mod_cast Nat.lt_log2_self
    have hmagnitude : x.magnitude < 2 ^ ((x.mantissa.log2 + 1 : Nat) + x.scale) := by
      rw [zpow_add₀ two_ne_zero]
      exact mul_lt_mul_of_pos_right hlog (zpow_pos two_pos _)
    have hone : (2 : ℚ) ^ ((x.mantissa.log2 + 1 : Nat) + x.scale) ≤ 2 ^ (0 : Int) :=
      zpow_le_zpow_right₀ one_le_two (by push_cast; omega)
    exact absurd (hmagnitude.trans_le hone) (not_lt.mpr h)
  change 0 ≤ max ((x.scale + x.mantissa.log2 + 2) / 3) ((x.scale + x.mantissa.log2 + 2) / 4) + 1
  omega

/-- A whole number in the interval is the double itself, if the double has a fraction at all. -/
theorem exists_magnitude_of_covers (h : (ofBinary64 x).Covers n) : ∃ k : Nat, x.magnitude = k := by
  have hpower := zpow_mul_toNat two_ne_zero x.scale
  rcases Int.le_total 0 x.scale with hscale | hscale
  · refine ⟨x.mantissa * 2 ^ x.scale.toNat, ?_⟩
    have hzero : (-x.scale).toNat = 0 := by omega
    rw [hzero, pow_zero, mul_one] at hpower
    rw [magnitude, hpower]
    push_cast
    rfl
  · refine ⟨n, ?_⟩
    have hzero : x.scale.toNat = 0 := by omega
    rw [hzero, pow_zero] at hpower
    obtain ⟨k, hk⟩ : ∃ k : Nat, (n : ℚ) = k * 2 ^ x.scale := by
      refine ⟨n * 2 ^ (-x.scale).toNat, ?_⟩
      push_cast
      rw [mul_assoc, mul_comm _ ((2 : ℚ) ^ x.scale), hpower, mul_one]
    obtain ⟨hlow, hhigh⟩ := h.le
    rw [low_ofBinary64, magnitude, hk] at hlow
    rw [high_ofBinary64, magnitude, hk] at hhigh
    have hunit : (0 : ℚ) < 2 ^ x.scale := zpow_pos two_pos _
    have hbelow : ((ofBinary64 x).below : ℚ) / 4 * 2 ^ x.scale ≤ 1 / 2 * 2 ^ x.scale := by
      have hle : ((ofBinary64 x).below : ℚ) ≤ 2 := by exact_mod_cast below_le_two x
      exact mul_le_mul_of_nonneg_right (by linarith) hunit.le
    -- Both count the same unit and are less than one of it apart.
    have hle : (x.mantissa : ℚ) ≤ k + 1 / 2 := le_of_mul_le_mul_right (by linarith) hunit
    have hge : (k : ℚ) ≤ x.mantissa + 1 / 2 := le_of_mul_le_mul_right (by linarith) hunit
    have hle' : 2 * x.mantissa ≤ 2 * k + 1 := by
      have : (2 * x.mantissa : ℚ) ≤ 2 * k + 1 := by linarith
      exact_mod_cast this
    have hge' : 2 * k ≤ 2 * x.mantissa + 1 := by
      have : (2 * k : ℚ) ≤ 2 * x.mantissa + 1 := by linarith
      exact_mod_cast this
    have heq : x.mantissa = k := by omega
    rw [magnitude, hk, heq]

theorem decimal_exponent_nonneg_iff (x : Binary64) :
    0 ≤ x.decimal.exponent ↔ ∃ k : Int, x.value = k := by
  rw [isInteger_iff]
  constructor
  · intro he
    have hvalue : x.decimal.value = (x.decimal.digits * 10 ^ x.decimal.exponent.toNat : Nat) := by
      rw [Decimal.value]
      push_cast
      rw [← zpow_natCast, Int.toNat_of_nonneg he]
    exact exists_magnitude_of_covers (hvalue ▸ x.covers_decimal)
  · rintro ⟨n, hn⟩
    by_cases hzero : x.isZero = true
    · rw [decimal, if_pos hzero]
    · have hx : 0 < x.rank := Nat.pos_of_ne_zero (mt isZero_iff.mpr hzero)
      have hone : 1 ≤ x.magnitude := by
        have hne := mt magnitude_eq_zero_iff.mp hx.ne'
        rw [hn, Nat.cast_eq_zero] at hne
        rw [hn]
        exact_mod_cast Nat.pos_of_ne_zero hne
      have hstart := startExponent_nonneg hone
      have hpoint : (n : ℚ) * 10 ^ (0 : Int) = x.magnitude := by rw [hn, zpow_zero, mul_one]
      have hfound := isSome_nearest? (contains_floor hx hpoint)
      rw [decimal, if_neg hzero]
      exact le_exponent_search (k := 1074) (by rw [finestExponent]; omega) hfound

end Binary64

end ScopeChain
