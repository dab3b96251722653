import Mathlib.Tactic.Positivity
import ScopeChain.Decimal
import ScopeChain.Proofs.Doubles

/-!
Rounding to the nearest double, to an even mantissa where two are as near. A number rounds to one
double only. The numbers of the rounding interval of a finite double round to it, because the
interval reaches halfway to the next magnitude on either side.
-/
namespace ScopeChain

namespace Binary64

/-- The middle between the largest finite magnitude and the power of two above it. -/
def overflow : ℚ := 2 ^ 1024 - 2 ^ 970

/-- No finite double is nearer to the number. One that is as near and has another value makes a tie,
which only an even mantissa wins. -/
structure Nearest (v : ℚ) (x : Binary64) : Prop where
  finite : x.isFinite = true
  le : ∀ y : Binary64, y.isFinite = true → |v - x.value| ≤ |v - y.value|
  even : ∀ y : Binary64, y.isFinite = true → y.value ≠ x.value → |v - y.value| = |v - x.value| →
    x.mantissa % 2 = 0

/-- What a number, given by sign and magnitude, rounds to. Zero keeps its sign. -/
structure Rounds (negative : Bool) (q : ℚ) (x : Binary64) : Prop where
  sign : x.isNegative = negative
  infinite : overflow ≤ q → x.isInfinite = true
  nearest : q < overflow → Nearest (signed negative q) x

variable {x y : Binary64} {negative negative' : Bool} {q q' : ℚ}

theorem abs_signed_sub (negative : Bool) (q q' : ℚ) :
    |signed negative q - signed negative q'| = |q - q'| := by
  cases negative with
  | false => rfl
  | true =>
    have hflip : -q - -q' = -(q - q') := by ring
    rw [signed, signed, if_pos rfl, if_pos rfl, hflip, abs_neg]

theorem abs_signed (negative : Bool) (hq : 0 ≤ q) : |signed negative q| = q := by
  cases negative with
  | false => exact abs_of_nonneg hq
  | true => rw [signed, if_pos rfl, abs_neg, abs_of_nonneg hq]

theorem abs_sub_le_signed (negative negative' : Bool) (hq : 0 ≤ q) (hq' : 0 ≤ q') :
    |q - q'| ≤ |signed negative q - signed negative' q'| := by
  have h := abs_abs_sub_abs_le_abs_sub (signed negative q) (signed negative' q')
  rwa [abs_signed negative hq, abs_signed negative' hq'] at h

theorem signed_zero (negative : Bool) : signed negative 0 = 0 := by
  cases negative with
  | false => rfl
  | true => exact neg_zero

theorem abs_opposite (hne : negative' ≠ negative) (hq : 0 ≤ q) (hq' : 0 ≤ q') :
    |signed negative q - signed negative' q'| = q + q' := by
  have hopposite : negative' = !negative := Bool.eq_not_of_ne hne
  subst hopposite
  cases negative with
  | false => exact (congrArg abs (sub_neg_eq_add q q')).trans (abs_of_nonneg (by linarith))
  | true =>
    have hflip : -q - q' = -(q + q') := by ring
    exact (congrArg abs hflip).trans ((abs_neg _).trans (abs_of_nonneg (by linarith)))

theorem rank_mod_two (x : Binary64) : x.rank % 2 = x.mantissa % 2 := by
  rw [mantissa_eq, mantissaAt_mod_two]

/-- Two magnitudes that are as near to a number have it in their middle, and between two even ones
there is another, which is nearer. -/
theorem Nearest.not_rank_lt (hx : Nearest (signed negative q) x)
    (hy : Nearest (signed negative q) y) (hxs : x.isNegative = negative)
    (hys : y.isNegative = negative) : ¬ x.rank < y.rank := by
  intro hlt
  have hmagnitude : x.magnitude < y.magnitude := magnitude_lt_iff.mpr hlt
  have hvalue : y.value ≠ x.value := by
    intro heq
    have habs := congrArg abs heq
    rw [value, value, abs_signed _ x.magnitude_nonneg, abs_signed _ y.magnitude_nonneg] at habs
    exact hmagnitude.ne' habs
  have hdistance : |signed negative q - y.value| = |signed negative q - x.value| :=
    le_antisymm (hy.le x hx.finite) (hx.le y hy.finite)
  have heven := hx.even y hy.finite hvalue hdistance
  have heven' := hy.even x hx.finite hvalue.symm hdistance.symm
  rw [← rank_mod_two] at heven heven'
  -- The word between the two.
  have hfinite : x.rank + 1 < 2047 * 2 ^ 52 := by
    have := isFinite_iff.mp hy.finite
    omega
  obtain ⟨z, hzs, hzr⟩ : ∃ z : Binary64, z.isNegative = negative ∧ z.rank = x.rank + 1 :=
    ⟨ofRank negative (x.rank + 1), isNegative_ofRank _ (by omega), rank_ofRank _ (by omega)⟩
  have hxz : x.magnitude < z.magnitude := magnitude_lt_iff.mpr (by omega)
  have hzy : z.magnitude < y.magnitude := magnitude_lt_iff.mpr (by omega)
  have hnearer := hx.le z (isFinite_iff.mpr (by omega))
  rw [value, value, hxs, hys, abs_signed_sub, abs_signed_sub] at hdistance
  rw [value, value, hxs, hzs, abs_signed_sub, abs_signed_sub] at hnearer
  have hmiddle : q - x.magnitude = y.magnitude - q := by
    rcases abs_eq_abs.mp hdistance with h | h <;> linarith
  have hcloser : |q - z.magnitude| < q - x.magnitude := by
    rw [abs_lt]
    constructor <;> linarith
  exact absurd (hnearer.trans_lt hcloser) (not_lt.mpr (le_abs_self _))

/-- Rounding is a function. -/
theorem Rounds.unique (hx : Rounds negative q x) (hy : Rounds negative q y) : x = y := by
  refine eq_of_rank_eq (hx.sign.trans hy.sign.symm) ?_
  rcases le_or_gt overflow q with hq | hq
  · rw [isInfinite_iff.mp (hx.infinite hq), isInfinite_iff.mp (hy.infinite hq)]
  · have hlt := (hx.nearest hq).not_rank_lt (hy.nearest hq) hx.sign hy.sign
    have hgt := (hy.nearest hq).not_rank_lt (hx.nearest hq) hy.sign hx.sign
    omega

/-! ### Neighbours -/

/-- A greater magnitude is at least as far away as the next one. -/
theorem magnitude_add_le (h : x.rank < y.rank) : x.magnitude + 2 ^ x.scale ≤ y.magnitude := by
  have hunits : unitsAt x.rank + stepAt x.rank ≤ unitsAt y.rank := by
    rw [← unitsAt_succ]
    exact strictMono_unitsAt.monotone h
  have hunits' : (unitsAt x.rank + stepAt x.rank : ℚ) ≤ unitsAt y.rank := by exact_mod_cast hunits
  rw [magnitude_eq, magnitude_eq, two_zpow_scale, ← add_mul]
  exact mul_le_mul_of_nonneg_right hunits' smallest_pos.le

/-- How far the interval reaches down is told by the step from the magnitude before. -/
theorem below_mul_stepAt (hx : 0 < x.rank) :
    (RoundingInterval.ofBinary64 x).below * stepAt x.rank ≤ 2 * stepAt (x.rank - 1) := by
  have hdiv := x.rank_div
  have hmod := x.rank_mod
  by_cases hnarrow : x.narrowBelow = true
  · have hbelow : (RoundingInterval.ofBinary64 x).below = 1 := if_pos hnarrow
    rw [narrowBelow, Bool.and_eq_true, beq_iff_eq, decide_eq_true_eq] at hnarrow
    rw [hbelow, one_mul, stepAt, stepAt, ← Nat.pow_succ']
    exact Nat.pow_le_pow_right two_pos (by omega)
  · have hbelow : (RoundingInterval.ofBinary64 x).below = 2 := if_neg hnarrow
    rw [narrowBelow, Bool.and_eq_true, beq_iff_eq, decide_eq_true_eq] at hnarrow
    rw [hbelow, stepAt, stepAt]
    exact Nat.mul_le_mul_left 2 (Nat.pow_le_pow_right two_pos (by omega))

/-- A smaller magnitude is at least as far away as the one before. -/
theorem magnitude_le_sub (h : y.rank < x.rank) : y.magnitude ≤
    x.magnitude - (RoundingInterval.ofBinary64 x).below / 2 * 2 ^ x.scale := by
  have hbefore : unitsAt x.rank = unitsAt (x.rank - 1) + stepAt (x.rank - 1) := by
    rw [← unitsAt_succ, Nat.sub_add_cancel (by omega)]
  have hle : unitsAt y.rank ≤ unitsAt (x.rank - 1) :=
    strictMono_unitsAt.monotone (by omega)
  have hbelow := below_mul_stepAt (x := x) (by omega)
  have hunits : 2 * unitsAt y.rank + (RoundingInterval.ofBinary64 x).below * stepAt x.rank ≤
      2 * unitsAt x.rank := by omega
  have hunits' : (unitsAt y.rank : ℚ) ≤ unitsAt x.rank -
      (RoundingInterval.ofBinary64 x).below / 2 * stepAt x.rank := by
    have : (2 * unitsAt y.rank + (RoundingInterval.ofBinary64 x).below * stepAt x.rank : ℚ) ≤
        2 * unitsAt x.rank := by exact_mod_cast hunits
    linarith
  rw [magnitude_eq, magnitude_eq, two_zpow_scale, ← mul_assoc, ← sub_mul]
  exact mul_le_mul_of_nonneg_right hunits' smallest_pos.le

/-- Numbers round to infinity from halfway past the largest finite magnitude on. -/
theorem overflow_eq (h : x.rank = 2047 * 2 ^ 52 - 1) :
    overflow = x.magnitude + 2 ^ x.scale / 2 := by
  have hmantissa : x.mantissa = 2 ^ 53 - 1 := by rw [mantissa_eq, h]; rfl
  have hscale : x.scale = (971 : Nat) := by rw [scale_eq, h]; rfl
  have hunit : (2 : ℚ) ^ x.scale = 2 * 2 ^ 970 := by rw [hscale, zpow_natCast, ← pow_succ']
  have hpower : (2 : ℚ) ^ 1024 = 2 ^ 54 * 2 ^ 970 := by rw [← pow_add]
  rw [magnitude, hunit, hmantissa, overflow, hpower]
  generalize (2 : ℚ) ^ 970 = u
  push_cast
  ring

end Binary64

namespace RoundingInterval

open Binary64

/-- The lower end of the interval. -/
def low (i : RoundingInterval) : ℚ := (4 * i.mantissa - i.below) * 2 ^ (i.scale - 2)

/-- The upper end of the interval. -/
def high (i : RoundingInterval) : ℚ := (4 * i.mantissa + 2) * 2 ^ (i.scale - 2)

/-- The number lies in the interval. -/
def Covers (i : RoundingInterval) (q : ℚ) : Prop :=
  if i.closed then i.low ≤ q ∧ q ≤ i.high else i.low < q ∧ q < i.high

variable {i : RoundingInterval} {x y : Binary64} {q : ℚ}

theorem quarter_eq (scale : Int) : (2 : ℚ) ^ (scale - 2) = 2 ^ scale / 4 := by
  rw [zpow_sub₀ two_ne_zero]
  norm_num

theorem low_ofBinary64 (x : Binary64) :
    (ofBinary64 x).low = x.magnitude - (ofBinary64 x).below / 4 * 2 ^ x.scale := by
  have hlow : (ofBinary64 x).low =
      (4 * x.mantissa - (ofBinary64 x).below) * 2 ^ (x.scale - 2) := rfl
  rw [hlow, quarter_eq, magnitude]
  ring

theorem high_ofBinary64 (x : Binary64) :
    (ofBinary64 x).high = x.magnitude + 2 ^ x.scale / 2 := by
  have hhigh : (ofBinary64 x).high = (4 * x.mantissa + 2) * 2 ^ (x.scale - 2) := rfl
  rw [hhigh, quarter_eq, magnitude]
  ring

theorem Covers.le (h : i.Covers q) : i.low ≤ q ∧ q ≤ i.high := by
  unfold Covers at h
  split at h
  · exact h
  · exact ⟨h.1.le, h.2.le⟩

/-- The ends belong to the interval of an even mantissa only. -/
theorem Covers.even (h : (ofBinary64 x).Covers q)
    (hq : q = (ofBinary64 x).low ∨ q = (ofBinary64 x).high) : x.mantissa % 2 = 0 := by
  by_contra hodd
  have hclosed : (ofBinary64 x).closed = false := beq_eq_false_iff_ne.mpr hodd
  rw [Covers, if_neg (by simp [hclosed])] at h
  rcases hq with rfl | rfl
  · exact lt_irrefl _ h.1
  · exact lt_irrefl _ h.2

/-- On this side of the middle between two numbers the first is nearer. -/
theorem nearer_of_le_middle {a b q : ℚ} (hab : a < b) (hq : 2 * q ≤ a + b) :
    |q - a| ≤ |q - b| ∧ (|q - b| = |q - a| → 2 * q = a + b) := by
  have hb : |q - b| = b - q := by rw [abs_sub_comm, abs_of_nonneg (by linarith)]
  refine ⟨?_, fun heq => ?_⟩
  · rw [hb, abs_le]
    constructor <;> linarith
  · rcases abs_cases (q - a) with h | h <;> linarith

theorem nearer_of_middle_le {a b q : ℚ} (hab : b < a) (hq : a + b ≤ 2 * q) :
    |q - a| ≤ |q - b| ∧ (|q - b| = |q - a| → 2 * q = a + b) := by
  obtain ⟨hle, htie⟩ := nearer_of_le_middle (q := -q) (neg_lt_neg hab) (by linarith)
  rw [neg_sub_neg, neg_sub_neg, abs_sub_comm a, abs_sub_comm b] at hle htie
  exact ⟨hle, fun heq => by linarith [htie heq]⟩

/-- No other magnitude is nearer, and one that is as near is a neighbour of an even one. -/
theorem Covers.nearer (h : (ofBinary64 x).Covers q) (hne : y.rank ≠ x.rank) :
    |q - x.magnitude| ≤ |q - y.magnitude| ∧
      (|q - y.magnitude| = |q - x.magnitude| → x.mantissa % 2 = 0) := by
  obtain ⟨hlow, hhigh⟩ := h.le
  have hunit : (0 : ℚ) < 2 ^ x.scale := zpow_pos two_pos _
  rw [low_ofBinary64] at hlow
  rw [high_ofBinary64] at hhigh
  rcases Nat.lt_or_gt_of_ne hne with hlt | hgt
  · have hgap := magnitude_le_sub hlt
    obtain ⟨hle, htie⟩ := nearer_of_middle_le (magnitude_lt_iff.mpr hlt) (q := q) (by linarith)
    refine ⟨hle, fun heq => h.even (Or.inl ?_)⟩
    rw [low_ofBinary64]
    linarith [htie heq]
  · have hgap := magnitude_add_le hgt
    obtain ⟨hle, htie⟩ := nearer_of_le_middle (magnitude_lt_iff.mpr hgt) (q := q) (by linarith)
    refine ⟨hle, fun heq => h.even (Or.inr ?_)⟩
    rw [high_ofBinary64]
    linarith [htie heq]

theorem below_pos (x : Binary64) : 0 < (ofBinary64 x).below := by
  change 0 < if x.narrowBelow then 1 else 2
  split <;> decide

theorem below_le_two (x : Binary64) : (ofBinary64 x).below ≤ 2 := by
  change (if x.narrowBelow then 1 else 2) ≤ 2
  split <;> decide

theorem mantissa_pos (hx : 0 < x.rank) : 0 < x.mantissa := by
  rw [mantissa_eq, mantissaAt]
  split <;> omega

theorem Covers.pos (h : (ofBinary64 x).Covers q) (hx : 0 < x.rank) : 0 < q := by
  have hmantissa : (1 : ℚ) ≤ (ofBinary64 x).mantissa := by exact_mod_cast mantissa_pos hx
  have hbelow : ((ofBinary64 x).below : ℚ) ≤ 2 := by exact_mod_cast below_le_two x
  refine lt_of_lt_of_le ?_ h.le.1
  exact mul_pos (by linarith) (zpow_pos two_pos _)

/-- The number with the other sign and the same magnitude is farther away. -/
theorem Covers.nearer_than_opposite (h : (ofBinary64 x).Covers q) (hx : 0 < x.rank)
    (hsign : y.isNegative ≠ x.isNegative) (hrank : y.rank = x.rank) :
    |q - x.magnitude| < |signed x.isNegative q - signed y.isNegative y.magnitude| := by
  have hq : 0 < q := h.pos hx
  have hmagnitude : 0 < x.magnitude :=
    lt_of_le_of_ne x.magnitude_nonneg (Ne.symm (mt magnitude_eq_zero_iff.mp hx.ne'))
  rw [magnitude_eq_iff.mpr hrank, abs_opposite hsign hq.le hmagnitude.le, abs_lt]
  constructor <;> linarith

theorem Covers.lt_overflow (h : (ofBinary64 x).Covers q) (hx : x.isFinite = true) :
    q < overflow := by
  have hfinite := isFinite_iff.mp hx
  have hhigh := h.le.2
  rcases Nat.lt_or_ge x.rank (2047 * 2 ^ 52 - 1) with hlt | hge
  · obtain ⟨top, htop⟩ : ∃ top : Binary64, top.rank = 2047 * 2 ^ 52 - 1 :=
      ⟨ofRank false _, rank_ofRank _ (by omega)⟩
    have hgap := magnitude_add_le (hlt.trans_eq htop.symm)
    have hunit : (0 : ℚ) < 2 ^ x.scale := zpow_pos two_pos _
    have hunit' : (0 : ℚ) < 2 ^ top.scale := zpow_pos two_pos _
    rw [high_ofBinary64] at hhigh
    rw [overflow_eq htop]
    linarith
  · have htop : x.rank = 2047 * 2 ^ 52 - 1 := by omega
    rw [high_ofBinary64, ← overflow_eq htop] at hhigh
    refine lt_of_le_of_ne hhigh fun heq => ?_
    have heven := h.even (Or.inr (by rw [heq, overflow_eq htop, high_ofBinary64]))
    rw [← rank_mod_two, htop] at heven
    omega

theorem Covers.nearest (h : (ofBinary64 x).Covers q) (hx : x.isFinite = true) (hq : 0 ≤ q) :
    Nearest (signed x.isNegative q) x where
  finite := hx
  le y _ := by
    have hsigned := abs_sub_le_signed x.isNegative y.isNegative hq y.magnitude_nonneg
    rw [value, abs_signed_sub, value]
    by_cases hrank : y.rank = x.rank
    · rw [← magnitude_eq_iff.mpr hrank]
      exact hsigned
    · exact (h.nearer hrank).1.trans hsigned
  even y _ hne heq := by
    have hsigned := abs_sub_le_signed x.isNegative y.isNegative hq y.magnitude_nonneg
    rw [value, value, abs_signed_sub] at heq
    by_cases hrank : y.rank = x.rank
    · -- Only the number with the other sign is left.
      have hmagnitude : y.magnitude = x.magnitude := magnitude_eq_iff.mpr hrank
      have hsign : y.isNegative ≠ x.isNegative := fun hsign =>
        hne (by rw [value, value, hsign, hmagnitude])
      have hpos : 0 < x.rank := Nat.pos_of_ne_zero fun hzero => by
        rw [← magnitude_eq_zero_iff] at hzero
        exact hne (by rw [value, value, hmagnitude, hzero, signed_zero, signed_zero])
      exact absurd heq (h.nearer_than_opposite hpos hsign hrank).ne'
    · exact (h.nearer hrank).2 (le_antisymm (hsigned.trans heq.le) (h.nearer hrank).1)

/-- What lies in the interval of a finite double rounds to it. -/
theorem Covers.rounds (h : (ofBinary64 x).Covers q) (hx : x.isFinite = true) (hq : 0 ≤ q) :
    Rounds x.isNegative q x where
  sign := rfl
  infinite hoverflow := absurd (h.lt_overflow hx) (not_lt.mpr hoverflow)
  nearest _ := h.nearest hx hq

theorem Covers.rounds_iff (h : (ofBinary64 x).Covers q) (hx : x.isFinite = true) (hq : 0 ≤ q) :
    Rounds x.isNegative q y ↔ y = x :=
  ⟨fun hy => hy.unique (h.rounds hx hq), fun heq => heq ▸ h.rounds hx hq⟩

end RoundingInterval

end ScopeChain
