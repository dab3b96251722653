import Mathlib.Data.List.Basic
import ScopeChain.Proofs.ShortestDecimals
import ScopeChain.NumberText

/-!
Numerals read back. A reader takes a text apart into sign, digits, fraction and power of ten, and a
numeral denotes what its digits and its power say. Each form in which a decimal is written is read
as a numeral that denotes the decimal.
-/
namespace ScopeChain

/-- A numeral by its parts; the power of ten is what stands behind an `e`, if there is one. -/
structure Numeral where
  negative : Bool
  whole : List Char
  fraction : List Char
  power : Option Int
  deriving DecidableEq

namespace Numeral

/-- The number without its sign that the numeral denotes. -/
def magnitude (n : Numeral) : ℚ :=
  Nat.ofDigitChars 10 (n.whole ++ n.fraction) 0 * 10 ^ (n.power.getD 0 - n.fraction.length)

/-! ### Reading -/

def readSign : List Char → Bool × List Char
  | '-' :: cs => (true, cs)
  | cs => (false, cs)

/-- As many digits as there are, at least one. -/
def readDigits (cs : List Char) : Option (List Char × List Char) :=
  if cs.takeWhile Char.isDigit = [] then none
  else some (cs.takeWhile Char.isDigit, cs.dropWhile Char.isDigit)

def readFraction : List Char → Option (List Char × List Char)
  | '.' :: cs => readDigits cs
  | cs => some ([], cs)

def readPower : List Char → Option (Option Int × List Char)
  | 'e' :: cs =>
    let (negative, cs) := readSign cs
    (readDigits cs).map fun (digits, cs) =>
      let exponent : Int := Nat.ofDigitChars 10 digits 0
      (some (if negative then -exponent else exponent), cs)
  | cs => some (none, cs)

/-- The numeral that a text is, all of it. -/
def read? (cs : List Char) : Option Numeral := do
  let (negative, cs) := readSign cs
  let (whole, cs) ← readDigits cs
  let (fraction, cs) ← readFraction cs
  let (power, cs) ← readPower cs
  if cs = [] then some ⟨negative, whole, fraction, power⟩ else none

/-! ### Writing -/

def signChars (n : Numeral) : List Char := if n.negative then ['-'] else []

/-- No point without digits behind it. -/
def fractionChars (n : Numeral) : List Char :=
  if n.fraction = [] then [] else '.' :: n.fraction

def powerChars (n : Numeral) : List Char :=
  match n.power with
  | none => []
  | some k => 'e' :: (toString k).toList

/-- The text of a numeral. -/
def chars (n : Numeral) : List Char :=
  n.signChars ++ (n.whole ++ (n.fractionChars ++ n.powerChars))

/-- Digits stand before the point, and no other characters are in the place of digits. -/
structure WellFormed (n : Numeral) : Prop where
  whole_ne_nil : n.whole ≠ []
  whole : ∀ c ∈ n.whole, c.isDigit = true
  fraction : ∀ c ∈ n.fraction, c.isDigit = true

variable {digits rest : List Char}

theorem readDigits_append (hne : digits ≠ []) (hdigits : ∀ c ∈ digits, c.isDigit = true)
    (hrest : ∀ c ∈ rest.head?, c.isDigit = false) :
    readDigits (digits ++ rest) = some (digits, rest) := by
  have htake : rest.takeWhile Char.isDigit = [] ∧ rest.dropWhile Char.isDigit = rest := by
    cases rest with
    | nil => exact ⟨rfl, rfl⟩
    | cons c rest =>
      have hc : c.isDigit = false := hrest c rfl
      simp [hc]
  rw [readDigits, List.takeWhile_append_of_pos hdigits, List.dropWhile_append_of_pos hdigits,
    htake.1, htake.2, List.append_nil, if_neg hne]

theorem readSign_digits (hne : digits ≠ []) (hdigits : ∀ c ∈ digits, c.isDigit = true) :
    readSign (digits ++ rest) = (false, digits ++ rest) := by
  cases digits with
  | nil => exact absurd rfl hne
  | cons c digits =>
    have hc : c ≠ '-' := by
      rintro rfl
      exact absurd (hdigits '-' List.mem_cons_self) (by decide)
    unfold readSign
    split
    · next h => exact absurd (List.cons_eq_cons.mp h).1 hc
    · rfl

theorem readPower_toString (k : Int) :
    readPower ('e' :: (toString k).toList) = some (some k, []) := by
  have hdigits (n : Nat) : ∀ c ∈ Nat.toDigits 10 n, c.isDigit = true := fun c hc =>
    Nat.isDigit_of_mem_toDigits (by decide) (by decide) hc
  have hread (n : Nat) : readDigits (Nat.toDigits 10 n) = some (Nat.toDigits 10 n, []) := by
    have h : readDigits (Nat.toDigits 10 n ++ []) = some (Nat.toDigits 10 n, []) :=
      readDigits_append Nat.toDigits_ne_nil (hdigits n) (by simp)
    rwa [List.append_nil] at h
  have hsign (n : Nat) : readSign (Nat.toDigits 10 n) = (false, Nat.toDigits 10 n) := by
    have h : readSign (Nat.toDigits 10 n ++ []) = (false, Nat.toDigits 10 n ++ []) :=
      readSign_digits Nat.toDigits_ne_nil (hdigits n)
    rwa [List.append_nil] at h
  cases k with
  | ofNat n =>
    have htext : (toString (Int.ofNat n)).toList = Nat.toDigits 10 n := Nat.toList_repr
    rw [htext, readPower, hsign]
    simp [hread]
  | negSucc n =>
    have htext : (toString (Int.negSucc n)).toList = '-' :: Nat.toDigits 10 (n + 1) := by
      change ("-" ++ (n + 1).repr).toList = _
      simp
    rw [htext, readPower, readSign]
    simp [hread, Int.negSucc_eq]

theorem readPower_powerChars (n : Numeral) : readPower n.powerChars = some (n.power, []) := by
  unfold powerChars
  cases n.power with
  | none => rfl
  | some k => exact readPower_toString k

theorem head_powerChars (n : Numeral) : ∀ c ∈ n.powerChars.head?, c = 'e' := by
  unfold powerChars
  cases n.power with
  | none => simp
  | some k => simp

theorem head_fractionChars_append (n : Numeral) :
    ∀ c ∈ (n.fractionChars ++ n.powerChars).head?, c.isDigit = false := by
  intro c hc
  rw [fractionChars] at hc
  split at hc
  · rw [n.head_powerChars c hc]
    rfl
  · obtain rfl : '.' = c := Option.some.inj hc
    rfl

namespace WellFormed

variable {n : Numeral}

theorem readFraction_append (h : n.WellFormed) :
    readFraction (n.fractionChars ++ n.powerChars) = some (n.fraction, n.powerChars) := by
  rw [fractionChars]
  split
  · next hnil =>
    have hpoint : n.powerChars.head? ≠ some '.' := by
      intro hpoint
      exact absurd (n.head_powerChars '.' hpoint) (by decide)
    rw [hnil, List.nil_append]
    unfold readFraction
    split
    · next heq => exact absurd (by rw [heq, List.head?_cons]) hpoint
    · rfl
  · next hne =>
    refine readDigits_append hne h.fraction fun c hc => ?_
    rw [n.head_powerChars c hc]
    rfl

/-- What is written is read. -/
theorem read?_chars (h : n.WellFormed) : read? n.chars = some n := by
  have hsign : readSign n.chars =
      (n.negative, n.whole ++ (n.fractionChars ++ n.powerChars)) := by
    rw [chars, signChars]
    cases n.negative with
    | false =>
      rw [if_neg Bool.false_ne_true, List.nil_append]
      exact readSign_digits h.whole_ne_nil h.whole
    | true => rfl
  have hwhole := readDigits_append h.whole_ne_nil h.whole n.head_fractionChars_append
  simp [read?, hsign, hwhole, h.readFraction_append, n.readPower_powerChars]

end WellFormed

/-! ### Decimals written as numerals -/

/-- Behind its sign the numeral has the text. The digits of the decimal stand between zeros, and the
power of ten and the point make up for the zeros behind them. -/
structure Writes (n : Numeral) (d : Decimal) (cs : List Char) : Prop where
  chars : n.chars = n.signChars ++ cs
  whole_ne_nil : n.whole ≠ []
  padded : ∃ before after : Nat, n.whole ++ n.fraction =
      List.replicate before '0' ++ (d.digitChars ++ List.replicate after '0') ∧
    n.power.getD 0 - n.fraction.length + after = d.exponent

namespace Writes

variable {n : Numeral} {d : Decimal} {cs : List Char}

theorem wellFormed (h : n.Writes d cs) : n.WellFormed := by
  obtain ⟨before, after, hdigits, -⟩ := h.padded
  have hdigit : ∀ c ∈ n.whole ++ n.fraction, c.isDigit = true := by
    intro c hc
    rw [hdigits, List.mem_append, List.mem_append, List.mem_replicate, List.mem_replicate] at hc
    obtain ⟨-, rfl⟩ | hc | ⟨-, rfl⟩ := hc
    · rfl
    · exact Nat.isDigit_of_mem_toDigits (by decide) (by decide) hc
    · rfl
  exact ⟨h.whole_ne_nil, fun c hc => hdigit c (List.mem_append_left _ hc),
    fun c hc => hdigit c (List.mem_append_right _ hc)⟩

theorem read? (h : n.Writes d cs) : read? (n.signChars ++ cs) = some n :=
  h.chars ▸ h.wellFormed.read?_chars

theorem magnitude_eq (h : n.Writes d cs) : n.magnitude = d.value := by
  obtain ⟨before, after, hdigits, hexponent⟩ := h.padded
  have hcount : Nat.ofDigitChars 10 (n.whole ++ n.fraction) 0 = d.digits * 10 ^ after := by
    rw [hdigits, Nat.ofDigitChars_append, Nat.ofDigitChars_append,
      Nat.ofDigitChars_replicate_zero, Nat.ofDigitChars_replicate_zero, Nat.mul_zero,
      Decimal.digitChars, Nat.ofDigitChars_ten_toDigits, Nat.mul_comm]
  rw [magnitude, hcount, Decimal.value, ← hexponent, zpow_add₀ (by norm_num), zpow_natCast]
  push_cast
  ring

end Writes

end Numeral

namespace Decimal

open Numeral

variable (d : Decimal) (negative : Bool)

theorem digitChars_ne_nil : d.digitChars ≠ [] := Nat.toDigits_ne_nil

/-- The digits, with enough zeros in front of them for a digit before the point. -/
def paddedChars (d : Decimal) : List Char :=
  List.replicate ((-d.exponent).toNat + 1 - d.digitChars.length) '0' ++ d.digitChars

/-- How many digits stand before the point. -/
def pointAt (d : Decimal) : Nat := d.paddedChars.length - (-d.exponent).toNat

theorem pointAt_pos : 0 < d.pointAt := by
  rw [pointAt, paddedChars, List.length_append, List.length_replicate]
  omega

theorem length_drop_pointAt : (d.paddedChars.drop d.pointAt).length = (-d.exponent).toNat := by
  have hpos := d.pointAt_pos
  rw [List.length_drop]
  rw [pointAt] at hpos ⊢
  omega

theorem positional_of_neg (he : d.exponent < 0) :
    d.positional = d.paddedChars.take d.pointAt ++ '.' :: d.paddedChars.drop d.pointAt :=
  if_neg (by omega)

/-- The plain form has no power, and a fraction only if the exponent is negative. -/
theorem exists_positional : ∃ n : Numeral, n.Writes d d.positional ∧ n.negative = negative ∧
    n.power = none ∧ (n.fraction = [] ↔ 0 ≤ d.exponent) := by
  rcases lt_or_ge d.exponent 0 with he | he
  · have hlength := d.length_drop_pointAt
    have hfraction : d.paddedChars.drop d.pointAt ≠ [] := by
      rw [Ne, ← List.length_eq_zero_iff]
      omega
    have hwhole : d.paddedChars.take d.pointAt ≠ [] := by
      have hpos := d.pointAt_pos
      rw [Ne, List.take_eq_nil_iff, ← List.length_eq_zero_iff]
      rw [List.length_drop] at hlength
      omega
    refine ⟨⟨negative, d.paddedChars.take d.pointAt, d.paddedChars.drop d.pointAt, none⟩,
      ⟨?_, hwhole, (-d.exponent).toNat + 1 - d.digitChars.length, 0, ?_, ?_⟩, rfl, rfl,
      iff_of_false hfraction (by omega)⟩
    · simp [chars, fractionChars, powerChars, d.positional_of_neg he, hfraction]
    · rw [List.take_append_drop, List.replicate_zero, List.append_nil, paddedChars]
    · rw [Option.getD_none, hlength]
      omega
  · refine ⟨⟨negative, d.digitChars ++ List.replicate d.exponent.toNat '0', [], none⟩,
      ⟨?_, ?_, 0, d.exponent.toNat, ?_, ?_⟩, rfl, rfl, iff_of_true rfl he⟩
    · simp [chars, fractionChars, powerChars, positional, he]
    · simp [digitChars_ne_nil]
    · simp
    · simp [he]

theorem exists_fractional : ∃ n : Numeral, n.Writes d d.fractional ∧ n.negative = negative := by
  by_cases he : 0 ≤ d.exponent
  · refine ⟨⟨negative, d.digitChars ++ List.replicate d.exponent.toNat '0', ['0'], none⟩,
      ⟨?_, ?_, 0, d.exponent.toNat + 1, ?_, ?_⟩, rfl⟩
    · simp [chars, fractionChars, powerChars, fractional, positional, he]
    · simp [digitChars_ne_nil]
    · simp [List.replicate_succ']
    · simp [he]
  · obtain ⟨n, hn, hnegative, -⟩ := d.exists_positional negative
    exact ⟨n, by rwa [fractional, if_neg he], hnegative⟩

theorem exists_scientific : ∃ n : Numeral, n.Writes d d.scientific ∧ n.negative = negative := by
  have hlength : 0 < d.digitChars.length := Nat.length_toDigits_pos
  refine ⟨⟨negative, d.digitChars.take 1, d.digitChars.drop 1, some d.leadingExponent⟩,
    ⟨?_, ?_, 0, 0, ?_, ?_⟩, rfl⟩
  · simp [chars, fractionChars, powerChars, scientific]
  · simp [digitChars_ne_nil]
  · rw [List.take_append_drop, List.replicate_zero, List.nil_append, List.append_nil]
  · simp only [Option.getD_some, List.length_drop, leadingExponent]
    omega

theorem exists_inspected : ∃ n : Numeral, n.Writes d d.inspected ∧ n.negative = negative := by
  rw [inspected]
  split
  · exact d.exists_fractional negative
  · exact d.exists_scientific negative

end Decimal

end ScopeChain
