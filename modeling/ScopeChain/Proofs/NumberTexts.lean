import ScopeChain.Proofs.Numerals
import ScopeChain.Value

/-!
The texts of numbers lose nothing. The printed text of a finite number is a plain numeral that
rounds back to the same word, and the inspected text denotes the same decimal. So two numbers that
are equal without being the same word have different texts, and only the two zeros are such.
-/
namespace ScopeChain.Binary64

variable {x y : Binary64}

theorem isFinite_of_not (hnan : x.isNaN = false) (hinfinite : x.isInfinite = false) :
    x.isFinite = true := by
  have hfield := x.exponentField_lt
  rw [isNaN, Bool.and_eq_false_iff, beq_eq_false_iff_ne, bne_eq_false_iff_eq] at hnan
  rw [isInfinite, Bool.and_eq_false_iff, beq_eq_false_iff_ne, beq_eq_false_iff_ne] at hinfinite
  rw [isFinite, decide_eq_true_eq]
  omega

theorem textWith_of_isInfinite (write : Decimal → List Char) (hnan : x.isNaN = false)
    (hx : x.isInfinite = true) : x.textWith write = if x.isNegative then "-inf" else "inf" := by
  rw [textWith, hnan, hx]
  cases x.isNegative with
  | false => rfl
  | true => rfl

theorem toList_textWith (write : Decimal → List Char) (hnan : x.isNaN = false)
    (hx : x.isInfinite = false) :
    (x.textWith write).toList = (if x.isNegative then ['-'] else []) ++ write x.decimal := by
  rw [textWith, hnan, hx]
  cases x.isNegative with
  | false => simp
  | true => simp

/-- A numeral that writes the decimal of a number is what a reader finds in the text. -/
theorem read?_textWith {n : Numeral} {write : Decimal → List Char} (hnan : x.isNaN = false)
    (hx : x.isInfinite = false) (hn : n.Writes x.decimal (write x.decimal))
    (hnegative : n.negative = x.isNegative) : Numeral.read? (x.textWith write).toList = some n := by
  rw [toList_textWith write hnan hx, ← hnegative]
  exact hn.read?

/-- What a reader finds in the two texts of a finite number. -/
structure Reads (x : Binary64) (printed inspected : Numeral) : Prop where
  text : Numeral.read? (Value.number x).text.toList = some printed
  power : printed.power = none
  fraction : printed.fraction ≠ [] ↔ ¬ ∃ k : Int, x.value = k
  rounds : ∀ y : Binary64, Rounds printed.negative printed.magnitude y ↔ y = x
  doc : (Value.number x).doc .compact = "Number(" ++ x.inspect ++ ")"
  inspect : Numeral.read? x.inspect.toList = some inspected
  negative : inspected.negative = printed.negative
  magnitude : inspected.magnitude = printed.magnitude

theorem doc_number (x : Binary64) :
    (Value.number x).doc .compact = "Number(" ++ x.inspect ++ ")" := by
  simp [Value.doc, Doc.tuple, Doc.group, Doc.text]

theorem exists_reads (hnan : x.isNaN = false) (hx : x.isInfinite = false) :
    ∃ printed inspected, Reads x printed inspected := by
  obtain ⟨n, hn, hnegative, hpower, hfraction⟩ := x.decimal.exists_positional x.isNegative
  obtain ⟨m, hm, hnegative'⟩ := x.decimal.exists_inspected x.isNegative
  have hmagnitude : n.magnitude = x.decimal.value := hn.magnitude_eq
  have hnonneg : 0 ≤ x.decimal.value := by
    rw [Decimal.value]
    positivity
  refine ⟨n, m, read?_textWith hnan hx hn hnegative, hpower, ?_, fun y => ?_, doc_number x,
    read?_textWith hnan hx hm hnegative', hnegative'.trans hnegative.symm,
    hm.magnitude_eq.trans hmagnitude.symm⟩
  · rw [Ne, hfraction, decimal_exponent_nonneg_iff]
  · rw [hnegative, hmagnitude]
    exact x.covers_decimal.rounds_iff (isFinite_of_not hnan hx) hnonneg

theorem Reads.eq_of_text_eq {n m n' m' : Numeral} (hx : Reads x n m) (hy : Reads y n' m')
    (h : (Value.number x).text = (Value.number y).text) : x = y := by
  have hsame : n = n' := by
    have hread := hx.text
    rw [h, hy.text] at hread
    exact (Option.some.inj hread).symm
  have hrounds := (hx.rounds x).mpr rfl
  rw [hsame] at hrounds
  exact (hy.rounds x).mp hrounds

/-- The text of an infinity is no numeral. -/
theorem not_reads_of_text_eq {n m : Numeral} (hnan : x.isNaN = false) (hx : x.isInfinite = true)
    (hy : Reads y n m) : (Value.number x).text ≠ (Value.number y).text := by
  intro h
  have hunread : ∀ negative : Bool,
      Numeral.read? (if negative then "-inf" else "inf").toList = none := by decide
  have hread := hy.text
  rw [← h, Value.text, text, textWith_of_isInfinite _ hnan hx, hunread] at hread
  cases hread

theorem text_eq_iff (hx : x.isNaN = false) (hy : y.isNaN = false) :
    (Value.number x).text = (Value.number y).text ↔ x = y := by
  refine ⟨fun h => ?_, fun h => by rw [h]⟩
  cases hxi : x.isInfinite with
  | false =>
    obtain ⟨n, m, hreads⟩ := exists_reads hx hxi
    cases hyi : y.isInfinite with
    | false =>
      obtain ⟨n', m', hreads'⟩ := exists_reads hy hyi
      exact hreads.eq_of_text_eq hreads' h
    | true => exact absurd h.symm (not_reads_of_text_eq hy hyi hreads)
  | true =>
    cases hyi : y.isInfinite with
    | false =>
      obtain ⟨n', m', hreads'⟩ := exists_reads hy hyi
      exact absurd h (not_reads_of_text_eq hx hxi hreads')
    | true =>
      refine eq_of_rank_eq ?_ ((isInfinite_iff.mp hxi).trans (isInfinite_iff.mp hyi).symm)
      rw [Value.text, Value.text, text, text, textWith_of_isInfinite _ hx hxi,
        textWith_of_isInfinite _ hy hyi] at h
      revert h
      cases x.isNegative <;> cases y.isNegative <;> decide

/-- The two words of zero. -/
def zero (negative : Bool) : Binary64 := if negative then ⟨0x8000000000000000⟩ else ⟨0⟩

theorem eq_zero_of_isZero (hx : x.isZero = true) : x = zero x.isNegative := by
  have hzero : ∀ negative, (zero negative).isNegative = negative ∧ (zero negative).rank = 0 := by
    decide
  obtain ⟨hnegative, hrank⟩ := hzero x.isNegative
  exact eq_of_rank_eq hnegative.symm ((isZero_iff.mp hx).trans hrank.symm)

/-- Which numbers are equal without being the same. -/
theorem equals_and_ne_iff : (Value.number x).equals (.number y) = true ∧ x ≠ y ↔
    ∃ negative, x = zero negative ∧ y = zero !negative := by
  constructor
  · rintro ⟨hequals, hne⟩
    have hbits : x.bits ≠ y.bits := fun h => hne (congrArg mk h)
    obtain ⟨hx, hy⟩ : x.isZero = true ∧ y.isZero = true := by
      simp only [Value.equals, equals, beq_eq_false_iff_ne.mpr hbits, Bool.false_or,
        Bool.and_eq_true] at hequals
      exact hequals.2
    have hsign : y.isNegative = !x.isNegative := by
      refine Bool.eq_not_of_ne fun h => hne ?_
      rw [eq_zero_of_isZero hx, eq_zero_of_isZero hy, h]
    exact ⟨x.isNegative, eq_zero_of_isZero hx, hsign ▸ eq_zero_of_isZero hy⟩
  · rintro ⟨negative, rfl, rfl⟩
    revert negative
    decide

/-- Every number that is one can be told from its text, which is read and rounded to nothing but its
own word, and from that of every other number. Only the zeros are equal and look different. -/
theorem number_texts_lose_nothing (hx : x.isNaN = false) (hy : y.isNaN = false) :
    (x.isInfinite = true →
      (Value.number x).text = (if x.isNegative then "-inf" else "inf") ∧
        (Value.number x).doc .compact = "Number(" ++ (Value.number x).text ++ ")") ∧
    (x.isInfinite = false → ∃ printed inspected, Reads x printed inspected) ∧
    ((Value.number x).text = (Value.number y).text ↔ x.bits = y.bits) ∧
    ((Value.number x).equals (.number y) = true ∧ (Value.number x).text ≠ (Value.number y).text ↔
      ∃ negative, x = zero negative ∧ y = zero !negative) := by
  refine ⟨fun hinfinite => ⟨textWith_of_isInfinite _ hx hinfinite, ?_⟩, exists_reads hx, ?_, ?_⟩
  · rw [doc_number, Value.text, text, inspect, textWith_of_isInfinite _ hx hinfinite,
      textWith_of_isInfinite _ hx hinfinite]
  · rw [text_eq_iff hx hy]
    exact ⟨congrArg bits, congrArg mk⟩
  · rw [Ne, text_eq_iff hx hy, equals_and_ne_iff]

/-- The smallest number is read back from more than three hundred digits. -/
theorem smallest_number_read_back :
    (⟨1⟩ : Binary64).isNaN = false ∧ (⟨0⟩ : Binary64).isNaN = false ∧
      (Value.number ⟨1⟩).doc .compact = "Number(5e-324)" ∧
      (∃ printed inspected, Reads ⟨1⟩ printed inspected) ∧
      (Value.number ⟨1⟩).text ≠ (Value.number ⟨0⟩).text := by
  have h := number_texts_lose_nothing (x := ⟨1⟩) (y := ⟨0⟩) rfl rfl
  exact ⟨rfl, rfl, by decide +kernel, h.2.1 rfl, mt h.2.2.1.mp (by decide)⟩

end ScopeChain.Binary64
