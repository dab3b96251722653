import Mathlib.Data.List.Basic

/-!
Where a part of a text ends. Of a character that two parts do not contain, the first occurrence
behind them shows that they are equal, and so does the last occurrence before them. A number in
digits ends wherever something follows that is no digit.
-/
namespace ScopeChain.Text

variable {l m s t : List Char} {x : Char}

/-- Two texts that begin with parts up to a delimiter. -/
theorem append_delimiter_inj (hl : x ∉ l) (hm : x ∉ m) :
    l ++ x :: s = m ++ x :: t ↔ l = m ∧ s = t := by
  refine ⟨fun h => ?_, fun ⟨hlm, hst⟩ => by rw [hlm, hst]⟩
  induction l generalizing m with
  | nil =>
    cases m with
    | nil => simpa using h
    | cons d m =>
      obtain ⟨rfl, -⟩ := List.cons_eq_cons.mp h
      exact absurd List.mem_cons_self hm
  | cons c l ih =>
    cases m with
    | nil =>
      obtain ⟨rfl, -⟩ := List.cons_eq_cons.mp h
      exact absurd List.mem_cons_self hl
    | cons d m =>
      obtain ⟨rfl, hrest⟩ := List.cons_eq_cons.mp h
      rw [List.mem_cons, not_or] at hl hm
      obtain ⟨rfl, rfl⟩ := ih hl.2 hm.2 hrest
      exact ⟨rfl, rfl⟩

/-- Two texts that end with parts from a delimiter on, whatever stands before it. -/
theorem delimiter_append_inj (hs : x ∉ s) (ht : x ∉ t) :
    l ++ x :: s = m ++ x :: t ↔ l = m ∧ s = t := by
  have hreverse : (l ++ x :: s).reverse = (m ++ x :: t).reverse ↔ s = t ∧ l = m := by
    simpa using append_delimiter_inj (s := l.reverse) (t := m.reverse)
      (mt List.mem_reverse.mp hs) (mt List.mem_reverse.mp ht)
  rw [← List.reverse_inj, hreverse, and_comm]

theorem not_mem_toDigits (hx : x.isDigit = false) (n : Nat) : x ∉ Nat.toDigits 10 n := by
  intro hmem
  have hdigit : x.isDigit = true := Nat.isDigit_of_mem_toDigits (by decide) (by decide) hmem
  simp [hx] at hdigit

theorem toDigits_inj {n k : Nat} : Nat.toDigits 10 n = Nat.toDigits 10 k ↔ n = k := by
  refine ⟨fun h => ?_, congrArg _⟩
  rw [← Nat.ofDigitChars_ten_toDigits (n := n), h, Nat.ofDigitChars_ten_toDigits]

/-- Two texts that begin with numbers. -/
theorem word_append_inj {n k : UInt32} (hx : x.isDigit = false) :
    Nat.toDigits 10 n.toNat ++ x :: s = Nat.toDigits 10 k.toNat ++ x :: t ↔ n = k ∧ s = t := by
  rw [append_delimiter_inj (not_mem_toDigits hx n.toNat) (not_mem_toDigits hx k.toNat),
    toDigits_inj, UInt32.toNat_inj]

end ScopeChain.Text
