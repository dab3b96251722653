import ScopeChain.Proofs.Walks

/-!
Lookups along a chain after a binding has been written. A new binding is found on exactly those
chains whose walk for the name comes to its scope; all else is found as before.
-/
namespace ScopeChain.Arena

variable {a b : Arena} {r s : Ref} {l : List Ref}

theorem lt_size_of_binds {x : String} (h : (a.scope s).binds x = true) : s < a.scopes.size := by
  by_contra hs
  have hroot : a.scope s = .root := scope_of_size_le a (Nat.le_of_not_lt hs)
  simp [hroot, Scope.root, Scope.binds] at h

theorem lookup_fst_congr {t : Token} (h : b.found l t.lexeme = a.found l t.lexeme) :
    (lookup l t b).1 = (lookup l t a).1 := by
  simp only [lookup, h]
  cases a.found l t.lexeme <;> rfl

theorem found_congr {y : String} (h : ∀ q ∈ l, b.scope q = a.scope q) :
    b.found l y = a.found l y := by
  induction l with
  | nil => rfl
  | cons q qs ih =>
    have hq := h q (by simp)
    have hqs := ih fun p hp => h p (by simp [hp])
    simp only [found, List.findSome?_cons, hq] at hqs ⊢
    rw [hqs]

theorem found_eq_none_iff {x : String} :
    a.found l x = none ↔ ∀ q ∈ l, (a.scope q).binds x = false := by
  simp [found, List.findSome?_eq_none_iff, Scope.binds_eq_isSome]

theorem found_cons_of_binds {x : String} (h : (a.scope r).binds x = true) (l : List Ref) :
    a.found (r :: l) x = (a.scope r).find? x := by
  rw [Scope.binds_eq_isSome] at h
  obtain ⟨v, hv⟩ := Option.isSome_iff_exists.mp h
  simp [found, hv]

theorem found_cons_of_not_binds {x : String} (h : (a.scope r).binds x = false) (l : List Ref) :
    a.found (r :: l) x = a.found l x := by
  rw [Scope.binds_eq_isSome, Option.isSome_eq_false_iff, Option.isNone_iff_eq_none] at h
  simp [found, h]

section Written

variable (hs : s < a.scopes.size) (x : String) (v : Value)
include hs

theorem scope_defineInside_self : (a.defineInside s x v).scope s = (a.scope s).define x v := by
  simp [scope_defineInside, hs]

/-- A new binding comes first on every chain whose walk reaches it. -/
theorem found_defineInside_of_reaches (h : s ∈ a.visited (·.binds x) l) :
    (a.defineInside s x v).found l x = some v := by
  induction l with
  | nil => simp [visited, upTo] at h
  | cons q qs ih =>
    by_cases hq : q = s
    · subst hq
      have hnew : ((a.defineInside q x v).scope q).find? x = some v := by
        rw [scope_defineInside_self hs, Scope.find?_define, if_pos rfl]
      simp [found, hnew]
    · have hsame : (a.defineInside s x v).scope q = a.scope q := by
        rw [scope_defineInside, if_neg fun hc => hq hc.1]
      cases hbinds : (a.scope q).binds x with
      | true =>
        rw [visited_cons_of_true hbinds] at h
        exact absurd (List.mem_singleton.mp h).symm hq
      | false =>
        rw [visited_cons_of_false hbinds] at h
        rw [found_cons_of_not_binds (by rw [hsame, hbinds])]
        exact ih ((List.mem_cons.mp h).resolve_left (Ne.symm hq))

/-- A walk that ends before the written scope does not see it. -/
theorem found_defineInside_of_not_reaches (h : s ∉ a.visited (·.binds x) l) :
    (a.defineInside s x v).found l x = a.found l x := by
  induction l with
  | nil => rfl
  | cons q qs ih =>
    have hq : q ≠ s := by
      rintro rfl
      rw [visited_cons_eq_cons_tail] at h
      simp at h
    have hsame : (a.defineInside s x v).scope q = a.scope q := by
      rw [scope_defineInside, if_neg fun hc => hq hc.1]
    cases hbinds : (a.scope q).binds x with
    | true => rw [found_cons_of_binds hbinds, found_cons_of_binds (by rw [hsame, hbinds]), hsame]
    | false =>
      rw [found_cons_of_not_binds hbinds, found_cons_of_not_binds (by rw [hsame, hbinds])]
      rw [visited_cons_of_false hbinds] at h
      exact ih fun hmem => h (List.mem_cons_of_mem _ hmem)

end Written

theorem found_defineInside_of_ne {x y : String} (hy : y ≠ x) (s : Ref) (v : Value)
    (l : List Ref) : (a.defineInside s x v).found l y = a.found l y := by
  have hfind : ∀ q, ((a.defineInside s x v).scope q).find? y = (a.scope q).find? y := by
    intro q
    rw [scope_defineInside]
    split
    · next h => rw [Scope.find?_define, if_neg hy, h.1]
    · rfl
  simp only [found, hfind]

end ScopeChain.Arena
