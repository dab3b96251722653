import Mathlib.Data.List.Perm.Subperm
import Mathlib.Logic.Relation
import ScopeChain.Arena

/-!
The chain of a scope: the scopes from it outward to a root. A chain is a finite derivation, so a
scope that has one is not among its own ancestors. Which scope owns a name is said of the chain
alone, with no walk and no hold.
-/
namespace ScopeChain

/-- The members of a list up to the first at which to stop, that one included. -/
def upTo {α : Type} (stop : α → Bool) : List α → List α
  | [] => []
  | q :: qs => if stop q then [q] else q :: upTo stop qs

theorem upTo_sublist {α : Type} (stop : α → Bool) (l : List α) : (upTo stop l).Sublist l := by
  induction l with
  | nil => exact List.Sublist.refl _
  | cons q qs ih =>
    cases hq : stop q with
    | true => simp [upTo, hq]
    | false => simpa [upTo, hq] using ih

theorem mem_upTo_iff {α : Type} (stop : α → Bool) (l : List α) (s : α) :
    s ∈ upTo stop l ↔
      ∃ pre post, l = pre ++ s :: post ∧ ∀ q ∈ pre, stop q = false := by
  induction l with
  | nil => simp [upTo]
  | cons q qs ih =>
    constructor
    · intro h
      by_cases hq : stop q
      · have hs : s = q := by simpa [upTo, hq] using h
        exact ⟨[], qs, by simp [hs], by simp⟩
      · simp only [upTo, hq, Bool.false_eq_true, if_false, List.mem_cons] at h
        rcases h with rfl | h
        · exact ⟨[], qs, rfl, by simp⟩
        · obtain ⟨pre, post, rfl, hpre⟩ := ih.mp h
          exact ⟨q :: pre, post, rfl, by simpa [hq] using hpre⟩
    · rintro ⟨pre, post, heq, hpre⟩
      cases pre with
      | nil =>
        obtain ⟨rfl, rfl⟩ : q = s ∧ qs = post := by simpa using heq
        by_cases hq : stop q <;> simp [upTo, hq]
      | cons c pre =>
        obtain ⟨rfl, rfl⟩ : q = c ∧ qs = pre ++ s :: post := by simpa using heq
        have hq : stop q = false := hpre q (by simp)
        have hs := ih.mpr ⟨pre, post, rfl, fun p hp => hpre p (by simp [hp])⟩
        simp [upTo, hq, hs]

theorem length_le_of_nodup {l : List Ref} {n : Nat} (hl : l.Nodup) (h : ∀ r ∈ l, r < n) :
    l.length ≤ n := by
  have hsub : l ⊆ List.range n := fun r hr => List.mem_range.mpr (h r hr)
  have hlen := (hl.subperm hsub).length_le
  rwa [List.length_range] at hlen

namespace Arena

/-- The scopes from one outward; the last of them is a root. -/
inductive Chain (a : Arena) : Ref → List Ref → Prop
  | root {r : Ref} (h : (a.scope r).parent = none) : Chain a r [r]
  | inner {r p : Ref} {l : List Ref} (h : (a.scope r).parent = some p)
      (outer : Chain a p l) : Chain a r (r :: l)

/-- Every scope has a chain, so all of them are finite. -/
def Rooted (a : Arena) : Prop := ∀ r, ∃ l, a.Chain r l

/-- The second scope is met on the way outward from the first, in one step or more. -/
def Ancestor (a : Arena) : Ref → Ref → Prop :=
  Relation.TransGen fun r p => (a.scope r).parent = some p

/-- The scope `s` is on the chain of `t`, and none that is strictly nearer to `t` binds the name. -/
def Reaches (a : Arena) (name : String) (t s : Ref) : Prop :=
  ∃ pre post, a.Chain t (pre ++ s :: post) ∧ ∀ q ∈ pre, (a.scope q).binds name = false

/-- The nearest scope on the chain of `t` that binds the name. -/
def Owner (a : Arena) (name : String) (t o : Ref) : Prop :=
  a.Reaches name t o ∧ (a.scope o).binds name = true

/-- What a walk along a chain visits if it ends at the first scope that meets a condition. -/
def visited (a : Arena) (stop : Scope → Bool) (l : List Ref) : List Ref :=
  upTo (fun q => stop (a.scope q)) l

variable {a b : Arena} {r : Ref} {l : List Ref}

theorem visited_cons_of_true {stop : Scope → Bool} (h : stop (a.scope r) = true) (l : List Ref) :
    a.visited stop (r :: l) = [r] := by
  simp [visited, upTo, h]

theorem visited_cons_of_false {stop : Scope → Bool} (h : stop (a.scope r) = false)
    (l : List Ref) : a.visited stop (r :: l) = r :: a.visited stop l := by
  simp [visited, upTo, h]

theorem visited_sublist (a : Arena) (stop : Scope → Bool) (l : List Ref) :
    (a.visited stop l).Sublist l :=
  upTo_sublist _ l

/-- A walk visits at least the scope that it starts from. -/
theorem visited_cons_eq_cons_tail (a : Arena) (stop : Scope → Bool) (r : Ref) (l : List Ref) :
    a.visited stop (r :: l) = r :: (a.visited stop (r :: l)).tail := by
  cases h : stop (a.scope r)
  · rw [visited_cons_of_false h, List.tail_cons]
  · rw [visited_cons_of_true h, List.tail_cons]

theorem scope_of_size_le (a : Arena) (h : a.scopes.size ≤ r) : a.scope r = .root :=
  a.scopes.value_of_size_le h

theorem lt_size_of_parent {p : Ref} (h : (a.scope r).parent = some p) : r < a.scopes.size := by
  by_contra hr
  have hroot : a.scope r = .root := scope_of_size_le a (Nat.le_of_not_lt hr)
  simp [hroot, Scope.root] at h

namespace Chain

theorem exists_cons (h : a.Chain r l) : ∃ outer, l = r :: outer := by
  cases h with
  | root _ => exact ⟨[], rfl⟩
  | inner _ outer => exact ⟨_, rfl⟩

theorem unique {l' : List Ref} (h : a.Chain r l) (h' : a.Chain r l') : l = l' := by
  induction h generalizing l' with
  | root hp =>
    cases h' with
    | root _ => rfl
    | inner hp' _ => simp [hp] at hp'
  | inner hp _ ih =>
    cases h' with
    | root hp' => simp [hp] at hp'
    | inner hp' outer' =>
      obtain rfl : _ = _ := Option.some.inj (hp.symm.trans hp')
      rw [ih outer']

/-- A member of a chain has the rest of it as its own. -/
theorem drop {pre post : List Ref} {q : Ref} (h : a.Chain r (pre ++ q :: post)) :
    a.Chain q (q :: post) := by
  induction pre generalizing r with
  | nil =>
    obtain ⟨outer, heq⟩ := h.exists_cons
    obtain ⟨rfl, rfl⟩ : q = r ∧ post = outer := by simpa using heq
    exact h
  | cons c pre ih =>
    generalize hl : c :: pre ++ q :: post = l at h
    cases h with
    | root _ => simp at hl
    | inner _ outer =>
      obtain ⟨rfl, rfl⟩ : c = r ∧ pre ++ q :: post = _ := by simpa using hl
      exact ih outer

/-- A scope met twice would have a chain that is shorter than itself. -/
theorem nodup (h : a.Chain r l) : l.Nodup := by
  induction h with
  | root _ => exact List.pairwise_singleton _ _
  | @inner r p l hp outer ih =>
    refine List.nodup_cons.mpr ⟨fun hmem => ?_, ih⟩
    obtain ⟨pre, post, rfl⟩ := List.append_of_mem hmem
    have heq : r :: post = r :: (pre ++ r :: post) := outer.drop.unique (inner hp outer)
    have hlen := congrArg List.length heq
    simp only [List.length_cons, List.length_append] at hlen
    omega

theorem visited_nodup (h : a.Chain r l) (stop : Scope → Bool) : (a.visited stop l).Nodup :=
  h.nodup.sublist (a.visited_sublist stop l)

theorem parent_getLast (h : a.Chain r l) {q : Ref} (hq : l.getLast? = some q) :
    (a.scope q).parent = none := by
  induction h with
  | root hp =>
    obtain rfl : _ = q := by simpa using hq
    exact hp
  | inner _ outer ih =>
    obtain ⟨_, rfl⟩ := outer.exists_cons
    exact ih (by simpa using hq)

theorem of_parents (h : a.Chain r l) (hp : ∀ q ∈ l, (b.scope q).parent = (a.scope q).parent) :
    b.Chain r l := by
  induction h with
  | root hr => exact root ((hp _ (by simp)).trans hr)
  | inner hr _ ih =>
    exact inner ((hp _ (by simp)).trans hr) (ih fun q hq => hp q (by simp [hq]))

/-- All scopes of a chain but its root have a parent, so they are among those made so far. -/
theorem lt_size_of_mem_dropLast (h : a.Chain r l) : ∀ q ∈ l.dropLast, q < a.scopes.size := by
  induction h with
  | root _ => simp
  | inner hp outer ih =>
    obtain ⟨_, rfl⟩ := outer.exists_cons
    intro q hq
    simp only [List.dropLast_cons_cons, List.mem_cons] at hq
    rcases hq with rfl | hq
    · exact lt_size_of_parent hp
    · exact ih q hq

theorem length_le (h : a.Chain r l) : l.length ≤ a.scopes.size + 1 := by
  have hnodup : l.dropLast.Nodup := h.nodup.sublist (List.dropLast_sublist l)
  have hlen := length_le_of_nodup hnodup h.lt_size_of_mem_dropLast
  rw [List.length_dropLast] at hlen
  omega

theorem mem_tail_of_ancestor {q : Ref} (h : a.Chain r l) (hq : a.Ancestor r q) : q ∈ l.tail := by
  induction hq using Relation.TransGen.head_induction_on generalizing l with
  | single hp =>
    cases h with
    | root hr => simp [hr] at hp
    | inner hr outer =>
      obtain rfl : _ = _ := Option.some.inj (hr.symm.trans hp)
      obtain ⟨_, rfl⟩ := outer.exists_cons
      simp
  | head hp _ ih =>
    cases h with
    | root hr => simp [hr] at hp
    | inner hr outer =>
      obtain rfl : _ = _ := Option.some.inj (hr.symm.trans hp)
      exact List.mem_of_mem_tail (ih outer)

theorem not_ancestor_self (h : a.Chain r l) : ¬ a.Ancestor r r := by
  intro hr
  have hmem := h.mem_tail_of_ancestor hr
  obtain ⟨outer, rfl⟩ := h.exists_cons
  exact (List.nodup_cons.mp h.nodup).1 hmem

theorem reaches_iff (h : a.Chain r l) (name : String) (s : Ref) :
    a.Reaches name r s ↔ s ∈ a.visited (·.binds name) l := by
  rw [visited, mem_upTo_iff]
  constructor
  · rintro ⟨pre, post, hchain, hpre⟩
    exact ⟨pre, post, h.unique hchain, hpre⟩
  · rintro ⟨pre, post, rfl, hpre⟩
    exact ⟨pre, post, h, hpre⟩

theorem owner_iff (h : a.Chain r l) (name : String) (o : Ref) :
    a.Owner name r o ↔ l.find? (fun q => (a.scope q).binds name) = some o := by
  rw [Owner, h.reaches_iff, visited, mem_upTo_iff, List.find?_eq_some_iff_append]
  simp [and_comm]

end Chain

theorem Rooted.emit (h : a.Rooted) (e : Event) : (a.emit e).Rooted := by
  intro r
  obtain ⟨l, hl⟩ := h r
  exact ⟨l, hl.of_parents fun _ _ => rfl⟩

theorem Owner.unique {name : String} {o o' : Ref} (h : a.Owner name r o) (hrooted : a.Rooted)
    (h' : a.Owner name r o') : o = o' := by
  obtain ⟨l, hl⟩ := hrooted r
  exact Option.some.inj (((hl.owner_iff name o).mp h).symm.trans ((hl.owner_iff name o').mp h'))

end Arena

end ScopeChain
