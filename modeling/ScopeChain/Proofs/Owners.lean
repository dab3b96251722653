import ScopeChain.Proofs.Walks

/-!
Owners, computed. From a scope outward along the parents, the first scope that binds a name is its
owner; and this is the scope that an assignment writes to if it succeeds, whatever is held.
-/
namespace ScopeChain.Arena

variable {α : Type} {a : Arena} {m : Mode} {r o : Ref} {l : List Ref} {t : Token} {x : String}
  {v : Value}

/-- The scopes from one outward, as far as so many parents lead. -/
def outwardWithin (a : Arena) : Nat → Ref → List Ref
  | 0, r => [r]
  | fuel + 1, r => r :: (a.scope r).parent.elim [] (a.outwardWithin fuel)

def outward (a : Arena) (r : Ref) : List Ref := a.outwardWithin a.fuel r

/-- The nearest scope that binds the name, from one outward. -/
def owner? (a : Arena) (x : String) (r : Ref) : Option Ref :=
  (a.outward r).find? fun q => (a.scope q).binds x

theorem outwardWithin_congr {b : Arena} (h : ∀ q, (b.scope q).parent = (a.scope q).parent)
    (fuel : Nat) (r : Ref) : b.outwardWithin fuel r = a.outwardWithin fuel r := by
  induction fuel generalizing r with
  | zero => rfl
  | succ fuel ih => rw [outwardWithin, outwardWithin, h, funext ih]

/-- To find an owner is not a matter of what has been reported. -/
@[simp] theorem owner?_emit (e : Event) (a : Arena) (x : String) (r : Ref) :
    (a.emit e).owner? x r = a.owner? x r := by
  unfold owner? outward
  rw [outwardWithin_congr fun q => congrArg Scope.parent (scope_emit e a q)]
  rfl

theorem Chain.outwardWithin_eq (h : a.Chain r l) {fuel : Nat} (hfuel : l.length ≤ fuel + 1) :
    a.outwardWithin fuel r = l := by
  induction h generalizing fuel with
  | root hp => cases fuel <;> simp [outwardWithin, hp]
  | @inner r p l hp outer ih =>
    obtain ⟨rest, rfl⟩ := outer.exists_cons
    obtain ⟨fuel, rfl⟩ : ∃ k, fuel = k + 1 :=
      Nat.exists_eq_succ_of_ne_zero (by simp only [List.length_cons] at hfuel; omega)
    rw [outwardWithin, hp, Option.elim_some, ih (by simpa using hfuel)]

theorem Chain.outward_eq (h : a.Chain r l) : a.outward r = l :=
  h.outwardWithin_eq h.length_le

theorem Chain.owner?_eq_some_iff (h : a.Chain r l) (x : String) (o : Ref) :
    a.owner? x r = some o ↔ a.Owner x r o := by
  rw [owner?, h.outward_eq, h.owner_iff]

/-! ### Definitions and assignments that succeed -/

theorem define_of_ok (hok : (define r x v a).1 = .ok ()) :
    (define r x v a).2 = a.defineInside r x v := by
  rw [define_eq] at hok ⊢
  split at hok
  · next hgrant => rw [if_pos hgrant]
  · cases hok

theorem holdingAll_of_ok {act : Attempt α} {x : α} (hact : Blind act) (hl : l.Nodup)
    (hok : (holdingAll m l act a).1 = .ok x) : holdingAll m l act a = act a := by
  rw [holdingAll_eq hact hl] at hok ⊢
  split at hok
  · next hall => rw [if_pos hall]
  · cases hok

theorem Chain.overwrite_of_ok (h : a.Chain r l) (hok : (overwrite l t v a).1 = .ok ()) :
    ∃ o, a.owner? t.lexeme r = some o ∧ (overwrite l t v a).2 = a.defineInside o t.lexeme v := by
  rw [owner?, h.outward_eq]
  unfold overwrite at hok ⊢
  split at hok
  · next o ho => exact ⟨o, ho, rfl⟩
  · cases hok

theorem Chain.assign_of_ok (h : a.Chain r l) (hok : (a.assign r t v).1 = .ok ()) :
    ∃ o, a.owner? t.lexeme r = some o ∧ (a.assign r t v).2 = a.defineInside o t.lexeme v := by
  rw [assign_eq_holdingAll h] at hok ⊢
  have hgranted := holdingAll_of_ok (blind_overwrite l t v) (h.visited_nodup _) hok
  rw [hgranted] at hok ⊢
  exact h.overwrite_of_ok hok

theorem Chain.assignInside_of_ok (h : a.Chain r l)
    (hok : (a.assignInside a.fuel r t v).1 = .ok ()) :
    ∃ o, a.owner? t.lexeme r = some o ∧
      (a.assignInside a.fuel r t v).2 = a.defineInside o t.lexeme v := by
  have hwalk : a.assignInside a.fuel r t v =
      holdingAll .exclusive (a.visited (·.binds t.lexeme) l).tail (overwrite l t v) a :=
    (walk_assignInside t v).eq_holdingAll h h.length_le fun _ => rfl
  have hnodup := (h.visited_nodup (·.binds t.lexeme)).sublist (List.tail_sublist _)
  rw [hwalk] at hok ⊢
  have hgranted := holdingAll_of_ok (blind_overwrite l t v) hnodup hok
  rw [hgranted] at hok ⊢
  exact h.overwrite_of_ok hok

end ScopeChain.Arena
