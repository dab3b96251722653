import ScopeChain.Proofs.Resolution

/-!
The slot that a name has. Reading and overwriting are two walks of their own, but both end at the
nearest scope that binds the name. There an assignment puts its value in the place of the old one
and touches nothing else, wherever in the arena it may be; and without such a scope both fail alike.
-/
namespace ScopeChain

namespace Arena

/-- From `a` to `b` the scope `o` has come to bind the name to `v`, and nothing else has changed. -/
structure Replaces (a : Arena) (o : Ref) (x : String) (v : Value) (b : Arena) : Prop
    extends SameNames a b where
  find?_slot : (b.scope o).find? x = some v
  find?_other : ∀ q y, q ≠ o ∨ y ≠ x → (b.scope q).find? y = (a.scope q).find? y
  hold_eq : ∀ q, b.scopes.hold q = a.scopes.hold q

variable {a b : Arena} {r o : Ref} {l : List Ref} {x : String} {t : Token} {v : Value}

theorem replaces_defineInside (h : (a.scope o).binds x = true) (v : Value) :
    a.Replaces o x v (a.defineInside o x v) where
  toSameNames := sameNames_defineInside h v
  find?_slot := by
    rw [scope_defineInside_self (lt_size_of_binds h), Scope.find?_define, if_pos rfl]
  find?_other q y hother := by
    rw [scope_defineInside]
    split
    · next hq =>
      have hy : y ≠ x := hother.resolve_left fun hne => hne hq.1
      rw [Scope.find?_define, if_neg hy, hq.1]
    · rfl
  hold_eq q := hold_defineInside o x v a q

theorem SameNames.owner (h : SameNames a b) (ho : a.Owner x r o) : b.Owner x r o := by
  obtain ⟨⟨pre, post, hchain, hpre⟩, hbinds⟩ := ho
  refine ⟨⟨pre, post, hchain.of_parents fun q _ => h.parent_eq q, fun q hq => ?_⟩, ?_⟩
  · rw [h.binds_eq, hpre q hq]
  · rw [h.binds_eq, hbinds]

theorem Replaces.slot (h : a.Replaces o x v b) (ho : a.Owner x r o) : b.Slot x r o v :=
  ⟨h.owner ho, h.find?_slot⟩

theorem Owner.exists_slot (h : a.Owner x r o) : ∃ v, a.Slot x r o v := by
  have hbinds := h.2
  rw [Scope.binds_eq_isSome, Option.isSome_iff_exists] at hbinds
  obtain ⟨v, hv⟩ := hbinds
  exact ⟨v, h, hv⟩

section Unowned

variable (h : a.Chain r l) (hfree : a.Free) (hunowned : ∀ o, ¬ a.Owner t.lexeme r o)
include h hunowned

omit hfree in
theorem Chain.not_binds_of_unowned : ∀ q ∈ l, (a.scope q).binds t.lexeme = false := by
  have hnone : l.find? (fun q => (a.scope q).binds t.lexeme) = none := by
    rw [Option.eq_none_iff_forall_ne_some]
    intro o ho
    exact hunowned o ((h.owner_iff t.lexeme o).mpr ho)
  simpa using hnone

include hfree

theorem Chain.get_of_unowned :
    a.get r t = (.error (.undefined (.undefinedVariable t)),
      a.emit (.lookupUndefined t.lexeme t.line)) := by
  have hfound := found_eq_none_iff.mpr (h.not_binds_of_unowned hunowned)
  rw [get_of_free h hfree, lookup, hfound]

theorem Chain.assign_of_unowned (v : Value) :
    a.assign r t v = (.error (.undefined (.undefinedVariable t)),
      a.emit (.assignUndefined t.lexeme t.line)) := by
  have hfind : l.find? (fun q => (a.scope q).binds t.lexeme) = none := by
    simpa using h.not_binds_of_unowned hunowned
  rw [assign_of_free h hfree, overwrite, hfind]

end Unowned

end Arena

namespace Machine

/-- In every state of a run in which nothing is held, to read a name and to assign to it come to
the same slot, that of the nearest scope that binds the name. Its value is what is read, and it
is all that an assignment replaces, in all scopes there are. If no scope of the chain binds the
name, both fail with one error, which has the name, the line and the place of the token, and
change no scope. -/
theorem get_and_assign_share_slot {c : Machine} (hc : c.Reachable)
    (hfree : c.session.arena.Free) (s : Ref) (t : Token) (v : Value) :
    (∀ o, c.session.arena.Owner t.lexeme s o → ∃ w b,
      (c.session.arena.scope o).find? t.lexeme = some w ∧
      c.session.arena.get s t = (.ok w, c.session.arena) ∧
      c.session.arena.assign s t v = (.ok (), b) ∧
      c.session.arena.Replaces o t.lexeme v b ∧ b.get s t = (.ok v, b)) ∧
    ((∀ o, ¬ c.session.arena.Owner t.lexeme s o) → ∃ f a b,
      f = .undefined ⟨.undefinedVariable t.lexeme, t.line, t.span⟩ ∧
      c.session.arena.get s t = (.error f, a) ∧ a.scopes = c.session.arena.scopes ∧
      c.session.arena.assign s t v = (.error f, b) ∧ b.scopes = c.session.arena.scopes) := by
  constructor
  · intro o howner
    obtain ⟨w, hslot⟩ := howner.exists_slot
    have hreplaces := Arena.replaces_defineInside howner.2 v
    have hfree' : (c.session.arena.defineInside o t.lexeme v).Free := by
      intro q
      rw [hreplaces.hold_eq, hfree q]
    exact ⟨w, _, hslot.find?_eq, hslot.get_of_free hfree rfl, hslot.assign_of_free hfree rfl v,
      hreplaces, (hreplaces.slot howner).get_of_free hfree' rfl⟩
  · intro hunowned
    obtain ⟨l, hl⟩ := hc.rooted s
    exact ⟨_, _, _, rfl, hl.get_of_unowned hfree hunowned, rfl,
      hl.assign_of_unowned hfree hunowned v, rfl⟩

/-- The name that the global scope binds, and one that nothing binds, from the innermost block. -/
theorem get_and_assign_share_slot_boundOutermost :
    boundOutermost.Reachable ∧ boundOutermost.session.arena.Free ∧
      boundOutermost.session.arena.Owner "x" 2 0 ∧
      (∃ b, boundOutermost.session.arena.assign 2 (.identifier "x" 1) (.bool true) = (.ok (), b) ∧
        boundOutermost.session.arena.Replaces 0 "x" (.bool true) b) ∧
      ∃ a, boundOutermost.session.arena.get 2 (.identifier "y" 7) =
        (.error (.undefined ⟨.undefinedVariable "y", 7, .dummy⟩), a) := by
  have hreach : boundOutermost.Reachable := ⟨_, rfl⟩
  have hfree : boundOutermost.session.arena.Free := Arena.free_of_lt_size (by decide +kernel)
  have hchain : boundOutermost.session.arena.Chain 2 [2, 1, 0] :=
    .inner (by decide +kernel) (.inner (by decide +kernel) (.root (by decide +kernel)))
  have howner : boundOutermost.session.arena.Owner "x" 2 0 :=
    (hchain.owner_iff "x" 0).mpr (by decide +kernel)
  have hunowned : ∀ o, ¬ boundOutermost.session.arena.Owner "y" 2 o := by
    intro o ho
    have hfind := (hchain.owner_iff "y" o).mp ho
    have hnone : [2, 1, 0].find? (fun q => (boundOutermost.session.arena.scope q).binds "y") =
        none := by
      decide +kernel
    rw [hnone] at hfind
    cases hfind
  obtain ⟨hbound, -⟩ := get_and_assign_share_slot hreach hfree 2 (.identifier "x" 1) (.bool true)
  obtain ⟨-, hunbound⟩ := get_and_assign_share_slot hreach hfree 2 (.identifier "y" 7) (.bool true)
  obtain ⟨w, b, -, -, hassign, hreplaces, -⟩ := hbound 0 howner
  obtain ⟨f, a, -, rfl, hget, -⟩ := hunbound hunowned
  exact ⟨hreach, hfree, howner, ⟨b, hassign, hreplaces⟩, a, hget⟩

end Machine

end ScopeChain
