import ScopeChain.Proofs.Runs

/-!
Walks are finite and meet no scope twice. In every state of a run the chain of a scope ends at a
root and repeats nothing, and the walks hold the scopes of that chain one inside the other, each of
them once. So a walk that finds nothing held is refused nothing, its own holds notwithstanding.
-/
namespace ScopeChain.Arena

/-- A machine word can tell all scopes apart that have been made, as an address does. -/
def Addressable (a : Arena) : Prop := a.scopes.size ≤ maxCount

/-- The walks from a scope go along the chain `l`. -/
structure WalksAlong (a : Arena) (r : Ref) (l : List Ref) : Prop where
  chain : a.Chain r l
  root : ∃ o, l.getLast? = some o ∧ (a.scope o).parent = none
  nodup : l.Nodup
  get_eq : ∀ t, a.get r t =
    holdingAll .shared (a.visited (·.binds t.lexeme) l) (lookup l t) a
  assign_eq : ∀ t v, a.assign r t v =
    holdingAll .exclusive (a.visited (·.binds t.lexeme) l) (overwrite l t v) a
  depth_eq : a.depth r = holdingAll .shared l (count l) a
  get_ends : ∀ t, (a.get r t).1 ≠ .error .endless
  assign_ends : ∀ t v, (a.assign r t v).1 ≠ .error .endless
  depth_ends : (a.depth r).1 ≠ .error .endless
  depth_counts : a.Addressable → ∀ n, (a.depth r).1 = .ok n → n = l.length
  get_granted : a.Free → ∀ t m, (a.get r t).1 ≠ .error (.refused m)
  assign_granted : a.Free → ∀ t v m, (a.assign r t v).1 ≠ .error (.refused m)
  depth_granted : a.Free → ∃ n, (a.depth r).1 = .ok n

variable {α : Type} {a : Arena} {m : Mode} {r : Ref} {l : List Ref}

theorem Chain.length_le_size (h : a.Chain r l) (hclosed : a.Closed) (hr : r < a.scopes.size) :
    l.length ≤ a.scopes.size :=
  length_le_of_nodup h.nodup (h.lt_size hclosed hr)

/-- Beyond what the attempt answers itself, only a refusal can come of the holds around it. -/
theorem holdingAll_fst {act : Attempt α} (hact : Blind act) (hl : l.Nodup) (m : Mode) (a : Arena) :
    (holdingAll m l act a).1 = (act a).1 ∨ (holdingAll m l act a).1 = .error (.refused m) := by
  rw [holdingAll_eq hact hl]
  split
  · exact .inl rfl
  · exact .inr rfl

theorem lookup_fst (l : List Ref) (t : Token) (a : Arena) :
    (∃ v, (lookup l t a).1 = .ok v) ∨
      (lookup l t a).1 = .error (.undefined (.undefinedVariable t)) := by
  unfold lookup
  split
  · exact .inl ⟨_, rfl⟩
  · exact .inr rfl

theorem overwrite_fst (l : List Ref) (t : Token) (v : Value) (a : Arena) :
    (overwrite l t v a).1 = .ok () ∨
      (overwrite l t v a).1 = .error (.undefined (.undefinedVariable t)) := by
  unfold overwrite
  split
  · exact .inl rfl
  · exact .inr rfl

section Answers

variable (h : a.Chain r l)
include h

theorem get_ne_endless (t : Token) : (a.get r t).1 ≠ .error .endless := by
  have hfst := holdingAll_fst (blind_lookup l t) (h.visited_nodup (·.binds t.lexeme)) .shared a
  rw [get_eq_holdingAll h]
  rcases hfst with heq | heq
  · rcases lookup_fst l t a with ⟨v, hv⟩ | hv <;> simp [heq, hv]
  · simp [heq]

theorem assign_ne_endless (t : Token) (v : Value) : (a.assign r t v).1 ≠ .error .endless := by
  have hfst :=
    holdingAll_fst (blind_overwrite l t v) (h.visited_nodup (·.binds t.lexeme)) .exclusive a
  rw [assign_eq_holdingAll h]
  rcases hfst with heq | heq
  · rcases overwrite_fst l t v a with hv | hv <;> simp [heq, hv]
  · simp [heq]

theorem depth_fst :
    (a.depth r).1 = .ok (min l.length maxCount) ∨ (a.depth r).1 = .error (.refused .shared) := by
  rw [depth_eq_holdingAll h]
  exact holdingAll_fst (blind_count l) h.nodup .shared a

end Answers

theorem Chain.walksAlong (h : a.Chain r l) (hclosed : a.Closed) (hr : r < a.scopes.size) :
    a.WalksAlong r l where
  chain := h
  root := by
    obtain ⟨o, ho⟩ : ∃ o, l.getLast? = some o := by
      obtain ⟨outer, rfl⟩ := h.exists_cons
      exact ⟨_, List.getLast?_cons⟩
    exact ⟨o, ho, h.parent_getLast ho⟩
  nodup := h.nodup
  get_eq := get_eq_holdingAll h
  assign_eq := assign_eq_holdingAll h
  depth_eq := depth_eq_holdingAll h
  get_ends := get_ne_endless h
  assign_ends := assign_ne_endless h
  depth_ends := by
    rcases depth_fst h with heq | heq <;> simp [heq]
  depth_counts haddressable n hn := by
    have hlen : l.length ≤ maxCount := Nat.le_trans (h.length_le_size hclosed hr) haddressable
    rcases depth_fst h with heq | heq
    · have hmin : min l.length maxCount = n := by simpa [heq] using hn
      omega
    · simp [heq] at hn
  get_granted hfree t m := by
    rw [get_of_free h hfree]
    rcases lookup_fst l t a with ⟨v, hv⟩ | hv <;> simp [hv]
  assign_granted hfree t v m := by
    rw [assign_of_free h hfree]
    rcases overwrite_fst l t v a with hv | hv <;> simp [hv]
  depth_granted hfree := ⟨_, by rw [depth_of_free h hfree, count]⟩

end ScopeChain.Arena

namespace ScopeChain.Machine

/-- In every state of a run, whatever is held in it, the walks from a scope go along a chain. -/
theorem walks_end_at_root {c : Machine} (hc : c.Reachable) {r : Ref}
    (hr : r < c.session.arena.scopes.size) : ∃ l, c.session.arena.WalksAlong r l := by
  obtain ⟨l, hl⟩ := hc.rooted r
  exact ⟨l, hl.walksAlong hc.sound.closed hr⟩

/-- Two blocks inside the global scope, the inner one of them being written to. -/
def writing : Machine := start.run
  [.step (.newEnvironment "e"), .step (.push "e" 2), .step (.environment "e" (.capture "inner")),
    .enter (.holding "inner" .exclusive [.define "x" .nil])]

theorem walks_end_at_root_writing :
    writing.Reachable ∧ 2 < writing.session.arena.scopes.size ∧
      ∃ l, writing.session.arena.WalksAlong 2 l :=
  ⟨⟨_, rfl⟩, by decide +kernel, walks_end_at_root ⟨_, rfl⟩ (by decide +kernel)⟩

end ScopeChain.Machine
