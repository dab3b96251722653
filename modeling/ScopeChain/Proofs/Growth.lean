import ScopeChain.Environment
import ScopeChain.Proofs.Walks

/-!
What an access may do to the scopes. A reading access leaves them all as they were, a writing one
changes at most one binding of one scope, and whatever else is done only adds scopes that are
enclosed by older ones. So a scope keeps its parent, and a chain once there stays.
-/
namespace ScopeChain.Arena

/-- From `a` to `b` scopes are only added, each younger than its parent, and no parent changes. -/
structure Grows (a b : Arena) : Prop where
  size_le : a.scopes.size ≤ b.scopes.size
  parent_eq : ∀ r < a.scopes.size, (b.scope r).parent = (a.scope r).parent
  older : ∀ r p, a.scopes.size ≤ r → (b.scope r).parent = some p → p < r

/-- Growth that leaves each earlier scope, and every hold, as it was. -/
structure Keeps (a b : Arena) : Prop extends Grows a b where
  scope_eq : ∀ r < a.scopes.size, b.scope r = a.scope r
  hold_eq : ∀ r, b.scopes.hold r = a.scopes.hold r

/-- Every parent is one of the scopes made so far. -/
def Closed (a : Arena) : Prop := ∀ r p, (a.scope r).parent = some p → p < a.scopes.size

variable {α : Type} {a b c : Arena} {m : Mode} {r : Ref} {l : List Ref}

/-! ### Growth -/

theorem Grows.trans (h : Grows a b) (h' : Grows b c) : Grows a c where
  size_le := Nat.le_trans h.size_le h'.size_le
  parent_eq r hr := by
    rw [h'.parent_eq r (Nat.lt_of_lt_of_le hr h.size_le), h.parent_eq r hr]
  older r p hr hp := by
    by_cases hb : r < b.scopes.size
    · exact h.older r p hr (h'.parent_eq r hb ▸ hp)
    · exact h'.older r p (Nat.le_of_not_lt hb) hp

theorem Keeps.trans (h : Keeps a b) (h' : Keeps b c) : Keeps a c where
  toGrows := h.toGrows.trans h'.toGrows
  scope_eq r hr := by
    rw [h'.scope_eq r (Nat.lt_of_lt_of_le hr h.size_le), h.scope_eq r hr]
  hold_eq r := by rw [h'.hold_eq, h.hold_eq]

/-- Scopes that nobody has made yet have no parent, so a change of values alone is growth. -/
theorem Grows.of_parents (hsize : b.scopes.size = a.scopes.size)
    (hparent : ∀ r, (b.scope r).parent = (a.scope r).parent) : Grows a b where
  size_le := Nat.le_of_eq hsize.symm
  parent_eq r _ := hparent r
  older r p hr hp := by
    rw [hparent, scope_of_size_le a hr] at hp
    simp [Scope.root] at hp

theorem Keeps.of_scopes_eq (h : b.scopes = a.scopes) : Keeps a b where
  toGrows := .of_parents (by rw [h]) fun r => by rw [scope, h, scope]
  scope_eq r _ := by rw [scope, h, scope]
  hold_eq r := by rw [h]

theorem Keeps.refl (a : Arena) : Keeps a a := .of_scopes_eq rfl

theorem Grows.refl (a : Arena) : Grows a a := (Keeps.refl a).toGrows

theorem Closed.of_grows (h : a.Closed) (hg : Grows a b) : b.Closed := by
  intro r p hp
  by_cases hr : r < a.scopes.size
  · exact Nat.lt_of_lt_of_le (h r p (hg.parent_eq r hr ▸ hp)) hg.size_le
  · exact Nat.lt_trans (hg.older r p (Nat.le_of_not_lt hr) hp) (lt_size_of_parent hp)

theorem Chain.lt_size (h : a.Chain r l) (hclosed : a.Closed) (hr : r < a.scopes.size) :
    ∀ q ∈ l, q < a.scopes.size := by
  induction h with
  | root _ => simpa using hr
  | inner hp _ ih =>
    intro q hq
    rcases List.mem_cons.mp hq with rfl | hq
    · exact hr
    · exact ih (hclosed _ _ hp) q hq

theorem Chain.of_grows (h : a.Chain r l) (hclosed : a.Closed) (hr : r < a.scopes.size)
    (hg : Grows a b) : b.Chain r l :=
  h.of_parents fun q hq => hg.parent_eq q (h.lt_size hclosed hr q hq)

/-- A scope younger than its parent continues a chain, so growth leaves no scope without one. -/
theorem Rooted.of_grows (h : a.Rooted) (hclosed : a.Closed) (hg : Grows a b) : b.Rooted := by
  intro r
  induction r using Nat.strongRecOn with
  | ind r ih =>
    by_cases hr : r < a.scopes.size
    · obtain ⟨l, hl⟩ := h r
      exact ⟨l, hl.of_grows hclosed hr hg⟩
    · cases hp : (b.scope r).parent with
      | none => exact ⟨[r], .root hp⟩
      | some p =>
        obtain ⟨l, hl⟩ := ih p (hg.older r p (Nat.le_of_not_lt hr) hp)
        exact ⟨r :: l, .inner hp hl⟩

/-! ### Accesses -/

/-- An access that leaves the scopes as they were. -/
def Reads (act : Attempt α) : Prop := ∀ a, (act a).2.scopes = a.scopes

/-- An access that changes at most one binding. -/
def Writes (act : Attempt α) : Prop :=
  ∀ a, (act a).2.scopes = a.scopes ∨
    ∃ o name v, (act a).2.scopes = a.scopes.update o fun s => s.define name v

theorem Reads.holding {act : Attempt α} (h : Reads act) : Reads (holding r m act) := by
  intro a
  by_cases hgrant : a.scopes.grants r m = true
  · simp only [Arena.holding, hgrant, if_true, release]
    rw [h (a.acquire r m)]
    exact a.scopes.release_acquire r m hgrant
  · simp [Arena.holding, hgrant]

theorem Writes.holding {act : Attempt α} (h : Writes act) : Writes (holding r m act) := by
  intro a
  by_cases hgrant : a.scopes.grants r m = true
  · simp only [Arena.holding, hgrant, if_true, release]
    rcases h (a.acquire r m) with hsame | ⟨o, name, v, hwrite⟩
    · left
      rw [hsame]
      exact a.scopes.release_acquire r m hgrant
    · right
      refine ⟨o, name, v, ?_⟩
      rw [hwrite, acquire, Store.update_acquire]
      exact Store.release_acquire _ r m (by simpa using hgrant)
  · simp [Arena.holding, hgrant]

theorem reads_getInside (fuel : Nat) (r : Ref) (t : Token) : Reads (getInside fuel r t) := by
  induction fuel generalizing r with
  | zero =>
    intro a
    unfold getInside
    split
    · rfl
    · split <;> rfl
  | succ fuel ih =>
    intro a
    unfold getInside
    split
    · rfl
    · split
      · rfl
      · exact (ih _).holding a

theorem reads_depthInside (fuel : Nat) (r : Ref) : Reads (depthInside fuel r) := by
  induction fuel generalizing r with
  | zero =>
    intro a
    unfold depthInside
    split <;> rfl
  | succ fuel ih =>
    intro a
    unfold depthInside
    split
    · rfl
    · exact (ih _).holding a

theorem writes_defineInside (r : Ref) (name : String) (v : Value) :
    Writes fun a => (Except.ok (), a.defineInside r name v) :=
  fun _ => .inr ⟨r, name, v, rfl⟩

theorem writes_assignInside (fuel : Nat) (r : Ref) (t : Token) (v : Value) :
    Writes (assignInside fuel r t v) := by
  induction fuel generalizing r with
  | zero =>
    intro a
    unfold assignInside
    split
    · exact .inr ⟨r, t.lexeme, v, rfl⟩
    · left
      split <;> rfl
  | succ fuel ih =>
    intro a
    unfold assignInside
    split
    · exact .inr ⟨r, t.lexeme, v, rfl⟩
    · split
      · exact .inl rfl
      · exact (ih _).holding a

theorem reads_get (r : Ref) (t : Token) : Reads (get r t) :=
  fun a => (reads_getInside a.fuel r t).holding a

theorem reads_depth (r : Ref) : Reads (depth r) :=
  fun a => (reads_depthInside a.fuel r).holding a

theorem reads_inspect (r : Ref) (f : Scope → α) : Reads (inspect r f) :=
  Reads.holding fun _ => rfl

theorem reads_list (r : Ref) (names : List String) : Reads (list r names) := by
  intro a
  unfold list
  split
  · rfl
  · split <;> rfl

theorem writes_assign (r : Ref) (t : Token) (v : Value) : Writes (assign r t v) :=
  fun a => (writes_assignInside a.fuel r t v).holding a

theorem writes_define (r : Ref) (name : String) (v : Value) : Writes (define r name v) :=
  (writes_defineInside r name v).holding

theorem Reads.keeps {act : Attempt α} (h : Reads act) (a : Arena) : Keeps a (act a).2 :=
  .of_scopes_eq (h a)

theorem Reads.writes {act : Attempt α} (h : Reads act) : Writes act := fun a => .inl (h a)

theorem Writes.size_eq {act : Attempt α} (h : Writes act) (a : Arena) :
    (act a).2.scopes.size = a.scopes.size := by
  rcases h a with hsame | ⟨o, name, v, hwrite⟩
  · rw [hsame]
  · rw [hwrite, Store.size_update]

theorem Writes.grows {act : Attempt α} (h : Writes act) (a : Arena) : Grows a (act a).2 := by
  rcases h a with hsame | ⟨o, name, v, hwrite⟩
  · exact (Keeps.of_scopes_eq hsame).toGrows
  · have hscope : ∀ q, (act a).2.scope q = (a.defineInside o name v).scope q := by
      intro q
      rw [scope, hwrite]
      rfl
    refine .of_parents ?_ fun q => ?_
    · rw [hwrite, Store.size_update]
    · rw [hscope, parent_defineInside]

/-! ### New scopes -/

theorem keeps_alloc (s : Scope) (a : Arena) (hs : ∀ p, s.parent = some p → p < a.scopes.size) :
    Keeps a (a.alloc s).2 where
  size_le := by simp [alloc]
  parent_eq r hr := by
    simp only [alloc, scope, Store.value_alloc, if_neg (Nat.ne_of_lt hr)]
  older r p hr hp := by
    simp only [alloc, scope, Store.value_alloc] at hp
    split at hp
    · next heq => exact heq ▸ hs p hp
    · have hroot : a.scopes.value r = .root := scope_of_size_le a hr
      simp [hroot, Scope.root] at hp
  scope_eq r hr := by
    simp only [alloc, scope, Store.value_alloc, if_neg (Nat.ne_of_lt hr)]
  hold_eq r := by simp [alloc, Store.hold_alloc]

theorem alloc_fst_lt (s : Scope) (a : Arena) : (a.alloc s).1 < (a.alloc s).2.scopes.size := by
  simp [alloc, Store.alloc, Store.size]

theorem keeps_newRoot (a : Arena) : Keeps a a.newRoot.2 :=
  keeps_alloc .root a fun _ hp => by simp [Scope.root] at hp

theorem keeps_newChild {parent : Ref} (h : parent < a.scopes.size) :
    Keeps a (a.newChild parent).2 :=
  keeps_alloc (.enclosedBy parent) a fun _ hp => Option.some.inj hp ▸ h

theorem keeps_nest (n : Nat) (h : r < a.scopes.size) :
    Keeps a (a.nest n r).2 ∧ (a.nest n r).1 < (a.nest n r).2.scopes.size := by
  induction n generalizing r a with
  | zero => exact ⟨.refl a, h⟩
  | succ n ih =>
    obtain ⟨hkeeps, hlt⟩ := ih (alloc_fst_lt (.enclosedBy r) a)
    exact ⟨(keeps_newChild h).trans hkeeps, hlt⟩

theorem keeps_copy (r : Ref) (hclosed : a.Closed) : Keeps a (copy r a).2 := by
  by_cases hgrant : a.scopes.grants r .shared = true
  · simpa [copy, inspect_eq, hgrant] using keeps_alloc (a.scope r) a (hclosed r)
  · simpa [copy, inspect_eq, hgrant] using Keeps.refl a

theorem copy_lt {c : Ref} (h : (copy r a).1 = .ok c) : c < (copy r a).2.scopes.size := by
  by_cases hgrant : a.scopes.grants r .shared = true
  · simp only [copy, inspect_eq, hgrant, if_true, Except.ok.injEq] at h ⊢
    exact h ▸ alloc_fst_lt (a.scope r) a
  · simp [copy, inspect_eq, hgrant] at h

end ScopeChain.Arena
