import ScopeChain.Session
import ScopeChain.Proofs.Growth
import ScopeChain.Proofs.Lookups

/-!
Frames: a stack of maps that share nothing. An environment whose stack is a chain, with no scope
held, stands for such frames, and every operation on it does what the operation of the same name
does to the frames.
-/
namespace ScopeChain

/-- The current map first and the global one last; there is always a global one. -/
inductive Frames where
  | global (m : Bindings)
  | inner (m : Bindings) (outer : Frames)

namespace Frames

def depth : Frames → Nat
  | .global _ => 1
  | .inner _ outer => outer.depth + 1

/-- The current map. -/
def top : Frames → Bindings
  | .global m => m
  | .inner m _ => m

def push (f : Frames) : Frames := .inner ∅ f

/-- The global map stays. -/
def pop : Frames → Frames
  | .global m => .global m
  | .inner _ outer => outer

/-- Bind a name in the current map. -/
def define (name : String) (v : Value) : Frames → Frames
  | .global m => .global (m.insert name v)
  | .inner m outer => .inner (m.insert name v) outer

/-- Bind a name in the global map. -/
def defineGlobal (name : String) (v : Value) : Frames → Frames
  | .global m => .global (m.insert name v)
  | .inner m outer => .inner m (outer.defineGlobal name v)

/-- What the first map that binds the name binds it to. -/
def get? (name : String) : Frames → Option Value
  | .global m => m[name]?
  | .inner m outer =>
    match m[name]? with
    | some v => some v
    | none => outer.get? name

/-- Bind the name to another value in the first map that binds it; there must be one. -/
def assign? (name : String) (v : Value) : Frames → Option Frames
  | .global m => if m.contains name then some (.global (m.insert name v)) else none
  | .inner m outer =>
    if m.contains name then some (.inner (m.insert name v) outer)
    else (outer.assign? name v).map (.inner m)

theorem assign?_of_top {f : Frames} {name : String} (h : f.top.contains name = true) (v : Value) :
    f.assign? name v = some (f.define name v) := by
  cases f <;> exact if_pos h

end Frames

namespace Arena

/-- The scopes of a list are the maps of some frames, each enclosed by the next, `g` the last. -/
inductive Stacked (a : Arena) (g : Ref) : List Ref → Frames → Prop
  | global {m : Bindings} (hlt : g < a.scopes.size) (h : a.scope g = ⟨m, none⟩) :
    Stacked a g [g] (.global m)
  | inner {r q : Ref} {rs : List Ref} {m : Bindings} {outer : Frames} (hlt : r < a.scopes.size)
    (h : a.scope r = ⟨m, some q⟩) (houter : Stacked a g (q :: rs) outer) :
    Stacked a g (r :: q :: rs) (.inner m outer)

variable {a b : Arena} {g r : Ref} {l rs : List Ref} {f : Frames}

namespace Stacked

theorem exists_cons (h : Stacked a g l f) : ∃ r rs, l = r :: rs := by
  cases h with
  | global => exact ⟨g, [], rfl⟩
  | inner => exact ⟨_, _, rfl⟩

theorem chain (h : Stacked a g (r :: rs) f) : a.Chain r (r :: rs) := by
  induction f generalizing r rs with
  | global m =>
    cases h with
    | global _ hscope => exact .root (by rw [hscope])
  | inner m outer ih =>
    cases h with
    | inner _ hscope houter => exact .inner (by rw [hscope]) (ih houter)

theorem lt_size (h : Stacked a g l f) : ∀ q ∈ l, q < a.scopes.size := by
  induction h with
  | global hlt _ => simpa using hlt
  | inner hlt _ _ ih =>
    intro q hq
    rcases List.mem_cons.mp hq with rfl | hq
    · exact hlt
    · exact ih q hq

theorem global_mem (h : Stacked a g l f) : g ∈ l := by
  induction h with
  | global _ _ => simp
  | inner _ _ _ ih => exact List.mem_cons_of_mem _ ih

theorem depth_eq (h : Stacked a g l f) : f.depth = l.length := by
  induction h with
  | global _ _ => rfl
  | inner _ _ _ ih => rw [Frames.depth, ih, ← List.length_cons]

theorem bindings_eq (h : Stacked a g (r :: rs) f) : (a.scope r).bindings = f.top := by
  cases h with
  | global _ hscope => rw [hscope, Frames.top]
  | inner _ hscope _ => rw [hscope, Frames.top]

/-- Only the scopes of the list matter, and not who holds them. -/
theorem of_scope_eq (h : Stacked a g l f) (hsize : a.scopes.size ≤ b.scopes.size)
    (hscope : ∀ q ∈ l, b.scope q = a.scope q) : Stacked b g l f := by
  induction h with
  | global hlt h =>
    exact .global (Nat.lt_of_lt_of_le hlt hsize) ((hscope g (by simp)).trans h)
  | inner hlt h _ ih =>
    exact .inner (Nat.lt_of_lt_of_le hlt hsize) ((hscope _ (by simp)).trans h)
      (ih fun q hq => hscope q (by simp [hq]))

theorem of_keeps (h : Stacked a g l f) (hkeeps : Keeps a b) : Stacked b g l f :=
  h.of_scope_eq hkeeps.size_le fun q hq => hkeeps.scope_eq q (h.lt_size q hq)

theorem push (h : Stacked a g (r :: rs) f) :
    Stacked (a.newChild r).2 g ((a.newChild r).1 :: r :: rs) f.push := by
  have hkeeps : Keeps a (a.newChild r).2 := keeps_newChild (h.lt_size r (by simp))
  refine .inner (alloc_fst_lt _ a) ?_ (h.of_keeps hkeeps)
  show (a.scopes.alloc (.enclosedBy r)).2.value a.scopes.size = ⟨∅, some r⟩
  rw [Store.value_alloc, if_pos rfl, Scope.enclosedBy]

/-- A binding made in a scope that is not on the list is not seen from it. -/
theorem defineInside_of_not_mem (h : Stacked a g l f) (hr : r ∉ l) (name : String) (v : Value) :
    Stacked (a.defineInside r name v) g l f := by
  refine h.of_scope_eq (Nat.le_of_eq (size_defineInside r name v a).symm) fun q hq => ?_
  have hne : q ≠ r := fun heq => hr (heq ▸ hq)
  simp [scope_defineInside, hne]

/-- A binding made further out leaves the current scope as it is. -/
theorem inner_defineInside {q o : Ref} {m : Bindings} (hlt : r < a.scopes.size)
    (hscope : a.scope r = ⟨m, some q⟩) (hne : r ≠ o) {name : String} {v : Value}
    (houter : Stacked (a.defineInside o name v) g (q :: rs) f) :
    Stacked (a.defineInside o name v) g (r :: q :: rs) (.inner m f) := by
  refine .inner ?_ ?_ houter
  · rw [size_defineInside]
    exact hlt
  · simp [scope_defineInside, hne, hscope]

theorem define (h : Stacked a g (r :: rs) f) (name : String) (v : Value) :
    Stacked (a.defineInside r name v) g (r :: rs) (f.define name v) := by
  have hr : r < (a.defineInside r name v).scopes.size := by
    rw [size_defineInside]
    exact h.lt_size r (by simp)
  have hself := scope_defineInside_self (h.lt_size r (by simp)) name v
  have hnodup := h.chain.nodup
  cases h with
  | global hlt hscope =>
    rw [hscope] at hself
    exact .global hr hself
  | inner hlt hscope houter =>
    rw [hscope] at hself
    exact .inner hr hself (houter.defineInside_of_not_mem (List.nodup_cons.mp hnodup).1 name v)

theorem defineGlobal (h : Stacked a g (r :: rs) f) (name : String) (v : Value) :
    Stacked (a.defineInside g name v) g (r :: rs) (f.defineGlobal name v) := by
  induction f generalizing r rs with
  | global m =>
    cases h with
    | global hlt hscope => exact (Stacked.global hlt hscope).define name v
  | inner m outer ih =>
    have hnodup := h.chain.nodup
    cases h with
    | inner hlt hscope houter =>
      have hne : r ≠ g := fun heq => (List.nodup_cons.mp hnodup).1 (heq ▸ houter.global_mem)
      exact inner_defineInside hlt hscope hne (ih houter)

theorem found_eq (h : Stacked a g l f) (name : String) : a.found l name = f.get? name := by
  induction h with
  | @global m _ hscope =>
    cases hm : m[name]? <;> simp [found, hscope, Scope.find?, Frames.get?, hm]
  | @inner r q rs m outer _ hscope _ ih =>
    have hcons : a.found (r :: q :: rs) name =
        match m[name]? with
        | some v => some v
        | none => a.found (q :: rs) name := by
      simp only [found, List.findSome?_cons, hscope, Scope.find?]
      cases m[name]? <;> rfl
    rw [hcons, ih, Frames.get?]

theorem binds_eq (h : Stacked a g (r :: rs) f) (name : String) :
    (a.scope r).binds name = f.top.contains name := by
  rw [Scope.binds, h.bindings_eq]

/-- The frames are assigned to where the first scope of the list that binds the name is. -/
theorem assign (h : Stacked a g (r :: rs) f) {name : String} (v : Value) {o : Ref}
    (ho : (r :: rs).find? (fun q => (a.scope q).binds name) = some o) :
    ∃ f', f.assign? name v = some f' ∧ Stacked (a.defineInside o name v) g (r :: rs) f' := by
  induction f generalizing r rs with
  | global m =>
    have htop := h.binds_eq name
    cases h with
    | global hlt hscope =>
      obtain ⟨hbinds, rfl⟩ : (a.scope g).binds name = true ∧ g = o := by simpa using ho
      exact ⟨_, Frames.assign?_of_top (htop ▸ hbinds) v, (Stacked.global hlt hscope).define name v⟩
  | inner m outer ih =>
    have htop := h.binds_eq name
    have hdefine := h.define name v
    have hnodup := h.chain.nodup
    cases h with
    | @inner _ q rs _ _ hlt hscope houter =>
      rw [List.find?_cons] at ho
      cases hbinds : (a.scope r).binds name with
      | true =>
        rw [hbinds] at ho
        obtain rfl : r = o := Option.some.inj ho
        exact ⟨_, Frames.assign?_of_top (htop ▸ hbinds) v, hdefine⟩
      | false =>
        rw [hbinds] at ho
        obtain ⟨f', hassign, hstacked⟩ := ih houter ho
        have hne : r ≠ o := by
          rintro rfl
          exact (List.nodup_cons.mp hnodup).1 (List.mem_of_find?_eq_some ho)
        have hm : m.contains name = false := htop.symm.trans hbinds
        refine ⟨.inner m f', ?_, inner_defineInside hlt hscope hne hstacked⟩
        rw [Frames.assign?, hm, hassign]
        rfl

theorem assign?_eq_none (h : Stacked a g l f) {name : String} (v : Value)
    (hnone : l.find? (fun q => (a.scope q).binds name) = none) : f.assign? name v = none := by
  induction h with
  | @global m hlt hscope =>
    have hbinds : (a.scope g).binds name = false := by simpa using hnone
    rw [hscope] at hbinds
    exact if_neg (ne_true_of_eq_false hbinds)
  | @inner r q rs m outer _ hscope _ ih =>
    rw [List.find?_cons, hscope] at hnone
    cases hbinds : Scope.binds ⟨m, some q⟩ name with
    | true => simp [hbinds] at hnone
    | false =>
      rw [hbinds] at hnone
      have hm : m.contains name = false := hbinds
      rw [Frames.assign?, hm, ih hnone]
      rfl

end Stacked

end Arena

namespace Environment

/-- The environment stands for the frames, and nothing is held that could get in the way. -/
structure Tracks (e : Environment) (a : Arena) (f : Frames) : Prop where
  free : a.Free
  stacked : a.Stacked e.global e.stack f

namespace Tracks

variable {e : Environment} {a b : Arena} {f : Frames}

theorem create (a : Arena) (hfree : a.Free) :
    (Environment.create a).1.Tracks (Environment.create a).2 (.global ∅) where
  free r := by
    show (a.scopes.alloc .root).2.hold r = .free
    rw [Store.hold_alloc, hfree r]
  stacked := by
    refine .global (Arena.alloc_fst_lt .root a) ?_
    show (a.scopes.alloc .root).2.value a.scopes.size = ⟨∅, none⟩
    rw [Store.value_alloc, if_pos rfl, Scope.root]

theorem of_scopes_eq (h : e.Tracks a f) (hscopes : b.scopes = a.scopes) : e.Tracks b f where
  free r := by rw [hscopes, h.free r]
  stacked := h.stacked.of_scope_eq (Nat.le_of_eq (by rw [hscopes])) fun q _ => by
    rw [Arena.scope, Arena.scope, hscopes]

theorem stacked_current (h : e.Tracks a f) :
    ∃ rs, e.stack = e.current :: rs ∧ a.Stacked e.global (e.current :: rs) f := by
  obtain ⟨r, rs, hstack⟩ := h.stacked.exists_cons
  have hcurrent : e.current = r := by rw [current, hstack, List.headD_cons]
  subst hcurrent
  exact ⟨rs, hstack, hstack ▸ h.stacked⟩

theorem depth_eq (h : e.Tracks a f) : e.depth = f.depth := h.stacked.depth_eq.symm

/-- The chain of the current scope is the stack itself. -/
theorem extent_eq (h : e.Tracks a f) :
    a.extent e.current = some (min f.depth Arena.maxCount, f.top.size) := by
  obtain ⟨rs, hstack, hcurrent⟩ := h.stacked_current
  have hsize : (a.scope e.current).size = f.top.size := by
    rw [Scope.size, hcurrent.bindings_eq]
  unfold Arena.extent
  rw [Arena.depth_of_free hcurrent.chain h.free, Arena.count, ← hcurrent.depth_eq]
  simp [Arena.inspect_eq, Arena.grants_of_free h.free, hsize]

theorem push (h : e.Tracks a f) : (e.push a).1.Tracks (e.push a).2 f.push := by
  obtain ⟨rs, hstack, hcurrent⟩ := h.stacked_current
  refine ⟨fun r => ?_, ?_⟩
  · show (a.scopes.alloc (.enclosedBy e.current)).2.hold r = .free
    rw [Store.hold_alloc, h.free r]
  · have hpush := hcurrent.push
    rw [← hstack] at hpush
    exact hpush.of_scope_eq (Nat.le_refl _) fun _ _ => rfl

theorem pop (h : e.Tracks a f) : (e.pop a).1.Tracks (e.pop a).2 f.pop := by
  have hdepth := h.depth_eq
  cases f with
  | global m =>
    have hlast : ¬ 1 < e.depth := by rw [hdepth, Frames.depth]; omega
    simp only [Environment.pop, hlast, if_false]
    exact h
  | inner m outer =>
    obtain ⟨free, stacked⟩ := h
    generalize hl : e.stack = l at stacked
    cases stacked with
    | inner hlt hscope houter =>
      have hmore : 1 < e.depth := by
        simp only [depth, hl, List.length_cons]
        omega
      simp only [Environment.pop, hmore, if_true, hl, List.tail_cons]
      exact ⟨free, houter.of_scope_eq (Nat.le_refl _) fun _ _ => rfl⟩

/-- A binding is made in any scope, and that makes other frames of the stack. -/
theorem defineInside (h : e.Tracks a f) {r : Ref} {name : String} {v : Value} {f' : Frames}
    (hstacked : (a.defineInside r name v).Stacked e.global e.stack f') :
    e.Tracks (a.defineInside r name v) f' where
  free q := by rw [Arena.hold_defineInside, h.free q]
  stacked := hstacked

theorem define (h : e.Tracks a f) (name : String) (v : Value) :
    (e.define name v a).1 = .ok () ∧ e.Tracks (e.define name v a).2 (f.define name v) := by
  have hemit : e.Tracks (a.emit (.define name e.depth)) f := h.of_scopes_eq rfl
  obtain ⟨rs, hstack, hcurrent⟩ := hemit.stacked_current
  have hdefine := hcurrent.define name v
  rw [← hstack] at hdefine
  unfold Environment.define
  rw [Arena.define_eq, if_pos (Arena.grants_of_free hemit.free _ _)]
  exact ⟨rfl, hemit.defineInside hdefine⟩

theorem defineGlobal (h : e.Tracks a f) (name : String) (v : Value) :
    (e.defineGlobal name v a).1 = .ok () ∧
      e.Tracks (e.defineGlobal name v a).2 (f.defineGlobal name v) := by
  obtain ⟨rs, hstack, hcurrent⟩ := h.stacked_current
  have hdefine := hcurrent.defineGlobal name v
  rw [← hstack] at hdefine
  unfold Environment.defineGlobal
  rw [Arena.define_eq, if_pos (Arena.grants_of_free h.free _ _)]
  exact ⟨rfl, h.defineInside hdefine⟩

theorem get (h : e.Tracks a f) (t : Token) :
    e.Tracks (e.get t a).2 f ∧
      ((∃ v, f.get? t.lexeme = some v ∧ (e.get t a).1 = .ok v) ∨
        (f.get? t.lexeme = none ∧
          (e.get t a).1 = .error (.undefined (.undefinedVariable t)))) := by
  obtain ⟨rs, hstack, hcurrent⟩ := h.stacked_current
  unfold Environment.get
  rw [Arena.get_of_free hcurrent.chain h.free, Arena.lookup, hcurrent.found_eq]
  cases f.get? t.lexeme with
  | some v => exact ⟨h, .inl ⟨v, rfl, rfl⟩⟩
  | none => exact ⟨h.of_scopes_eq rfl, .inr ⟨rfl, rfl⟩⟩

theorem assign (h : e.Tracks a f) (t : Token) (v : Value) :
    (∃ f', f.assign? t.lexeme v = some f' ∧ (e.assign t v a).1 = .ok () ∧
        e.Tracks (e.assign t v a).2 f') ∨
      (f.assign? t.lexeme v = none ∧
        (e.assign t v a).1 = .error (.undefined (.undefinedVariable t)) ∧
        e.Tracks (e.assign t v a).2 f) := by
  have hemit : e.Tracks (a.emit (.assign t.lexeme t.line)) f := h.of_scopes_eq rfl
  obtain ⟨rs, hstack, hcurrent⟩ := hemit.stacked_current
  unfold Environment.assign
  rw [Arena.assign_of_free hcurrent.chain hemit.free, Arena.overwrite]
  split
  · next o ho =>
    obtain ⟨f', hassign, hstacked⟩ := hcurrent.assign v ho
    rw [← hstack] at hstacked
    exact .inl ⟨f', hassign, rfl, hemit.defineInside hstacked⟩
  · next hnone =>
    exact .inr ⟨hcurrent.assign?_eq_none v hnone, rfl, hemit.of_scopes_eq rfl⟩

end Tracks

end Environment

end ScopeChain
