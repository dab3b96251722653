import ScopeChain.Proofs.Bodies
import ScopeChain.Proofs.Failures
import ScopeChain.Proofs.Visibility

/-!
What a block leaves behind. Its definitions go to scopes that it has made itself, since one of these
is the current scope all the time, and an assignment binds no name that was not bound already. So of
the scopes there were before, none binds more names or less when the block is over, and only values
are other ones, where the body has assigned them.
-/
namespace ScopeChain

open Arena (Keeps)

/-- Among the turns is an assignment to `x` that has found the name in the scope `r`. -/
def Session.Assigned (σ : Session) (name : String) (us : List BodyTurn) (x : String) (r : Ref) :
    Prop :=
  ∃ pre t v post e, us = pre ++ .step (.assign t v) (.ok .done) :: post ∧ t.lexeme = x ∧
    (σ.take (pre.map (BodyTurn.on name))).environments[name]? = some e ∧
    (σ.take (pre.map (BodyTurn.on name))).arena.Owner x e.current r

/-- Of some scopes of `a`, none binds other names in `b`, and other values only where they have been
assigned; and nothing is held. -/
structure Arena.Leaks (a b : Arena) (kept : Ref → Prop) (assigned : String → Ref → Prop) :
    Prop where
  free : b.Free
  binds_eq : ∀ r, kept r → ∀ x, (b.scope r).binds x = (a.scope r).binds x
  find?_eq : ∀ r, kept r → ∀ x, (b.scope r).find? x = (a.scope r).find? x ∨ assigned x r

variable {σ τ : Session} {name : String} {e : Environment} {us : List BodyTurn} {u : BodyTurn}

theorem Session.Assigned.cons {x : String} {r : Ref}
    (h : ((u.on name).perform σ).Assigned name us x r) : σ.Assigned name (u :: us) x r := by
  obtain ⟨pre, t, v, post, e, rfl, hx, he, howner⟩ := h
  exact ⟨u :: pre, t, v, post, e, rfl, hx, he, howner⟩

theorem Session.Assigned.append {x : String} {r : Ref} (h : σ.Assigned name us x r)
    (vs : List BodyTurn) : σ.Assigned name (us ++ vs) x r := by
  obtain ⟨pre, t, v, post, e, rfl, h⟩ := h
  exact ⟨pre, t, v, post ++ vs, e, by simp, h⟩

theorem Session.assigned_first {t : Token} {v : Value} {r : Ref}
    (he : σ.environments[name]? = some e) (h : σ.arena.Owner t.lexeme e.current r) :
    σ.Assigned name (.step (.assign t v) (.ok .done) :: us) t.lexeme r :=
  ⟨[], t, v, us, e, rfl, rfl, he, h⟩

theorem Session.Alike.assigned_iff (h : σ.Alike τ) (x : String) (r : Ref) :
    τ.Assigned name us x r ↔ σ.Assigned name us x r := by
  have htake := fun pre : List BodyTurn => h.take (pre.map (BodyTurn.on name))
  simp only [Assigned, (htake _).environments_eq, (htake _).arena_eq]

namespace Arena

variable {a b c : Arena} {kept kept' : Ref → Prop} {assigned assigned' : String → Ref → Prop}

theorem Leaks.trans (h : a.Leaks b kept assigned) (h' : b.Leaks c kept assigned) :
    a.Leaks c kept assigned where
  free := h'.free
  binds_eq r hr x := by rw [h'.binds_eq r hr, h.binds_eq r hr]
  find?_eq r hr x := by
    rcases h'.find?_eq r hr x with heq | hassigned
    · rw [heq]
      exact h.find?_eq r hr x
    · exact .inr hassigned

theorem Leaks.imp (h : a.Leaks b kept assigned) (hkept : ∀ r, kept' r → kept r)
    (hassigned : ∀ x r, assigned x r → assigned' x r) : a.Leaks b kept' assigned' where
  free := h.free
  binds_eq r hr x := h.binds_eq r (hkept r hr) x
  find?_eq r hr x := (h.find?_eq r (hkept r hr) x).imp_right (hassigned x r)

theorem Leaks.of_keeps (hfree : a.Free) (h : Keeps a b) (assigned : String → Ref → Prop) :
    a.Leaks b (· < a.scopes.size) assigned where
  free q := by rw [h.hold_eq, hfree q]
  binds_eq r hr x := by rw [h.scope_eq r hr]
  find?_eq r hr x := .inl (by rw [h.scope_eq r hr])

section Written

variable {o : Ref} {x : String} {v : Value} (hfree : a.Free)
  (hb : b.scopes = (a.defineInside o x v).scopes)
include hfree hb

theorem Leaks.of_write : a.Leaks b (· ≠ o) assigned := by
  have hscope : ∀ r ≠ o, b.scope r = a.scope r := by
    intro r hr
    rw [scope, hb]
    exact (scope_defineInside o x v a r).trans (if_neg fun h => hr h.1)
  refine ⟨fun q => by rw [hb, hold_defineInside, hfree q], fun r hr y => ?_, fun r hr y => .inl ?_⟩
  · rw [hscope r hr]
  · rw [hscope r hr]

/-- A name that is bound before is bound after, and all others are bound to what they were. -/
theorem Leaks.of_overwrite (ho : (a.scope o).binds x = true) (hassigned : assigned x o) :
    a.Leaks b (fun _ => True) assigned := by
  have hscope : ∀ r, b.scope r = if r = o ∧ o < a.scopes.size then (a.scope o).define x v
      else a.scope r := by
    intro r
    rw [← scope_defineInside, scope, hb, scope]
  refine ⟨fun q => by rw [hb, hold_defineInside, hfree q], fun r _ y => ?_, fun r _ y => ?_⟩
  · rw [hscope]
    split
    · next h =>
      rw [Scope.binds_define, h.1]
      by_cases hy : y = x <;> simp [hy, ho]
    · rfl
  · rw [hscope]
    split
    · next h =>
      rw [Scope.find?_define, h.1]
      by_cases hy : y = x
      · exact .inr (hy ▸ hassigned)
      · exact .inl (if_neg hy)
    · exact .inl rfl

end Written

end Arena

namespace Environment

variable {a : Arena} (hfree : a.Free)
include hfree

theorem leaks_define (e : Environment) (x : String) (v : Value) (assigned : String → Ref → Prop) :
    a.Leaks (e.define x v a).2 (· ≠ e.current) assigned := by
  have hdefines : Arena.Defines e.current x v (e.define x v) := .current rfl
  obtain ⟨b, hb, hwritten⟩ := hdefines.written hfree
  rw [hb]
  exact .of_write hfree hwritten

theorem leaks_assign (e : Environment) (t : Token) (v : Value) (hrooted : a.Rooted) :
    a.Leaks (e.assign t v a).2 (· < a.scopes.size) fun x r =>
      x = t.lexeme ∧ (e.assign t v a).1 = .ok () ∧ a.Owner x e.current r := by
  cases hresult : (e.assign t v a).1 with
  | error f =>
    have hscopes := Arena.atomic_assign e.current t v (a.emit _) f hresult
    exact .of_keeps hfree (.of_scopes_eq hscopes) _
  | ok _ =>
    have hassigns : Arena.Assigns e.current t v (e.assign t v) := .current rfl
    obtain ⟨o, ho, hwritten⟩ := hassigns.written hrooted hfree (Prod.ext hresult rfl)
    exact (Arena.Leaks.of_overwrite hfree hwritten ho.2 ⟨rfl, rfl, ho⟩).imp (fun _ _ => trivial)
      fun _ _ h => h

end Environment

/-! ### Turns -/

/-- Unless it defines something globally, a turn of a body binds names in the current scope at
most. -/
theorem BodyTurn.leaks (hσ : σ.Sound) (hrooted : σ.arena.Rooted) (hfree : σ.arena.Free)
    (he : σ.environments[name]? = some e) (hu : (u.on name).Holds σ)
    (hlocal : ∀ x v result, u ≠ .step (.defineGlobal x v) result) :
    σ.arena.Leaks ((u.on name).perform σ).arena (fun r => r < σ.arena.scopes.size ∧ r ≠ e.current)
      (σ.Assigned name [u]) := by
  have hquiet : Keeps σ.arena ((u.on name).perform σ).arena →
      σ.arena.Leaks ((u.on name).perform σ).arena (fun r => r < σ.arena.scopes.size ∧ r ≠ e.current)
        (σ.Assigned name [u]) :=
    fun hkeeps => (Arena.Leaks.of_keeps hfree hkeeps _).imp (fun _ hr => hr.1) fun _ _ h => h
  cases u with
  | refuse b f => exact hquiet ((b.on name).enter_keeps (by cases b <;> rfl) hσ).arena
  | enter b => exact hquiet ((b.on name).enter_keeps (by cases b <;> rfl) hσ).arena
  | leave b => exact hquiet ((b.bracket name).leave_keeps hσ hfree).arena
  | step s result =>
    cases s with
    | define x v =>
      have harena : (((BodyTurn.step (.define x v) result).on name).perform σ).arena =
          (e.define x v σ.arena).2 := by
        simp only [BodyTurn.on, BodyStep.on, Turn.perform, Step.perform_environment he]
        exact Session.arena_access _ _ σ
      rw [harena]
      exact (e.leaks_define hfree x v _).imp (fun _ hr => hr.2) fun _ _ h => h
    | defineGlobal x v => exact absurd rfl (hlocal x v result)
    | assign t v =>
      have harena : (((BodyTurn.step (.assign t v) result).on name).perform σ).arena =
          (e.assign t v σ.arena).2 := by
        simp only [BodyTurn.on, BodyStep.on, Turn.perform, Step.perform_environment he]
        exact Session.arena_access _ _ σ
      rw [harena]
      refine (e.leaks_assign hfree t v hrooted).imp (fun _ hr => hr.1) ?_
      rintro x r ⟨rfl, hok, howner⟩
      have hresult : ((Step.environment name (.assign t v)).perform σ).1 = result := hu
      rw [Step.perform_environment he] at hresult
      obtain rfl := (Session.access_ok hok fun _ => .done).symm.trans hresult
      exact Session.assigned_first he howner
    | _ => exact hquiet (Step.perform_keeps _ rfl hσ).arena

/-- Above a scope that is new itself, the current scope is new. -/
theorem Environment.le_current_topped {n : Nat} {g : Ref} {m : List Ref} (hg : n ≤ g)
    (hm : ∀ r ∈ m, n ≤ r) (e : Environment) : n ≤ ((e.topped [g]).topped m).current := by
  cases m with
  | nil => exact hg
  | cons r rs => exact hm r (by simp)

theorem Session.leaks_take {n h : Nat} {g : Ref} {m : List Ref} (hσ : σ.Sound)
    (hrooted : σ.arena.Rooted) (hfree : σ.arena.Free) (hn : n ≤ σ.arena.scopes.size)
    (he : σ.environments[name]? = some ((e.topped [g]).topped m)) (hg : n ≤ g) (hm : ∀ r ∈ m, n ≤ r)
    (hus : σ.Takes (us.map (BodyTurn.on name)))
    (hlevel : level name (us.map (BodyTurn.on name)) m.length = some h)
    (hlocal : ∀ x v result, .step (.defineGlobal x v) result ∉ us) :
    σ.arena.Leaks (σ.take (us.map (BodyTurn.on name))).arena (· < n) (σ.Assigned name us) := by
  induction us generalizing σ m with
  | nil => exact ⟨hfree, fun _ _ _ => rfl, fun _ _ _ => .inl rfl⟩
  | cons u us ih =>
    obtain ⟨hu, hus⟩ := hus
    obtain ⟨k, happly, hrest⟩ := Option.bind_eq_some_iff.mp hlevel
    have hown : (e.topped [g]).stack ≠ [] := by simp [Environment.topped]
    obtain ⟨m', he', rfl, hm'⟩ := (u.on name).topped_of_apply hu hown he happly
    have hcurrent := Environment.le_current_topped hg hm e
    have hgrows := (u.on name).perform_grows hσ
    -- What is current belongs to the block, so `u` binds nothing in a scope there was before.
    have hfirst := u.leaks hσ hrooted hfree he hu fun x v result hdef =>
      hlocal x v result (by simp [hdef])
    have hnew : ∀ r ∈ m', n ≤ r := by
      intro r hr
      rcases hm' r hr with hr | hr
      · exact hm r hr
      · exact Nat.le_trans hn hr
    have hlater := ih hgrows.sound (hrooted.of_grows hσ.closed hgrows.arena) hfirst.free
      (Nat.le_trans hn hgrows.arena.size_le) he' hnew hus hrest fun x v result hmem =>
        hlocal x v result (List.mem_cons_of_mem _ hmem)
    refine (hfirst.imp (fun r hr => ?_) fun x r h => h.append us).trans
      (hlater.imp (fun _ hr => hr) fun x r h => h.cons)
    exact ⟨Nat.lt_of_lt_of_le hr hn, Nat.ne_of_lt (Nat.lt_of_lt_of_le hr hcurrent)⟩

/-! ### Reads -/

namespace Arena

variable {a b : Arena} {r : Ref} {l : List Ref} {t : Token}

theorem lookup_undefined_iff (l : List Ref) (t : Token) (a : Arena) :
    (lookup l t a).1 = .error (.undefined (.undefinedVariable t)) ↔
      ∀ q ∈ l, (a.scope q).binds t.lexeme = false := by
  rw [← found_eq_none_iff, lookup]
  cases a.found l t.lexeme <;> simp

/-- A name is undefined for a scope as long as no scope on its chain comes to bind it. -/
theorem Leaks.undefined_iff {assigned : String → Ref → Prop}
    (h : a.Leaks b (· < a.scopes.size) assigned) (hgrows : a.Grows b) (hrooted : a.Rooted)
    (hclosed : a.Closed) (hfree : a.Free) (hr : r < a.scopes.size) (t : Token) :
    (b.get r t).1 = .error (.undefined (.undefinedVariable t)) ↔
      (a.get r t).1 = .error (.undefined (.undefinedVariable t)) := by
  obtain ⟨l, hl⟩ := hrooted r
  rw [get_of_free hl hfree, get_of_free (hl.of_grows hclosed hr hgrows) h.free,
    lookup_undefined_iff, lookup_undefined_iff]
  refine forall₂_congr fun q hq => ?_
  rw [h.binds_eq q (hl.lt_size hclosed hr q hq)]

end Arena

/-- What a block on the environment `e`, whose name is `name`, has left behind when control has left
it: the stack as it was, no name bound or unbound in any scope, and other values where they have
been assigned, so that `e` finds the same names as before. -/
structure Session.LeavesAssigned (σ τ : Session) (name : String) (e : Environment)
    (assigned : String → Ref → Prop) : Prop where
  stack_eq : τ.environments[name]? = some e
  leaks : σ.arena.Leaks τ.arena (· < σ.arena.scopes.size) assigned
  undefined_iff : ∀ t : Token,
    (τ.arena.get e.current t).1 = .error (.undefined (.undefinedVariable t)) ↔
      (σ.arena.get e.current t).1 = .error (.undefined (.undefinedVariable t))

theorem Session.LeavesAssigned.alike {υ : Session} {assigned assigned' : String → Ref → Prop}
    (h : σ.LeavesAssigned τ name e assigned) (hυ : τ.Alike υ)
    (hassigned : ∀ x r, assigned x r → assigned' x r) : σ.LeavesAssigned υ name e assigned' where
  stack_eq := hυ.environments_eq ▸ h.stack_eq
  leaks := hυ.arena_eq ▸ h.leaks.imp (fun _ hr => hr) hassigned
  undefined_iff := hυ.arena_eq ▸ h.undefined_iff

/-- What the turns of a body leave behind between the push of its block and the pop. -/
theorem Session.leaves_assigned (hσ : σ.Sound) (hground : σ.Grounded) (hrooted : σ.arena.Rooted)
    (hfree : σ.arena.Free) (he : σ.environments[name]? = some e)
    (hus : ((Block.scoped name).enter σ).2.Takes (us.map (BodyTurn.on name)))
    (hlevel : level name (us.map (BodyTurn.on name)) 0 = some 0)
    (hlocal : ∀ x v result, .step (.defineGlobal x v) result ∉ us) :
    σ.LeavesAssigned ((Bracket.frame name).leave
        (((Block.scoped name).enter σ).2.take (us.map (BodyTurn.on name))))
      name e (((Block.scoped name).enter σ).2.Assigned name us) := by
  have hentered := (Block.scoped name).enter_keeps rfl hσ
  have htop : ((Block.scoped name).enter σ).2.environments[name]? =
      some (e.topped [σ.arena.scopes.size]) := by
    simp only [Block.enter, onEnvironment, he]
    exact (σ.environments_restack name Environment.push e name).trans (if_pos rfl)
  have hopened := Arena.Leaks.of_keeps hfree hentered.arena
    (((Block.scoped name).enter σ).2.Assigned name us)
  have hinside := leaks_take (m := []) hentered.sound
    (hrooted.of_grows hσ.closed hentered.arena.toGrows) hopened.free hentered.arena.size_le htop
    (Nat.le_refl _) (by simp) hus hlevel hlocal
  have htaken := hentered.sound.take (us.map (BodyTurn.on name))
  have hleft := (Bracket.frame name).leave_keeps htaken.sound hinside.free
  have hclosed := Arena.Leaks.of_keeps hinside.free hleft.arena
    (((Block.scoped name).enter σ).2.Assigned name us)
  have hgrown := hentered.arena.toGrows.trans htaken.arena
  have hleaks := (hopened.trans hinside).trans
    (hclosed.imp (fun _ hr => Nat.lt_of_lt_of_le hr hgrown.size_le) fun _ _ h => h)
  have hown : (e.topped [σ.arena.scopes.size]).stack ≠ [] := by simp [Environment.topped]
  obtain ⟨m, hm, hlen, -⟩ := take_topped (m := []) hentered.sound hus hown htop hlevel
  obtain rfl := List.length_eq_zero_iff.mp hlen
  exact ⟨Bracket.leave_topped (hground.stack_ne_nil he) hm, hleaks,
    hleaks.undefined_iff (hgrown.trans hleft.arena.toGrows) hrooted hσ.closed hfree
      (hσ.environment_within name e he).current_lt⟩

namespace Machine

/-- In any state of a run in which nothing is held, a block whose body is balanced and defines
nothing globally leaves nothing behind but assignments, in whatever way it is left. The blocks
inside the body need not be balanced each for itself. -/
theorem blocks_leave_assigned {c : Machine} (hc : c.Reachable) (hfree : c.session.arena.Free)
    {name : String} {e : Environment} (he : c.session.environments[name]? = some e) (label : String)
    (inner strict : Bool) {body : Body} (hlocal : ∀ x v, .defineGlobal x v ∉ body.steps)
    (hbalanced : (body.on name).Balanced inner name
      ((Block.scoped name).opened ⟨label, .environment name⟩ c.session)) :
    ∃ us y, (body.on name).Unrolls inner (us.map (BodyTurn.on name)) y ∧
      ((Block.scoped name).opened ⟨label, .environment name⟩ c.session).Takes
        (us.map (BodyTurn.on name)) ∧
      c.session.LeavesAssigned
        (((Body.block label .frame inner body .done).on name).run strict c.session).2 name e
        (((Block.scoped name).opened ⟨label, .environment name⟩ c.session).Assigned name us) := by
  obtain ⟨us, y, hunrolls, htakes, hlevel, hwritten⟩ := Body.exists_turns (b := .frame) hbalanced
  obtain ⟨x, hblock⟩ := Body.exists_unrolls_block hunrolls label .frame strict
  have hopened := (Block.scoped name).alike_opened ⟨label, .environment name⟩ c.session
  have henter : ∃ entry, ((Block.scoped name).enter c.session).1 = .ok (.frame name, entry) := by
    simp [Block.enter, Session.onEnvironment, Block.enterFrame, he]
  obtain ⟨-, -, hrun⟩ := Body.run_block (hblock name) henter htakes
  have hleaves := Session.leaves_assigned hc.sound hc.grounded hc.rooted hfree he htakes hlevel
    fun x v result hmem => hlocal x v (hwritten _ _ hmem)
  exact ⟨us, y, hunrolls name, (hopened.takes_iff _).mpr htakes,
    hleaves.alike hrun fun x r => (hopened.assigned_iff x r).mpr⟩

/-- A global name and nothing held. -/
def bound : Machine := start.run
  [.step (.newEnvironment "e"), .step (.environment "e" (.define "x" .nil))]

/-- Another name is defined before an abort. -/
def defineAbort : Body := .step "def" (.define "y" .nil) (.abort "panic" .done)

/-- The global name is assigned to, and a block inside is left by an abort. -/
def assignDefineAbort : Body :=
  .step "set" (.assign (.identifier "x" 1) (.bool true))
    (.block "scoped" .frame false defineAbort .done)

def assignDefineAbortTurns : List BodyTurn :=
  [.step (.assign (.identifier "x" 1) (.bool true)) (.ok .done), .enter .frame,
    .step (.define "y" .nil) (.ok .done), .leave .frame]

theorem unrolls_assignDefineAbort :
    (assignDefineAbort.on "e").Unrolls false (assignDefineAbortTurns.map (BodyTurn.on "e"))
      .aborted := by
  have hinside : (defineAbort.on "e").Unrolls false
      [(BodyTurn.step (.define "y" .nil) (.ok .done)).on "e"] .aborted := .step (.rest .abort)
  exact .step (.rest (.block hinside .ended))

theorem balanced_assignDefineAbort :
    (assignDefineAbort.on "e").Balanced false "e"
      ((Block.scoped "e").opened ⟨"scoped", .environment "e"⟩ bound.session) :=
  ⟨_, _, unrolls_assignDefineAbort, ⟨rfl, ⟨_, rfl⟩, rfl, trivial, trivial⟩, rfl⟩

theorem blocks_leave_assigned_bound :
    bound.Reachable ∧ bound.session.arena.Free ∧
      bound.session.environments["e"]? = some ⟨0, [0]⟩ ∧
      ∃ us y, (assignDefineAbort.on "e").Unrolls false (us.map (BodyTurn.on "e")) y ∧
        ((Block.scoped "e").opened ⟨"scoped", .environment "e"⟩ bound.session).Takes
          (us.map (BodyTurn.on "e")) ∧
        bound.session.LeavesAssigned
          (((Body.block "scoped" .frame false assignDefineAbort .done).on "e").run false
            bound.session).2 "e" ⟨0, [0]⟩
          (((Block.scoped "e").opened ⟨"scoped", .environment "e"⟩ bound.session).Assigned
            "e" us) := by
  have hreach : bound.Reachable := ⟨_, rfl⟩
  have hfree : bound.session.arena.Free := Arena.free_of_lt_size (by decide +kernel)
  have he : bound.session.environments["e"]? = some ⟨0, [0]⟩ := rfl
  have hlocal : ∀ x v, .defineGlobal x v ∉ assignDefineAbort.steps := by
    simp [assignDefineAbort, defineAbort, Body.steps]
  exact ⟨hreach, hfree, he,
    blocks_leave_assigned hreach hfree he "scoped" false false hlocal balanced_assignDefineAbort⟩

end Machine

end ScopeChain
