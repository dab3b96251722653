import ScopeChain.Proofs.Shifts

/-!
Failures are atomic. An access that fails, be it refused a hold or out of scopes to look in, has
changed no scope and has given back every hold that it took on its way. So a step that fails leaves
all that there was as it was, and only its events tell that it has been tried.
-/
namespace ScopeChain

namespace Arena

variable {α : Type} {m : Mode} {r : Ref}

/-- The attempt changes scopes and holds only if it succeeds. -/
def Atomic (act : Attempt α) : Prop := ∀ a f, (act a).1 = .error f → (act a).2.scopes = a.scopes

theorem Reads.atomic {act : Attempt α} (h : Reads act) : Atomic act := fun a _ _ => h a

/-- The hold around a failure is given back, which leaves the cells as they were before it. -/
theorem Atomic.holding {act : Attempt α} (h : Atomic act) : Atomic (holding r m act) := by
  intro a f hf
  by_cases hgrant : a.scopes.grants r m = true
  · simp only [Arena.holding, hgrant, if_true] at hf ⊢
    show (act (a.acquire r m)).2.scopes.release r m = a.scopes
    rw [h _ f hf]
    exact a.scopes.release_acquire r m hgrant
  · simp [Arena.holding, hgrant]

theorem atomic_of_ok {act : Attempt α} (h : ∀ a, ∃ v, (act a).1 = .ok v) : Atomic act := by
  intro a f hf
  obtain ⟨v, hv⟩ := h a
  cases hv.symm.trans hf

theorem atomic_assignInside (fuel : Nat) (r : Ref) (t : Token) (v : Value) :
    Atomic (assignInside fuel r t v) := by
  induction fuel generalizing r with
  | zero =>
    intro a f hf
    unfold assignInside at hf ⊢
    cases hbinds : (a.scope r).binds t.lexeme with
    | true => simp [hbinds] at hf
    | false =>
      cases hparent : (a.scope r).parent with
      | none => simp
      | some p => simp
  | succ fuel ih =>
    intro a f hf
    unfold assignInside at hf ⊢
    cases hbinds : (a.scope r).binds t.lexeme with
    | true => simp [hbinds] at hf
    | false =>
      cases hparent : (a.scope r).parent with
      | none => simp
      | some p =>
        simp only [hbinds, hparent, Bool.false_eq_true, if_false] at hf ⊢
        exact (ih p).holding a f hf

theorem atomic_assign (r : Ref) (t : Token) (v : Value) : Atomic (assign r t v) :=
  fun a => (atomic_assignInside a.fuel r t v).holding a

theorem atomic_define (r : Ref) (x : String) (v : Value) : Atomic (define r x v) :=
  (atomic_of_ok fun _ => ⟨(), rfl⟩).holding

theorem atomic_copy (r : Ref) : Atomic (copy r) := by
  intro a f hf
  by_cases hgrant : a.scopes.grants r .shared = true
  · simp [copy, inspect_eq, hgrant] at hf
  · simp [copy, inspect_eq, hgrant]

end Arena

/-- Inside a held scope the hold itself is the caller's, and stays. -/
theorem Direct.atomic {m : Mode} (d : Direct m) (r : Ref) : Arena.Atomic (d.perform r) := by
  intro a f hf
  cases d with
  | get t => exact Arena.reads_getInside a.fuel r t a
  | depth => exact Arena.reads_depthInside a.fuel r a
  | assign t v =>
    cases hresult : (a.assignInside a.fuel r t v).1 with
    | ok u => simp [perform, hresult, Except.map] at hf
    | error g => exact Arena.atomic_assignInside a.fuel r t v a g hresult
  | _ => cases hf

namespace Session

variable {α : Type}

/-- The scopes with all that they bind, their parents and the holds on them, the handles and the
environments are the same in both sessions; only their traces may differ. -/
structure Untouched (σ τ : Session) : Prop where
  cells_eq : τ.arena.scopes = σ.arena.scopes
  handles_eq : τ.scopes = σ.scopes
  environments_eq : τ.environments = σ.environments

/-- The attempt changes more than the trace only if it succeeds. -/
def Atomic (act : Attempt α) : Prop := ∀ σ f, (act σ).1 = .error f → σ.Untouched (act σ).2

theorem Untouched.refl (σ : Session) : σ.Untouched σ := ⟨rfl, rfl, rfl⟩

theorem atomic_of_ok {act : Attempt α} (h : ∀ σ, ∃ v, (act σ).1 = .ok v) : Atomic act := by
  intro σ f hf
  obtain ⟨v, hv⟩ := h σ
  cases hv.symm.trans hf

theorem atomic_accessThen {act : Arena.Attempt α} (hact : Arena.Atomic act)
    (finish : α → Session → Answer × Session) : Atomic (accessThen act finish) := by
  intro σ f hf
  cases hresult : (act σ.arena).1 with
  | ok v => simp [accessThen, hresult] at hf
  | error g =>
    simp only [accessThen, hresult]
    exact ⟨hact σ.arena g hresult, rfl, rfl⟩

theorem atomic_access {act : Arena.Attempt α} (hact : Arena.Atomic act) (answer : α → Answer) :
    Atomic (access act answer) :=
  atomic_accessThen hact _

theorem atomic_inspect (r : Ref) (write : Outline → Option Doc) (layout : Layout) :
    Atomic (inspect r write layout) := by
  intro σ f _
  rw [inspect_snd]
  exact .refl σ

theorem atomic_onScope (name : String) {act : Ref → Attempt α} (hact : ∀ r, Atomic (act r)) :
    Atomic (onScope name act) := by
  intro σ f hf
  unfold onScope at hf ⊢
  split at hf
  · exact hact _ σ f hf
  · exact .refl σ

theorem atomic_onEnvironment (name : String) {act : Environment → Attempt α}
    (hact : ∀ e, Atomic (act e)) : Atomic (onEnvironment name act) := by
  intro σ f hf
  unfold onEnvironment at hf ⊢
  split at hf
  · exact hact _ σ f hf
  · exact .refl σ

end Session

open Session (Atomic)

theorem EnvironmentStep.atomic (s : EnvironmentStep) (e : Environment) : Atomic (s.perform e) := by
  unfold perform
  cases s with
  | child x => exact Session.atomic_of_ok fun _ => ⟨_, rfl⟩
  | define x v =>
    exact Session.atomic_access (fun a => Arena.atomic_define e.current x v (a.emit _)) _
  | defineGlobal x v => exact Session.atomic_access (Arena.atomic_define e.global x v) _
  | get t => exact Session.atomic_access (Arena.reads_get e.current t).atomic _
  | assign t v =>
    exact Session.atomic_access (fun a => Arena.atomic_assign e.current t v (a.emit _)) _
  | bindGlobal x => exact Session.atomic_of_ok fun _ => ⟨_, rfl⟩
  | capture x => exact Session.atomic_of_ok fun _ => ⟨_, rfl⟩
  | inspect layout => exact Session.atomic_inspect _ _ _
  | list names => exact Session.atomic_access (Arena.reads_list e.current names).atomic _

theorem ScopeStep.atomic (s : ScopeStep) (r : Ref) : Atomic (s.perform r) := by
  unfold perform
  cases s with
  | child x times => exact Session.atomic_accessThen (Arena.atomic_of_ok fun _ => ⟨_, rfl⟩) _
  | share x => exact Session.atomic_of_ok fun _ => ⟨_, rfl⟩
  | copy x => exact Session.atomic_accessThen (Arena.atomic_copy r) _
  | define x v => exact Session.atomic_access (Arena.atomic_define r x v) _
  | get t => exact Session.atomic_access (Arena.reads_get r t).atomic _
  | assign t v => exact Session.atomic_access (Arena.atomic_assign r t v) _
  | binds x => exact Session.atomic_access (Arena.reads_inspect r _).atomic _
  | depth => exact Session.atomic_access (Arena.reads_depth r).atomic _
  | size => exact Session.atomic_access (Arena.reads_inspect r _).atomic _
  | parent x => exact Session.atomic_accessThen (Arena.reads_inspect r _).atomic _
  | inspect layout => exact Session.atomic_inspect _ _ _
  | inspectInner layout => exact Session.atomic_inspect _ _ _
  | list names => exact Session.atomic_access (Arena.reads_list r names).atomic _

namespace Step

theorem atomic_restack (name : String) (change : Environment → Arena → Environment × Arena) :
    Atomic (restack name change) :=
  Session.atomic_onEnvironment name fun _ => Session.atomic_of_ok fun _ => ⟨_, rfl⟩

/-- A change that is repeated does not fail halfway, for the environment stays known. -/
theorem atomic_repeated {name : String} {change : Environment → Arena → Environment × Arena}
    {times : Nat} (hknown : ∀ (σ : Session) e, σ.environments[name]? = some e →
      (Session.repeated (restack name change) times σ).1 = .ok .done) :
    Atomic (Session.repeated (restack name change) times) := by
  intro σ f hf
  cases he : σ.environments[name]? with
  | none =>
    rw [repeated_restack_unknown he]
    exact .refl σ
  | some e => cases (hknown σ e he).symm.trans hf

theorem atomic (s : Step) : Atomic s.perform := by
  cases s with
  | environment name s => exact Session.atomic_onEnvironment name fun e => s.atomic e
  | scope name s => exact Session.atomic_onScope name fun r => s.atomic r
  | push name times =>
    refine atomic_repeated fun σ e he => ?_
    obtain ⟨_, -, -, hok, -⟩ := repeated_push he times
    exact hok
  | pushIn name parent =>
    exact Session.atomic_onScope parent fun r => atomic_restack name fun e => e.pushIn r
  | pop name times => exact atomic_repeated fun σ e he => (repeated_pop he times).1
  | newEnvironment name => exact Session.atomic_of_ok fun _ => ⟨_, rfl⟩
  | newScope name => exact Session.atomic_of_ok fun _ => ⟨_, rfl⟩
  | forget name => exact Session.atomic_of_ok fun _ => ⟨_, rfl⟩
  | same left right =>
    exact Session.atomic_onScope left fun r => Session.atomic_onScope right fun t =>
      Session.atomic_of_ok fun _ => ⟨_, rfl⟩
  | pass => exact Session.atomic_of_ok fun _ => ⟨_, rfl⟩

end Step

namespace Machine

/-- Whatever fails has done nothing: neither a step, be it refused a hold at any depth of a chain or
out of scopes to look in, nor a block that is not entered, nor an access inside a scope that the
caller holds, whose hold stays as it is. -/
theorem failures_leave_untouched :
    (∀ (s : Step) (σ : Session) f, (s.perform σ).1 = .error f → σ.Untouched (s.perform σ).2) ∧
    (∀ (b : Block) (σ : Session) f, (b.enter σ).1 = .error f → (b.enter σ).2 = σ) ∧
    ∀ {m : Mode} (d : Direct m) (r : Ref) (a : Arena) f,
      (d.perform r a).1 = .error f → (d.perform r a).2.scopes = a.scopes :=
  ⟨fun s => s.atomic, fun _ _ _ => Block.enter_of_error, fun d r => d.atomic r⟩

/-- A block inside the global scope, which is being read. -/
def readOutside : Machine := start.run
  [.step (.newEnvironment "e"), .step (.push "e" 1), .step (.environment "e" (.bindGlobal "g")),
    .enter (.holding "g" .shared [])]

/-- The walk of an assignment has taken the scope of the block when it is refused the global one;
inside the scope of the block, it is the same with the hold of the caller. -/
theorem failures_leave_untouched_readOutside :
    ((Step.environment "e" (.assign (.identifier "x" 1) .nil)).perform readOutside.session).1 =
        .error (.access (.refused .exclusive)) ∧
      readOutside.session.Untouched
        ((Step.environment "e" (.assign (.identifier "x" 1) .nil)).perform readOutside.session).2 ∧
      ((Block.holding "g" .exclusive []).enter readOutside.session).2 = readOutside.session ∧
      ((Direct.assign (.identifier "x" 1) .nil).perform 1
        (readOutside.session.arena.acquire 1 .exclusive)).2.scopes =
          (readOutside.session.arena.acquire 1 .exclusive).scopes := by
  obtain ⟨hsteps, hblocks, hinside⟩ := failures_leave_untouched
  have hrefused : ((Step.environment "e" (.assign (.identifier "x" 1) .nil)).perform
      readOutside.session).1 = .error (.access (.refused .exclusive)) := by decide +kernel
  have hblock : ((Block.holding "g" .exclusive []).enter readOutside.session).1 =
      .error (.access (.refused .exclusive)) := by rfl
  have hdirect : ((Direct.assign (.identifier "x" 1) .nil).perform 1
      (readOutside.session.arena.acquire 1 .exclusive)).1 = .error (.refused .exclusive) := by
    decide +kernel
  exact ⟨hrefused, hsteps _ _ _ hrefused, hblocks _ _ _ hblock, hinside _ _ _ _ hdirect⟩

end Machine

end ScopeChain
