import ScopeChain.Proofs.Bodies
import ScopeChain.Proofs.RelativeDepths

/-!
Lexical scoping. What a call does is decided by the scopes, the handles and the global scope that
there are when it starts: the stack of its caller lies under the scope of the call, where a body
that pops no more than it pushes does not come. The caller shows in nothing but the depths that are
reported, and these differ by as much as the depths of the callers' stacks.
-/
namespace ScopeChain

/-- How a call stands, told without its caller. The scope of the call itself is `own`, the `frames`
are on top of it, and depths are counted from it. -/
structure Callee where
  scopes : Store Scope
  handles : Std.ExtTreeMap String Ref
  global : Ref
  own : Ref
  frames : List Ref
  events : List Event

namespace Callee

def current (v : Callee) : Ref := v.frames.headD v.own

def depth (v : Callee) : Nat := v.frames.length + 1

/-- What the environment `e` of the caller has become. -/
def environment (v : Callee) (e : Environment) : Environment := (e.topped [v.own]).topped v.frames

/-- So it stands in the session `σ` with a call that the environment `e`, whose name is `name`, was
about to make in the session `σ₀`. -/
structure Of (v : Callee) (σ₀ : Session) (name : String) (e : Environment) (σ : Session) :
    Prop where
  scopes_eq : σ.arena.scopes = v.scopes
  handles_eq : σ.scopes = v.handles
  global_eq : e.global = v.global
  trace_eq : σ.arena.trace = σ₀.arena.trace ++ (v.events.map (Event.raise e.depth)).toArray
  environments_eq : ∀ n, σ.environments[n]? =
    if name = n then some (v.environment e) else σ₀.environments[n]?

/-- What is attempted comes out the same for all callers. -/
def Settles {α : Type} (v : Callee) (act : String → Session.Attempt α) : Prop :=
  ∃ (result : Except Fault α) (v' : Callee), ∀ {σ₀ : Session} {name : String} {e : Environment}
    {σ : Session}, v.Of σ₀ name e σ → (act name σ).1 = result ∧ v'.Of σ₀ name e (act name σ).2

variable {α : Type} {v : Callee} {σ₀ σ τ : Session} {name : String} {e : Environment}

theorem Of.known (h : v.Of σ₀ name e σ) : σ.environments[name]? = some (v.environment e) := by
  rw [h.environments_eq, if_pos rfl]

theorem environment_global (v : Callee) (e : Environment) :
    (v.environment e).global = e.global := rfl

theorem environment_current (v : Callee) (e : Environment) :
    (v.environment e).current = v.current := by
  cases hframes : v.frames <;> simp [environment, Environment.topped, Environment.current, current,
    hframes]

theorem environment_depth (v : Callee) (e : Environment) :
    (v.environment e).depth = v.depth + e.depth := by
  simp only [environment, Environment.topped, Environment.depth, depth, List.length_append,
    List.length_singleton]
  omega

/-! ### Steps -/

theorem settles_done (v : Callee) (answer : Answer) : v.Settles fun _ σ => (.ok answer, σ) :=
  ⟨_, v, fun h => ⟨rfl, h⟩⟩

theorem settles_access (act : Environment → Arena.Attempt α) {relative : Nat → Arena.Attempt α}
    (hrelative : Arena.Relative relative)
    (hact : ∀ e, e.global = v.global → act (v.environment e) = relative e.depth)
    (answer : α → Answer) :
    v.Settles fun name => Session.onEnvironment name fun e => Session.access (act e) answer := by
  obtain ⟨result, scopes, events, hresult⟩ := hrelative v.scopes
  have harena : ∀ {σ₀ name e σ}, v.Of σ₀ name e σ → act (v.environment e) σ.arena =
      (result, ⟨scopes, σ.arena.trace ++ (events.map (Event.raise e.depth)).toArray⟩) := by
    intro σ₀ name e σ h
    rw [hact e h.global_eq, ← hresult, ← h.scopes_eq]
  refine ⟨(result.mapError .access).map answer,
    { v with scopes, events := v.events ++ events }, fun {σ₀ name e σ} h => ?_⟩
  have hof : Of { v with scopes, events := v.events ++ events } σ₀ name e
      { σ with
        arena := ⟨scopes, σ.arena.trace ++ (events.map (Event.raise e.depth)).toArray⟩ } := by
    refine ⟨rfl, h.handles_eq, h.global_eq, ?_, h.environments_eq⟩
    simp [h.trace_eq]
  simp only [Session.onEnvironment, h.known, Session.access, Session.accessThen, harena h]
  cases result with
  | ok x => exact ⟨rfl, hof⟩
  | error f => exact ⟨rfl, hof⟩

/-- A scope more, which is enclosed by `parent`. -/
def enter (v : Callee) (parent : Ref) (report : Nat → Event) : Callee :=
  { v with
    scopes := (v.scopes.alloc (.enclosedBy parent)).2
    frames := v.scopes.size :: v.frames
    events := v.events ++ [report (v.depth + 1)] }

/-- A scope less, one that has been pushed since the call began. -/
def leave (v : Callee) : Callee :=
  { v with frames := v.frames.tail, events := v.events ++ [.popScope v.frames.length] }

theorem Of.enter (h : v.Of σ₀ name e σ) {parent : Ref} {report : Nat → Event}
    (hreport : ∀ n d, (report n).raise d = report (n + d))
    {change : Environment → Arena → Environment × Arena}
    (hchange : change (v.environment e) σ.arena = ((v.environment e).topped [σ.arena.scopes.size],
      (σ.arena.newChild parent).2.emit (report ((v.environment e).depth + 1)))) :
    (v.enter parent report).Of σ₀ name e (σ.restack name change (v.environment e)) := by
  have hdepth : (v.environment e).depth + 1 = v.depth + 1 + e.depth := by
    rw [v.environment_depth]
    omega
  rw [h.scopes_eq, hdepth, ← hreport] at hchange
  refine ⟨?_, h.handles_eq, h.global_eq, ?_, fun n => ?_⟩
  · show (change (v.environment e) σ.arena).2.scopes = (v.scopes.alloc (.enclosedBy parent)).2
    rw [hchange, ← h.scopes_eq]
    rfl
  · show (change (v.environment e) σ.arena).2.trace = _
    rw [hchange]
    show σ.arena.trace.push _ = _
    rw [h.trace_eq]
    simp [Callee.enter]
  · rw [σ.environments_restack, hchange, h.environments_eq]
    split <;> rfl

theorem Of.push (h : v.Of σ₀ name e σ) : (v.enter v.current .pushScope).Of σ₀ name e
    (σ.restack name Environment.push (v.environment e)) := by
  refine h.enter (fun _ _ => rfl) ?_
  rw [← v.environment_current e]
  rfl

theorem Of.pushIn (h : v.Of σ₀ name e σ) (r : Ref) : (v.enter r .pushCallScope).Of σ₀ name e
    (σ.restack name (fun e => e.pushIn r) (v.environment e)) :=
  h.enter (fun _ _ => rfl) rfl

theorem Of.pop (h : v.Of σ₀ name e σ) (hframes : v.frames ≠ []) :
    v.leave.Of σ₀ name e (σ.restack name Environment.pop (v.environment e)) := by
  have hown : (e.topped [v.own]).stack ≠ [] := by simp [Environment.topped]
  obtain ⟨r, rs, hrs⟩ := List.exists_cons_of_ne_nil hframes
  have hpop : (v.environment e).pop σ.arena = (v.leave.environment e,
      σ.arena.emit (.popScope (v.leave.environment e).depth)) := by
    simp only [environment, Callee.leave, hrs, List.tail_cons]
    exact Environment.pop_topped hown σ.arena
  have hdepth : (v.leave.environment e).depth = v.frames.length + e.depth := by
    simp [environment_depth, depth, Callee.leave, hrs]
  refine ⟨?_, h.handles_eq, h.global_eq, ?_, fun n => ?_⟩
  · show ((v.environment e).pop σ.arena).2.scopes = v.scopes
    rw [hpop]
    exact h.scopes_eq
  · show ((v.environment e).pop σ.arena).2.trace = _
    rw [hpop, hdepth]
    show σ.arena.trace.push _ = _
    rw [h.trace_eq]
    simp [Callee.leave, Event.raise]
  · rw [σ.environments_restack, hpop, h.environments_eq]
    split <;> rfl

theorem settles_push (v : Callee) (times : Nat) :
    v.Settles fun name => Session.repeated (Step.restack name Environment.push) times := by
  induction times generalizing v with
  | zero => exact v.settles_done .done
  | succ times ih =>
    obtain ⟨result, v', hv'⟩ := ih (v.enter v.current .pushScope)
    refine ⟨result, v', fun h => ?_⟩
    beta_reduce
    rw [Step.repeated_restack_succ h.known]
    exact hv' h.push

theorem settles_pop (v : Callee) {times : Nat} (htimes : times ≤ v.frames.length) :
    v.Settles fun name => Session.repeated (Step.restack name Environment.pop) times := by
  induction times generalizing v with
  | zero => exact v.settles_done .done
  | succ times ih =>
    have hframes : v.frames ≠ [] := by
      rintro hnil
      simp [hnil] at htimes
    have hrest : times ≤ v.leave.frames.length := by
      simp only [leave, List.length_tail]
      omega
    obtain ⟨result, v', hv'⟩ := ih v.leave hrest
    refine ⟨result, v', fun h => ?_⟩
    beta_reduce
    rw [Step.repeated_restack_succ h.known]
    exact hv' (h.pop hframes)

theorem settles_pushIn (v : Callee) (parent : String) :
    v.Settles fun name => (Step.pushIn name parent).perform := by
  cases hr : v.handles[parent]? with
  | none =>
    refine ⟨.error .unknownScope, v, fun h => ?_⟩
    simp only [Step.perform, Session.onScope, h.handles_eq, hr]
    exact ⟨trivial, h⟩
  | some r =>
    refine ⟨.ok .done, v.enter r .pushCallScope, fun h => ?_⟩
    simp only [Step.perform, Session.onScope, h.handles_eq, hr, Step.restack, Session.onEnvironment,
      h.known]
    exact ⟨trivial, h.pushIn r⟩

theorem settles_capture (v : Callee) (x : String) :
    v.Settles fun name => (Step.environment name (.capture x)).perform := by
  refine ⟨.ok .done, { v with handles := v.handles.insert x v.current }, fun {σ₀ name e σ} h => ?_⟩
  beta_reduce
  rw [Step.perform_environment h.known]
  refine ⟨rfl, h.scopes_eq, ?_, h.global_eq, h.trace_eq, h.environments_eq⟩
  rw [← h.handles_eq, ← v.environment_current e]
  rfl

/-- As long as a step pops no more than has been pushed, it makes no difference who calls. -/
theorem settles_step (v : Callee) (s : BodyStep)
    (hpop : ∀ times, s = .pop times → times ≤ v.frames.length) :
    v.Settles fun name => (s.on name).perform := by
  cases s with
  | define x val =>
    refine v.settles_access (fun e => e.define x val)
      ((Arena.relative_define v.current x val).emit (.define x v.depth)) (fun e _ => ?_) _
    funext a
    rw [Environment.define, v.environment_current, v.environment_depth]
    rfl
  | defineGlobal x val =>
    refine v.settles_access (fun e => e.defineGlobal x val)
      (Arena.relative_define v.global x val) (fun e he => ?_) _
    rw [Environment.defineGlobal, v.environment_global, he]
  | get t =>
    refine v.settles_access (fun e => e.get t) (Arena.relative_get v.current t) (fun e _ => ?_) _
    rw [Environment.get, v.environment_current]
  | assign t val =>
    refine v.settles_access (fun e => e.assign t val)
      ((Arena.relative_assign v.current t val).emit (.assign t.lexeme t.line)) (fun e _ => ?_) _
    funext a
    rw [Environment.assign, v.environment_current]
    rfl
  | capture x => exact v.settles_capture x
  | push times => exact v.settles_push times
  | pushIn parent => exact v.settles_pushIn parent
  | pop times => exact v.settles_pop (hpop times rfl)

/-- Whether a block is refused, and how, is the same for all callers. -/
theorem exists_refusal (v : Callee) (b : BodyBlock) :
    ∃ (refusal : Option Fault) (v' : Callee), ∀ {σ₀ : Session} {name : String} {e : Environment}
      {σ : Session}, v.Of σ₀ name e σ →
        (∀ f, ((BodyTurn.refuse b f).on name).Holds σ ↔ refusal = some f) ∧
        (((BodyTurn.enter b).on name).Holds σ ↔ refusal = none) ∧
        v'.Of σ₀ name e ((b.on name).enter σ).2 := by
  cases b with
  | frame =>
    refine ⟨none, v.enter v.current .pushScope, fun h => ?_⟩
    simp only [BodyTurn.on, Turn.Holds, BodyBlock.on, BodyBlock.bracket, Block.enter,
      Session.onEnvironment, h.known]
    exact ⟨fun f => by simp [Block.enterFrame], by simp [Block.enterFrame], h.push⟩
  | frameIn parent =>
    cases hr : v.handles[parent]? with
    | none =>
      refine ⟨some .unknownScope, v, fun {σ₀ name e σ} h => ?_⟩
      have hparent : σ.scopes[parent]? = none := by rw [h.handles_eq, hr]
      simp only [BodyTurn.on, Turn.Holds, BodyBlock.on, BodyBlock.bracket, Block.enter,
        Session.onScope, hparent]
      exact ⟨fun f => by simp, by simp, h⟩
    | some r =>
      refine ⟨none, v.enter r .pushCallScope, fun {σ₀ name e σ} h => ?_⟩
      have hparent : σ.scopes[parent]? = some r := by rw [h.handles_eq, hr]
      simp only [BodyTurn.on, Turn.Holds, BodyBlock.on, BodyBlock.bracket, Block.enter,
        Session.onScope, hparent, Session.onEnvironment, h.known]
      exact ⟨fun f => by simp [Block.enterFrame], by simp [Block.enterFrame], h.pushIn r⟩
  | catching =>
    refine ⟨none, v, fun h => ⟨fun f => ?_, ?_, h⟩⟩
    · simp [BodyTurn.on, Turn.Holds, BodyBlock.on, Block.enter]
    · simp [BodyTurn.on, Turn.Holds, BodyBlock.on, BodyBlock.bracket, Block.enter]

theorem settles_leave (v : Callee) (b : BodyBlock) (hframes : b ≠ .catching → v.frames ≠ []) :
    v.Settles fun name σ => (.ok (), (b.bracket name).leave σ) := by
  have hleave : b ≠ .catching → v.Settles fun name σ => (.ok (), (Bracket.frame name).leave σ) := by
    intro hb
    refine ⟨.ok (), v.leave, fun h => ⟨rfl, ?_⟩⟩
    simp only [Bracket.leave, h.known]
    exact h.pop (hframes hb)
  cases b with
  | frame => exact hleave (by simp)
  | frameIn parent => exact hleave (by simp)
  | catching => exact ⟨.ok (), v, fun h => ⟨rfl, h⟩⟩

/-! ### Turns -/

/-- Whoever calls, the turn is taken and leads from the one to the other. -/
def Carries (v : Callee) (u : BodyTurn) (v' : Callee) : Prop :=
  ∀ {σ₀ : Session} {name : String} {e : Environment} {σ : Session}, v.Of σ₀ name e σ →
    (u.on name).Holds σ ∧ v'.Of σ₀ name e ((u.on name).perform σ)

section Carries

variable {u : BodyTurn} {h : Nat} (hv : v.Of σ₀ name e σ) (hu : (u.on name).Holds σ)
  (hh : ((u.on name).shift name).apply v.frames.length = some h)
include hv hu hh

/-- A turn that is taken in the call of one caller is taken in that of any other, too. -/
theorem Of.exists_carries : ∃ v', v.Carries u v' := by
  cases u with
  | step s result =>
    have hpop : ∀ times, s = .pop times → times ≤ v.frames.length := by
      rintro times rfl
      cases result with
      | ok answer =>
        apply Shift.le_of_apply_down
        simpa [BodyTurn.on, BodyStep.on, Turn.shift, Step.shift] using hh
      -- A pop never fails, so its shift says how many scopes it takes off.
      | error f => cases (Step.repeated_pop hv.known times).1.symm.trans hu
    obtain ⟨_, v', hv'⟩ := v.settles_step s hpop
    obtain rfl := hu.symm.trans (hv' hv).1
    exact ⟨v', hv'⟩
  | refuse b f =>
    obtain ⟨refusal, v', hv'⟩ := v.exists_refusal b
    have hrefusal := ((hv' hv).1 f).mp hu
    exact ⟨v', fun h => ⟨((hv' h).1 f).mpr hrefusal, (hv' h).2.2⟩⟩
  | enter b =>
    obtain ⟨refusal, v', hv'⟩ := v.exists_refusal b
    have hrefusal := (hv' hv).2.1.mp hu
    exact ⟨v', fun h => ⟨(hv' h).2.1.mpr hrefusal, (hv' h).2.2⟩⟩
  | leave b =>
    have hframes : b ≠ .catching → v.frames ≠ [] := by
      intro hb hnil
      have hle : 1 ≤ v.frames.length := by
        apply Shift.le_of_apply_down
        cases b with
        | catching => exact absurd rfl hb
        | _ => simpa [BodyTurn.on, BodyBlock.bracket, Turn.shift, Bracket.shift] using hh
      simp [hnil] at hle
    obtain ⟨_, v', hv'⟩ := v.settles_leave b hframes
    exact ⟨v', fun h => ⟨trivial, (hv' h).2⟩⟩

theorem Of.length_frames {v' : Callee} (hv' : v.Carries u v') : v'.frames.length = h := by
  have hown : (e.topped [v.own]).stack ≠ [] := by simp [Environment.topped]
  obtain ⟨m, hm, rfl, -⟩ := (u.on name).topped_of_apply hu hown hv.known hh
  have henv := Option.some.inj ((hv' hv).2.known.symm.trans hm)
  have hlength := congrArg (fun e => e.stack.length) henv
  simp only [environment, Environment.topped, List.length_append, List.length_singleton] at hlength
  omega

end Carries

/-- What a call does while it stays above its own scope has nothing to do with who calls. -/
theorem Of.turns {us : List BodyTurn} {h : Nat} (hv : v.Of σ₀ name e σ)
    (hus : σ.Takes (us.map (BodyTurn.on name)))
    (hh : level name (us.map (BodyTurn.on name)) v.frames.length = some h) :
    ∃ v' : Callee, v'.frames.length = h ∧ ∀ {ρ₀ : Session} {n : String} {d : Environment}
      {ρ : Session}, v.Of ρ₀ n d ρ → ρ.Takes (us.map (BodyTurn.on n)) ∧
        v'.Of ρ₀ n d (ρ.take (us.map (BodyTurn.on n))) := by
  -- The call of the one caller is followed only to know that the turns stay above its own scope.
  induction us generalizing v σ with
  | nil => exact ⟨v, Option.some.inj hh, fun h => ⟨trivial, h⟩⟩
  | cons u us ih =>
    obtain ⟨hu, hus⟩ := hus
    obtain ⟨k, happly, hrest⟩ := Option.bind_eq_some_iff.mp hh
    obtain ⟨v₁, hv₁⟩ := hv.exists_carries hu happly
    obtain rfl := hv.length_frames hu happly hv₁
    obtain ⟨v₂, hlen, hv₂⟩ := ih (hv₁ hv).2 hus hrest
    refine ⟨v₂, hlen, fun hρ => ?_⟩
    obtain ⟨hholds, hnext⟩ := hv₁ hρ
    obtain ⟨htakes, hlast⟩ := hv₂ hnext
    exact ⟨⟨hholds, htakes⟩, hlast⟩

/-- Once nothing is left above it, the scope of the call goes too, and with it all that the call has
put on the caller's stack. -/
theorem Of.finish (h : v.Of σ name e τ) (hframes : v.frames = []) (hbase : e.stack ≠ [])
    (he : σ.environments[name]? = some e) :
    ((Bracket.frame name).leave τ).arena.scopes = v.scopes ∧
      ((Bracket.frame name).leave τ).scopes = v.handles ∧
      ((Bracket.frame name).leave τ).environments = σ.environments ∧
      ((Bracket.frame name).leave τ).arena.trace = σ.arena.trace ++
        ((v.events ++ [Event.popScope 0]).map (Event.raise e.depth)).toArray := by
  have henv : v.environment e = e.topped [v.own] := by rw [environment, hframes]; rfl
  have hpop : (v.environment e).pop τ.arena = (e, τ.arena.emit (.popScope e.depth)) := by
    rw [henv]
    exact Environment.pop_topped hbase τ.arena
  have hleave : (Bracket.frame name).leave τ =
      { τ with arena := τ.arena.emit (.popScope e.depth) }.bindEnvironment name e := by
    simp only [Bracket.leave, h.known, Session.restack, hpop]
  rw [hleave]
  refine ⟨h.scopes_eq, h.handles_eq, Std.ExtTreeMap.ext_getElem? fun n => ?_, ?_⟩
  · rw [Session.environments_bindEnvironment, h.environments_eq]
    by_cases hn : name = n
    · rw [if_pos hn, ← hn, he]
    · rw [if_neg hn, if_neg hn]
  · show τ.arena.trace.push _ = _
    rw [h.trace_eq]
    simp [Event.raise]

/-- A call whose scope has just been pushed, enclosed by `r`. -/
def called (σ : Session) (r global : Ref) : Callee where
  scopes := (σ.arena.scopes.alloc (.enclosedBy r)).2
  handles := σ.scopes
  global := global
  own := σ.arena.scopes.size
  frames := []
  events := [.pushCallScope 1]

theorem called_of {parent : String} {r : Ref} (hr : σ.scopes[parent]? = some r)
    (he : σ.environments[name]? = some e) :
    (called σ r e.global).Of σ name e ((Block.scopedIn name parent).enter σ).2 := by
  simp only [Block.enter, Session.onScope, Session.onEnvironment, hr, he]
  refine ⟨rfl, rfl, rfl, ?_, σ.environments_restack name (fun e => e.pushIn r) e⟩
  show σ.arena.trace.push (.pushCallScope (e.depth + 1)) = _
  simp [called, Event.raise, Nat.add_comm]

end Callee

/-- What comes of a run, told without the stack below it. -/
structure Outcome where
  turns : List BodyTurn
  exit : Exit
  scopes : Store Scope
  handles : Std.ExtTreeMap String Ref
  events : List Event

/-- So it comes when the body is run on the environment `e`, whose name is `name`. Every stack is in
the end what it was, and every depth that is reported counts the scopes on the stack of `e`. -/
structure Body.Comes (b : Body) (strict : Bool) (σ : Session) (name : String) (e : Environment)
    (o : Outcome) : Prop where
  unrolls : (b.on name).Unrolls strict (o.turns.map (BodyTurn.on name)) o.exit
  takes : σ.Takes (o.turns.map (BodyTurn.on name))
  exit_eq : ((b.on name).run strict σ).1 = o.exit
  scopes_eq : ((b.on name).run strict σ).2.arena.scopes = o.scopes
  handles_eq : ((b.on name).run strict σ).2.scopes = o.handles
  environments_eq : ((b.on name).run strict σ).2.environments = σ.environments
  trace_eq : ((b.on name).run strict σ).2.arena.trace =
    σ.arena.trace ++ (o.events.map (Event.raise e.depth)).toArray

namespace Machine

/-- Scoping is lexical. A call to which two environments over the same global scope are there to be
the caller comes to the same, whichever of them it is: the same turns with the same results, the
same way out, the same scopes and handles; depths are reported that differ by as much as the depths
of the two stacks, and both stacks are as before. The body may leave the blocks inside it
unbalanced, if only it is balanced as a whole. -/
theorem calls_come_alike {c : Machine} (hc : c.Reachable) {m n : String} {d e : Environment}
    (hd : c.session.environments[m]? = some d) (he : c.session.environments[n]? = some e)
    (hglobal : d.global = e.global) {parent : String} {r : Ref}
    (hr : c.session.scopes[parent]? = some r) (label : String) (inner strict : Bool) {body : Body}
    (hbalanced : (body.on m).Balanced inner m
      ((Block.scopedIn m parent).opened ⟨label, .environment m⟩ c.session)) :
    ∃ o, (Body.block label (.frameIn parent) inner body .done).Comes strict c.session m d o ∧
      (Body.block label (.frameIn parent) inner body .done).Comes strict c.session n e o := by
  obtain ⟨us, y, hunrolls, htakes, hlevel, -⟩ := Body.exists_turns (b := .frameIn parent) hbalanced
  obtain ⟨x, hcall⟩ := Body.exists_unrolls_block hunrolls label (.frameIn parent) strict
  obtain ⟨v, hlen, hv⟩ := (Callee.called_of hr hd).turns htakes hlevel
  have hframes : v.frames = [] := List.length_eq_zero_iff.mp hlen
  have hcomes : ∀ {k f}, c.session.environments[k]? = some f → f.global = d.global →
      (Body.block label (.frameIn parent) inner body .done).Comes strict c.session k f
        ⟨.enter (.frameIn parent) :: (us ++ [.leave (.frameIn parent)]), x, v.scopes, v.handles,
          v.events ++ [.popScope 0]⟩ := by
    intro k f hf hfd
    have hcalled : (Callee.called c.session r d.global).Of c.session k f
        ((Block.scopedIn k parent).enter c.session).2 := hfd ▸ Callee.called_of hr hf
    obtain ⟨hinside, hend⟩ := hv hcalled
    have henter :
        ∃ entry, ((Block.scopedIn k parent).enter c.session).1 = .ok (.frame k, entry) := by
      simp [Block.enter, Session.onScope, Session.onEnvironment, Block.enterFrame, hr, hf]
    obtain ⟨hall, hexit, halike⟩ := Body.run_block (hcall k) henter hinside
    obtain ⟨hscopes, hhandles, henvironments, htrace⟩ :=
      hend.finish hframes (hc.grounded.stack_ne_nil hf) hf
    exact ⟨hcall k, hall, hexit, halike.arena_eq ▸ hscopes, halike.scopes_eq ▸ hhandles,
      halike.environments_eq ▸ henvironments, halike.arena_eq ▸ htrace⟩
  exact ⟨_, hcomes hd rfl, hcomes he hglobal.symm⟩

/-- Two environments over one global scope, the second with two scopes more on its stack, and a
handle to the global scope. -/
def sharing : Machine := start.run
  [.step (.newEnvironment "e"), .step (.environment "e" (.define "x" .nil)),
    .step (.environment "e" (.capture "c")), .step (.environment "e" (.child "f")),
    .step (.push "f" 2), .step (.environment "f" (.define "x" (.bool false)))]

/-- A name is assigned to, shadowed in a scope of its own, and read when that scope is gone. -/
def assignShadowGet : Body :=
  .step "set" (.assign (.identifier "x" 1) (.bool true))
    (.step "push" (.push 1)
      (.step "def" (.define "x" .nil)
        (.step "pop" (.pop 1)
          (.step "get" (.get (.identifier "x" 1)) .done))))

/-- It reads what it has assigned, not what the other environment shadows it with. -/
def assignShadowGetTurns : List BodyTurn :=
  [.step (.assign (.identifier "x" 1) (.bool true)) (.ok .done), .step (.push 1) (.ok .done),
    .step (.define "x" .nil) (.ok .done), .step (.pop 1) (.ok .done),
    .step (.get (.identifier "x" 1)) (.ok (.value (.bool true)))]

theorem balanced_assignShadowGet :
    (assignShadowGet.on "e").Balanced true "e"
      ((Block.scopedIn "e" "c").opened ⟨"with_scope_in", .environment "e"⟩ sharing.session) :=
  ⟨assignShadowGetTurns.map (BodyTurn.on "e"), .finished,
    .step (.rest (.step (.rest (.step (.rest (.step (.rest (.step (.rest .done))))))))),
    ⟨rfl, rfl, rfl, rfl, rfl, trivial⟩, rfl⟩

theorem calls_come_alike_sharing :
    sharing.Reachable ∧ sharing.session.environments["e"]? = some ⟨0, [0]⟩ ∧
      sharing.session.environments["f"]? = some ⟨0, [2, 1, 0]⟩ ∧
      sharing.session.scopes["c"]? = some 0 ∧
      ∃ o, (Body.block "with_scope_in" (.frameIn "c") true assignShadowGet .done).Comes false
          sharing.session "e" ⟨0, [0]⟩ o ∧
        (Body.block "with_scope_in" (.frameIn "c") true assignShadowGet .done).Comes false
          sharing.session "f" ⟨0, [2, 1, 0]⟩ o := by
  have hreach : sharing.Reachable := ⟨_, rfl⟩
  have he : sharing.session.environments["e"]? = some ⟨0, [0]⟩ := rfl
  have hf : sharing.session.environments["f"]? = some ⟨0, [2, 1, 0]⟩ := rfl
  have hc : sharing.session.scopes["c"]? = some 0 := rfl
  exact ⟨hreach, he, hf, hc,
    calls_come_alike hreach he hf rfl hc "with_scope_in" true false balanced_assignShadowGet⟩

end Machine

end ScopeChain
