import Mathlib.Logic.Function.Basic
import ScopeChain.Proofs.Reports
import ScopeChain.Proofs.Shifts

/-!
The trace tells how the stacks have gone. What is reported by the moves of one environment can be
replayed, up for a push and down for a pop; this gives the depth of its stack at any time, which is
also the depth that the events themselves carry. A pop that finds nothing but the global scope is
not reported, so as many pops are reported as scopes have been removed.
-/
namespace ScopeChain

namespace Event

def isPop : Event → Bool
  | .popScope _ => true
  | _ => false

/-- The depth after an event, from the one before it. -/
def replay (ev : Event) (d : Nat) : Nat :=
  match ev with
  | .pushScope _ | .pushCallScope _ => d + 1
  | .popScope _ => d - 1
  | .define .. | .assign .. | .lookupUndefined .. | .assignUndefined .. => d

def replayAll (es : List Event) (d : Nat) : Nat := es.foldl (fun d ev => ev.replay d) d

/-- Replayed from the depth `d` on, every event carries the depth that it leads to, if any, and
every pop leaves a scope. -/
def Faithful : Nat → List Event → Prop
  | _, [] => True
  | d, ev :: es =>
    (∀ k, ev.depth? = some k → k = ev.replay d) ∧ (ev.isPop = true → 1 < d) ∧
      Faithful (ev.replay d) es

variable {ev : Event} {es fs : List Event} {d : Nat}

theorem replayAll_append (es fs : List Event) (d : Nat) :
    replayAll (es ++ fs) d = replayAll fs (replayAll es d) :=
  List.foldl_append

theorem faithful_append : Faithful d (es ++ fs) ↔ Faithful d es ∧ Faithful (replayAll es d) fs := by
  induction es generalizing d with
  | nil => simp [Faithful, replayAll]
  | cons ev es ih => simp [Faithful, replayAll, ih, and_assoc]

theorem replay_of_quiet (h : ev.depth? = none) (d : Nat) : ev.replay d = d := by
  cases ev <;> first | rfl | cases h

theorem isPop_of_quiet (h : ev.depth? = none) : ev.isPop = false := by
  cases ev <;> first | rfl | cases h

theorem replayAll_of_quiet (h : ∀ ev ∈ es, ev.depth? = none) (d : Nat) : replayAll es d = d := by
  induction es with
  | nil => rfl
  | cons ev es ih =>
    have hrest := ih fun ev hev => h ev (by simp [hev])
    rw [replayAll, List.foldl_cons, replay_of_quiet (h ev (by simp))]
    exact hrest

theorem faithful_of_quiet (h : ∀ ev ∈ es, ev.depth? = none) (d : Nat) : Faithful d es := by
  induction es with
  | nil => trivial
  | cons ev es ih =>
    have hev := h ev (by simp)
    refine ⟨fun k hk => ?_, fun hpop => ?_, ?_⟩
    · rw [hev] at hk
      cases hk
    · rw [isPop_of_quiet hev] at hpop
      cases hpop
    · rw [replay_of_quiet hev]
      exact ih fun ev hev => h ev (by simp [hev])

end Event

open Event (Faithful replayAll)

/-! ### What is told of one stack -/

/-- From `a` to `b` these events have been reported, which tell of a stack that was `d` deep and now
is `d'` deep. -/
structure Arena.Retells (a : Arena) (d : Nat) (es : List Event) (b : Arena) (d' : Nat) : Prop where
  reports : a.Reports es b
  faithful : Faithful d es
  replayed : replayAll es d = d'
  pops : es.countP Event.isPop = d - d'

namespace Arena

variable {a b c : Arena} {d d' d'' : Nat} {es fs : List Event}

theorem Retells.trans (h : a.Retells d es b d') (h' : b.Retells d' fs c d'')
    (hsum : d - d' + (d' - d'') = d - d'') : a.Retells d (es ++ fs) c d'' where
  reports := h.reports.trans h'.reports
  faithful := Event.faithful_append.mpr ⟨h.faithful, h.replayed ▸ h'.faithful⟩
  replayed := by rw [Event.replayAll_append, h.replayed, h'.replayed]
  pops := by rw [List.countP_append, h.pops, h'.pops, hsum]

theorem Quiet.retells (h : a.Quiet b) (d : Nat) : ∃ es, a.Retells d es b d := by
  obtain ⟨es, hreports, hquiet⟩ := h
  refine ⟨es, hreports, Event.faithful_of_quiet hquiet d, Event.replayAll_of_quiet hquiet d, ?_⟩
  rw [Nat.sub_self, List.countP_eq_zero]
  intro ev hev
  simp [Event.isPop_of_quiet (hquiet ev hev)]

/-- An event that carries the depth it leads to tells of a stack that has gone there. -/
theorem retells_emit (ev : Event) (hdepth : ev.depth? = some (ev.replay d))
    (hpop : ev.isPop = true → 1 < d) (hb : b.trace = a.trace) :
    a.Retells d [ev] (b.emit ev) (ev.replay d) where
  reports := by
    have hemit := reports_emit ev b
    rwa [Reports, hb] at hemit
  faithful := by
    refine ⟨fun k hk => ?_, hpop, trivial⟩
    rw [hdepth, Option.some.injEq] at hk
    exact hk.symm
  replayed := rfl
  pops := by
    cases ev with
    | popScope k =>
      have hmore : 1 < d := hpop rfl
      show 1 = d - (d - 1)
      omega
    | pushScope k =>
      show 0 = d - (d + 1)
      omega
    | pushCallScope k =>
      show 0 = d - (d + 1)
      omega
    | _ => exact (Nat.sub_self d).symm

theorem Retells.quiet (h : a.Retells d es b d') (hquiet : b.Quiet c) :
    ∃ es, a.Retells d es c d' := by
  obtain ⟨fs, hfs⟩ := hquiet.retells d'
  exact ⟨es ++ fs, h.trans hfs (by omega)⟩

end Arena

namespace Environment

variable (e : Environment) (a : Arena)

/-- Where the global scope is all there is, nothing is popped and nothing is told. -/
theorem retells_pop : ∃ es, a.Retells e.depth es (e.pop a).2 (e.pop a).1.depth := by
  by_cases hdepth : 1 < e.depth
  · have htail : e.stack.tail.length = e.depth - 1 := List.length_tail
    have hpop : e.pop a =
        ({ e with stack := e.stack.tail }, a.emit (.popScope e.stack.tail.length)) := by
      simp only [pop, hdepth, if_true]
      rfl
    rw [hpop]
    refine ⟨[.popScope e.stack.tail.length], ?_⟩
    show a.Retells e.depth _ _ e.stack.tail.length
    rw [htail]
    exact Arena.retells_emit (.popScope _) rfl (fun _ => hdepth) rfl
  · simp only [pop, hdepth, if_false]
    exact (Arena.Quiet.refl a).retells e.depth

theorem retells_define (x : String) (v : Value) :
    ∃ es, a.Retells e.depth es (e.define x v a).2 e.depth := by
  have hemit := Arena.retells_emit (a := a) (.define x e.depth) rfl (by simp [Event.isPop]) rfl
  exact hemit.quiet (Arena.silent_define e.current x v _).quiet

end Environment

variable {σ : Session} {n : String} {e : Environment}

/-- The stack of `n`, of which this was the environment, has gone on as the new events tell. -/
def Session.Retells (σ : Session) (n : String) (e : Environment) (τ : Session) : Prop :=
  ∃ es e', τ.environments[n]? = some e' ∧ σ.arena.Retells e.depth es τ.arena e'.depth

/-- A stack that nothing is pushed onto stays as it is. -/
theorem Shift.Relates.eq_of_stay {before after : Option Environment}
    (h : Relates σ (.up 0) before after) : after = before := by
  generalize hsh : Shift.up 0 = sh at h
  cases h with
  | unknown => rfl
  | up rs hnew =>
    obtain rfl : rs = [] := List.length_eq_zero_iff.mp (Shift.up.inj hsh).symm
    rfl
  | down => cases hsh
  | anew hg => cases hsh

namespace Step

/-- What only goes up, or only down, adds up when it is repeated. -/
theorem repeated_retells {change : Environment → Arena → Environment × Arena} {R : Nat → Nat → Prop}
    (hR : R = (· ≤ ·) ∨ R = (· ≥ ·))
    (hchange : ∀ e a, R e.depth (change e a).1.depth ∧
      ∃ es, a.Retells e.depth es (change e a).2 (change e a).1.depth)
    (he : σ.environments[n]? = some e) (times : Nat) :
    let τ := (Session.repeated (restack n change) times σ).2
    ∃ es e', τ.environments[n]? = some e' ∧ R e.depth e'.depth ∧
      σ.arena.Retells e.depth es τ.arena e'.depth := by
  induction times generalizing σ e with
  | zero =>
    obtain ⟨es, hes⟩ := (Arena.Quiet.refl σ.arena).retells e.depth
    refine ⟨es, e, he, ?_, hes⟩
    rcases hR with rfl | rfl <;> exact Nat.le_refl _
  | succ times ih =>
    obtain ⟨hfirst, es, hes⟩ := hchange e σ.arena
    have hknown := (σ.environments_restack n change e n).trans (if_pos rfl)
    obtain ⟨fs, e', he', hrest, hfs⟩ := ih hknown
    rw [repeated_restack_succ he]
    refine ⟨es ++ fs, e', he', ?_, hes.trans hfs ?_⟩ <;>
      rcases hR with rfl | rfl <;> omega

theorem push_retells (he : σ.environments[n]? = some e) (times : Nat) :
    σ.Retells n e ((Step.push n times).perform σ).2 := by
  have hchange : ∀ (e : Environment) a, e.depth ≤ (e.push a).1.depth ∧
      ∃ es, a.Retells e.depth es (e.push a).2 (e.push a).1.depth := by
    intro e a
    have hemit := Arena.retells_emit (a := a) (b := (a.newChild e.current).2)
      (.pushScope (e.depth + 1)) rfl (by simp [Event.isPop]) rfl
    exact ⟨Nat.le_succ _, _, hemit⟩
  obtain ⟨es, e', he', -, hes⟩ := repeated_retells (.inl rfl) hchange he times
  exact ⟨es, e', he', hes⟩

theorem pop_retells (he : σ.environments[n]? = some e) (times : Nat) :
    σ.Retells n e ((Step.pop n times).perform σ).2 := by
  have hchange : ∀ (e : Environment) a, e.depth ≥ (e.pop a).1.depth ∧
      ∃ es, a.Retells e.depth es (e.pop a).2 (e.pop a).1.depth := by
    intro e a
    refine ⟨?_, e.retells_pop a⟩
    rw [e.pop_fst]
    show (e.stack.drop _).length ≤ e.stack.length
    rw [List.length_drop]
    omega
  obtain ⟨es, e', he', -, hes⟩ := repeated_retells (.inr rfl) hchange he times
  exact ⟨es, e', he', hes⟩

theorem pushIn_retells (he : σ.environments[n]? = some e) (parent : String) :
    σ.Retells n e ((Step.pushIn n parent).perform σ).2 := by
  refine Session.onScope_cases (P := fun outcome => σ.Retells n e outcome.2) parent ?_ fun r _ => ?_
  · obtain ⟨es, hes⟩ := (Arena.Quiet.refl σ.arena).retells e.depth
    exact ⟨es, e, he, hes⟩
  · simp only [restack, Session.onEnvironment, he]
    have hknown := (σ.environments_restack n (·.pushIn r) e n).trans (if_pos rfl)
    refine ⟨[.pushCallScope (e.depth + 1)], _, hknown, ?_⟩
    exact Arena.retells_emit (.pushCallScope (e.depth + 1)) rfl (by simp [Event.isPop]) rfl

theorem environment_retells (he : σ.environments[n]? = some e) {s : EnvironmentStep}
    (hs : ∀ m, s ≠ .child m) : σ.Retells n e ((Step.environment n s).perform σ).2 := by
  rw [perform_environment he]
  have henv := (congrArg (·[n]?) (EnvironmentStep.environments_eq hs e σ)).trans he
  have hquiet : (∀ x v, s ≠ .define x v) → σ.Retells n e (s.perform e σ).2 := by
    intro hdefine
    obtain ⟨es, hes⟩ := (EnvironmentStep.quiet hdefine e σ).retells e.depth
    exact ⟨es, e, henv, hes⟩
  cases s with
  | define x v =>
    obtain ⟨es, hes⟩ := e.retells_define σ.arena x v
    refine ⟨es, e, henv, ?_⟩
    rw [EnvironmentStep.perform, Session.arena_access]
    exact hes
  | _ => exact hquiet (by simp)

/-- The environment that a step is done with. -/
def environment? : Step → Option String
  | .environment n _ | .push n _ | .pushIn n _ | .pop n _ => some n
  | _ => none

/-- The name under which a step puts a new environment in place of whatever was there. -/
def renews? (s : Step) (σ : Session) : Option String :=
  match s with
  | .newEnvironment n => some n
  | .environment k (.child n) => if σ.environments[k]?.isSome then some n else none
  | _ => none

theorem retells {s : Step} (hs : s.environment? = some n) (hrenews : s.renews? σ = none)
    (he : σ.environments[n]? = some e) : σ.Retells n e (s.perform σ).2 := by
  cases s with
  | environment k s =>
    obtain rfl : k = n := Option.some.inj hs
    refine environment_retells he fun m hm => ?_
    subst hm
    simp [renews?, he] at hrenews
  | push k times =>
    obtain rfl : k = n := Option.some.inj hs
    exact push_retells he times
  | pushIn k parent =>
    obtain rfl : k = n := Option.some.inj hs
    exact pushIn_retells he parent
  | pop k times =>
    obtain rfl : k = n := Option.some.inj hs
    exact pop_retells he times
  | _ => cases hs

/-- Without the environment, its steps come to nothing. -/
theorem environments_of_unknown {s : Step} (hs : s.environment? = some n)
    (he : σ.environments[n]? = none) : (s.perform σ).2.environments = σ.environments := by
  cases s with
  | environment k s =>
    obtain rfl : k = n := Option.some.inj hs
    simp only [perform, Session.onEnvironment, he]
  | push k times =>
    obtain rfl : k = n := Option.some.inj hs
    rw [perform, repeated_restack_unknown he]
  | pushIn k parent =>
    obtain rfl : k = n := Option.some.inj hs
    refine Session.onScope_cases (P := fun outcome => outcome.2.environments = σ.environments)
      parent rfl fun r _ => ?_
    simp only [restack, Session.onEnvironment, he]
  | pop k times =>
    obtain rfl : k = n := Option.some.inj hs
    rw [perform, repeated_restack_unknown he]
  | _ => cases hs

theorem renewed {s : Step} (hrenews : s.renews? σ = some n) :
    ∃ g, ∀ m, (s.perform σ).2.environments[m]? =
      if n = m then some (.ofGlobal g) else σ.environments[m]? := by
  cases s with
  | newEnvironment k =>
    obtain rfl : k = n := Option.some.inj hrenews
    exact ⟨_, Session.environments_bindEnvironment _ k _⟩
  | environment k s =>
    cases s with
    | child m =>
      cases he : σ.environments[k]? with
      | none => simp [renews?, he] at hrenews
      | some e =>
        obtain rfl : m = n := by simpa [renews?, he] using hrenews
        rw [perform_environment he]
        exact ⟨_, σ.environments_bindEnvironment m e.child⟩
    | _ => cases hrenews
  | _ => cases hrenews

/-- All other environments stay as they are. -/
theorem environments_of_other {s : Step} (hs : s.environment? ≠ some n)
    (hrenews : s.renews? σ = none) :
    (s.perform σ).2.environments[n]? = σ.environments[n]? := by
  have hstays : s.shift n = .up 0 → (s.perform σ).2.environments[n]? = σ.environments[n]? := by
    intro hshift
    rcases s.settles σ n with ⟨-, hrel⟩ | ⟨-, henv⟩
    · rw [hshift] at hrel
      exact hrel.eq_of_stay
    · rw [henv]
  cases s with
  | environment k s =>
    cases s with
    | child m =>
      cases he : σ.environments[k]? with
      | none => rw [environments_of_unknown (n := k) rfl he]
      | some e => simp [renews?, he] at hrenews
    | _ => exact hstays rfl
  | push k times =>
    have hk : k ≠ n := fun heq => hs (congrArg some heq)
    exact hstays (if_neg hk)
  | pushIn k parent =>
    have hk : k ≠ n := fun heq => hs (congrArg some heq)
    exact hstays (if_neg hk)
  | pop k times =>
    have hk : k ≠ n := fun heq => hs (congrArg some heq)
    exact hstays (if_neg hk)
  | newEnvironment k => cases hrenews
  | _ => exact hstays rfl

end Step

/-! ### Chronicles -/

/-- What the moves of an environment have reported, and how many scopes its pops have removed. -/
structure Chronicle where
  events : List Event
  removed : Nat
  deriving DecidableEq

/-- The chronicles of all environments, by name. -/
abbrev Chronicles := String → Chronicle

/-- How deep the stack of an environment is, if there is such an environment. -/
def Session.stackDepth (σ : Session) (n : String) : Nat :=
  σ.environments[n]?.elim 0 Environment.depth

/-- The chronicles after a step that leads from the session `σ` to `τ`. A new environment has a new
chronicle. What has been reported since `σ` goes to the environment that the step is done with, and
so do the scopes that are gone from its stack. -/
def Chronicles.after (h : Chronicles) (σ τ : Session) (s : Step) : Chronicles :=
  match s.renews? σ, s.environment? with
  | some n, _ => Function.update h n ⟨[], 0⟩
  | none, some n =>
    Function.update h n ⟨(h n).events ++ τ.arena.trace.toList.drop σ.arena.trace.size,
      (h n).removed + (σ.stackDepth n - τ.stackDepth n)⟩
  | none, none => h

/-- The chronicles after some moves from `c` on. -/
def Machine.chronicles : Machine → Chronicles → List Move → Chronicles
  | _, h, [] => h
  | c, h, m :: ms =>
    (m.perform c).chronicles (h.after c.session (m.perform c).session (m.plain c)) ms

/-- The events of the chronicle, replayed from the depth 1, tell of a stack that is `d` deep. -/
structure Chronicle.Tells (h : Chronicle) (d : Nat) : Prop where
  faithful : Faithful 1 h.events
  replayed : replayAll h.events 1 = d
  pops : h.events.countP Event.isPop = h.removed

def Chronicles.Tell (h : Chronicles) (σ : Session) : Prop :=
  ∀ (n : String) (e : Environment), σ.environments[n]? = some e → (h n).Tells e.depth

theorem Arena.Reports.drop_eq {a b : Arena} {es : List Event} (h : a.Reports es b) :
    b.trace.toList.drop a.trace.size = es := by
  rw [h, ← Array.length_toList, List.drop_left]

theorem Chronicle.Tells.retell {h : Chronicle} {a b : Arena} {es : List Event} {d d' : Nat}
    (htells : h.Tells d) (hes : a.Retells d es b d') :
    Tells ⟨h.events ++ es, h.removed + (d - d')⟩ d' where
  faithful := Event.faithful_append.mpr ⟨htells.faithful, htells.replayed ▸ hes.faithful⟩
  replayed := by
    show replayAll (h.events ++ es) 1 = d'
    rw [Event.replayAll_append, htells.replayed, hes.replayed]
  pops := by
    show (h.events ++ es).countP Event.isPop = h.removed + (d - d')
    rw [List.countP_append, htells.pops, hes.pops]

namespace Chronicles.Tell

variable {h : Chronicles}

theorem renew (htell : h.Tell σ) {s : Step} (hrenews : s.renews? σ = some n) :
    Tell (Function.update h n ⟨[], 0⟩) (s.perform σ).2 := by
  obtain ⟨g, henv⟩ := Step.renewed hrenews
  intro m e he
  rw [henv] at he
  rcases Session.bound_cases he with ⟨rfl, rfl⟩ | ⟨hm, he⟩
  · rw [Function.update_self]
    exact ⟨trivial, rfl, rfl⟩
  · rw [Function.update_of_ne (Ne.symm hm)]
    exact htell m e he

theorem perform (htell : h.Tell σ) (s : Step) :
    Tell (h.after σ (s.perform σ).2 s) (s.perform σ).2 := by
  unfold after
  split
  · next hrenews => exact htell.renew hrenews
  · next n hrenews hs =>
    intro m e' he'
    by_cases hm : n = m
    · subst hm
      cases he : σ.environments[n]? with
      | none =>
        rw [Step.environments_of_unknown hs he, he] at he'
        cases he'
      | some e =>
        obtain ⟨es, f, hf, hes⟩ := Step.retells hs hrenews he
        obtain rfl : f = e' := Option.some.inj (hf.symm.trans he')
        have hbefore : σ.stackDepth n = e.depth := by
          rw [Session.stackDepth, he, Option.elim_some]
        have hafter : (s.perform σ).2.stackDepth n = f.depth := by
          rw [Session.stackDepth, hf, Option.elim_some]
        rw [Function.update_self, hes.reports.drop_eq, hbefore, hafter]
        exact (htell n e he).retell hes
    · have hother : s.environment? ≠ some m := by
        rw [hs]
        exact fun heq => hm (Option.some.inj heq)
      rw [Function.update_of_ne (Ne.symm hm)]
      rw [Step.environments_of_other hother hrenews] at he'
      exact htell m e' he'
  · next hrenews hs =>
    intro m e' he'
    rw [Step.environments_of_other (by simp [hs]) hrenews] at he'
    exact htell m e' he'

end Chronicles.Tell

namespace Machine

theorem tell_move {c : Machine} {h : Chronicles} (htell : h.Tell c.session) (m : Move) :
    (h.after c.session (m.perform c).session (m.plain c)).Tell (m.perform c).session := by
  rcases m.plain_or_environments_eq c with heq | ⟨hpass, henv⟩
  · rw [heq]
    exact htell.perform (m.plain c)
  · rw [hpass]
    intro n e he
    rw [henv] at he
    exact htell n e he

theorem tell_run {c : Machine} {h : Chronicles} (htell : h.Tell c.session) (ms : List Move) :
    (c.chronicles h ms).Tell (c.run ms).session := by
  induction ms generalizing c h with
  | nil => exact htell
  | cons m ms ih => exact ih (tell_move htell m)

/-- The trace reproduces the stacks. In every state of a run, what the moves of an environment have
reported, replayed from the depth 1, comes to the depth of its stack; each event that carries a
depth carries the one that it leads to, no pop is told of a stack that has only one scope, and as
many pops are told as scopes have been removed. -/
theorem trace_replays_stacks (ms : List Move) {n : String} {e : Environment}
    (he : (start.run ms).session.environments[n]? = some e) :
    let h := start.chronicles (fun _ => ⟨[], 0⟩) ms n
    replayAll h.events 1 = e.depth ∧
      (∀ pre ev post, h.events = pre ++ ev :: post →
        (∀ k, ev.depth? = some k → k = replayAll (pre ++ [ev]) 1) ∧
        (ev.isPop = true → 1 < replayAll pre 1)) ∧
      h.events.countP Event.isPop = h.removed := by
  intro h
  have hstart : Chronicles.Tell (fun _ => ⟨[], 0⟩) start.session := by
    intro n e he
    simp [start, Session.empty] at he
  obtain ⟨hfaithful, hreplayed, hpops⟩ := tell_run hstart ms n e he
  refine ⟨hreplayed, fun pre ev post hsplit => ?_, hpops⟩
  have hfrom : Faithful 1 (pre ++ ev :: post) := hsplit ▸ hfaithful
  obtain ⟨-, hdepth, hpop, -⟩ := Event.faithful_append.mp hfrom
  refine ⟨fun k hk => ?_, hpop⟩
  rw [Event.replayAll_append]
  exact hdepth k hk

/-- A block is left while a scope is on the stack that has been pushed in it, and more is popped
than there is. -/
def overpopped : List Move :=
  [.step (.newEnvironment "e"), .enter (.scoped "e"), .step (.environment "e" (.define "x" .nil)),
    .step (.push "e" 1), .leave, .step (.pop "e" 3)]

theorem trace_replays_stacks_overpopped :
    (start.run overpopped).session.environments["e"]? = some ⟨0, [0]⟩ ∧
      start.chronicles (fun _ => ⟨[], 0⟩) overpopped "e" =
        ⟨[.pushScope 2, .define "x" 2, .pushScope 3, .popScope 2, .popScope 1], 2⟩ ∧
      replayAll (start.chronicles (fun _ => ⟨[], 0⟩) overpopped "e").events 1 = 1 := by
  have he : (start.run overpopped).session.environments["e"]? = some ⟨0, [0]⟩ := by decide +kernel
  have hchronicle : start.chronicles (fun _ => ⟨[], 0⟩) overpopped "e" =
      ⟨[.pushScope 2, .define "x" 2, .pushScope 3, .popScope 2, .popScope 1], 2⟩ := by
    decide +kernel
  exact ⟨he, hchronicle, (trace_replays_stacks overpopped he).1⟩

end Machine

end ScopeChain
