import ScopeChain.Proofs.Flattening

/-!
What a turn does to the stack of an environment: it pushes scopes, pops as many, or puts another
environment in its place. Told apart by this alone, a turn says which scopes are on the stack after
it; what else it does, to scopes and handles, does not come into it.
-/
namespace ScopeChain

/-- What a turn does to the stack of an environment. -/
inductive Shift where
  | up (n : Nat)
  | down (n : Nat)
  /-- Another environment comes in its place. -/
  | anew

def Step.shift (name : String) : Step → Shift
  | .push n times => if n = name then .up times else .up 0
  | .pushIn n _ => if n = name then .up 1 else .up 0
  | .pop n times => if n = name then .down times else .up 0
  | .newEnvironment n | .environment _ (.child n) => if n = name then .anew else .up 0
  | _ => .up 0

def Block.shift (name : String) (b : Block) : Shift :=
  match b.frame? with
  | some n => if n = name then .up 1 else .up 0
  | none => .up 0

def Bracket.shift (name : String) : Bracket → Shift
  | .frame n => if n = name then .down 1 else .up 0
  | .hold .. | .nothing => .up 0

/-- A step that fails and a block that is refused leave every stack as it is. -/
def Turn.shift (name : String) : Turn → Shift
  | .step s (.ok _) => s.shift name
  | .step _ (.error _) | .refuse .. => .up 0
  | .enter b _ => b.shift name
  | .leave bracket => bracket.shift name

/-- What a shift makes of an environment that has a name. Scopes that are pushed are new, and an
environment that takes the place of another has a new global scope or that of a known one. -/
inductive Shift.Relates (σ : Session) : Shift → Option Environment → Option Environment → Prop
  | unknown {sh : Shift} : Relates σ sh none none
  | up {e : Environment} (rs : List Ref) (hnew : ∀ r ∈ rs, σ.arena.scopes.size ≤ r) :
      Relates σ (.up rs.length) (some e) (some (e.topped rs))
  | down {e : Environment} {n : Nat} :
      Relates σ (.down n) (some e)
        (some { e with stack := e.stack.drop (min n (e.stack.length - 1)) })
  | anew {before : Option Environment} {g : Ref}
      (hg : σ.arena.scopes.size ≤ g ∨
        ∃ (n : String) (e : Environment), σ.environments[n]? = some e ∧ e.global = g) :
      Relates σ .anew before (some (.ofGlobal g))

variable {σ τ : Session} {name n : String} {e : Environment}

theorem Shift.Relates.stay (σ : Session) (before : Option Environment) :
    Relates σ (.up 0) before before := by
  cases before with
  | none => exact .unknown
  | some e => exact .up (e := e) [] (by simp)

theorem Shift.Relates.of_eq {before after : Option Environment} (h : after = before) :
    Relates σ (.up 0) before after := by
  subst h
  exact stay σ after

/-! ### What a turn does to a stack -/

namespace Session

theorem environments_bindEnvironment (σ : Session) (n : String) (e : Environment) (name : String) :
    (σ.bindEnvironment n e).environments[name]? =
      if n = name then some e else σ.environments[name]? := by
  simp only [bindEnvironment, Std.ExtTreeMap.getElem?_insert, Std.LawfulEqCmp.compare_eq_iff_eq]

/-- Under each name there is what has been given the name, or else what was there. -/
theorem bound_cases {α : Type} {n m : String} {x y : α} {was : Option α}
    (h : (if n = m then some x else was) = some y) :
    (n = m ∧ y = x) ∨ (n ≠ m ∧ was = some y) := by
  split at h
  · next hm => exact .inl ⟨hm, (Option.some.inj h).symm⟩
  · next hm => exact .inr ⟨hm, h⟩

theorem scopes_bindScope (σ : Session) (x : String) (r : Ref) (y : String) :
    (σ.bindScope x r).scopes[y]? = if x = y then some r else σ.scopes[y]? := by
  simp only [bindScope, Std.ExtTreeMap.getElem?_insert, Std.LawfulEqCmp.compare_eq_iff_eq]

theorem restack_eq (σ : Session) (n : String) (change : Environment → Arena → Environment × Arena)
    (e : Environment) : σ.restack n change e =
      { σ with arena := (change e σ.arena).2 }.bindEnvironment n (change e σ.arena).1 := rfl

theorem environments_restack (σ : Session) (n : String)
    (change : Environment → Arena → Environment × Arena) (e : Environment) (name : String) :
    (σ.restack n change e).environments[name]? =
      if n = name then some (change e σ.arena).1 else σ.environments[name]? :=
  environments_bindEnvironment _ n _ name

theorem environments_accessThen {α : Type} {act : Arena.Attempt α}
    {finish : α → Session → Answer × Session}
    (hfinish : ∀ v σ, (finish v σ).2.environments = σ.environments) (σ : Session) :
    (accessThen act finish σ).2.environments = σ.environments := by
  unfold accessThen
  cases hact : (act σ.arena).1 with
  | ok v => simp only [hact, hfinish]
  | error f => simp only [hact]

theorem environments_access {α : Type} (act : Arena.Attempt α) (answer : α → Answer)
    (σ : Session) : (access act answer σ).2.environments = σ.environments :=
  environments_accessThen (fun _ _ => rfl) σ

theorem environments_inspect (r : Ref) (write : Outline → Option Doc) (layout : Layout)
    (σ : Session) : (inspect r write layout σ).2.environments = σ.environments := by
  rw [inspect_snd]

end Session

namespace Environment

theorem push_fst (e : Environment) (a : Arena) : (e.push a).1 = e.topped [a.scopes.size] := rfl

theorem pop_fst (e : Environment) (a : Arena) :
    (e.pop a).1 = { e with stack := e.stack.drop (min 1 (e.stack.length - 1)) } := by
  by_cases hdepth : 1 < e.stack.length
  · have hone : min 1 (e.stack.length - 1) = 1 := by omega
    simp only [pop, depth, hdepth, if_true, hone, List.drop_one]
  · have hzero : min 1 (e.stack.length - 1) = 0 := by omega
    simp only [pop, depth, hdepth, if_false, hzero, List.drop_zero]

theorem scopes_pop (e : Environment) (a : Arena) : (e.pop a).2.scopes = a.scopes := by
  unfold pop
  split <;> rfl

end Environment

namespace Step

theorem repeated_restack_unknown (he : σ.environments[n]? = none)
    (change : Environment → Arena → Environment × Arena) (times : Nat) :
    (Session.repeated (restack n change) times σ).2 = σ := by
  cases times with
  | zero => rfl
  | succ times => simp only [Session.repeated, restack, Session.onEnvironment, he]

theorem repeated_push (he : σ.environments[n]? = some e) (times : Nat) :
    ∃ rs, rs.length = times ∧ (∀ r ∈ rs, σ.arena.scopes.size ≤ r) ∧
      (Session.repeated (restack n Environment.push) times σ).1 = .ok .done ∧
      ∀ name, (Session.repeated (restack n Environment.push) times σ).2.environments[name]? =
        if n = name then some (e.topped rs) else σ.environments[name]? := by
  induction times generalizing σ e with
  | zero =>
    refine ⟨[], rfl, by simp, rfl, fun name => ?_⟩
    by_cases hname : n = name
    · subst hname
      simpa [Session.repeated, Environment.topped] using he
    · simp [Session.repeated, hname]
  | succ times ih =>
    have hnext := σ.environments_restack n Environment.push e
    obtain ⟨rs, hlen, hnew, hresult, henv⟩ := ih ((hnext n).trans (if_pos rfl))
    have hsize : (σ.restack n Environment.push e).arena.scopes.size = σ.arena.scopes.size + 1 :=
      Store.size_alloc _ _
    refine ⟨rs ++ [σ.arena.scopes.size], by simp [hlen], ?_, ?_, fun name => ?_⟩
    · intro r hr
      rcases List.mem_append.mp hr with hr | hr
      · have hle := hnew r hr
        omega
      · exact Nat.le_of_eq (List.mem_singleton.mp hr).symm
    · rw [repeated_restack_succ he, hresult]
    · rw [repeated_restack_succ he, henv name, hnext name]
      by_cases hname : n = name
      · simp [hname, Environment.push_fst, Environment.topped]
      · simp [hname]

theorem repeated_pop (he : σ.environments[n]? = some e) (times : Nat) :
    (Session.repeated (restack n Environment.pop) times σ).1 = .ok .done ∧
      ∀ name, (Session.repeated (restack n Environment.pop) times σ).2.environments[name]? =
        if n = name then some { e with stack := e.stack.drop (min times (e.stack.length - 1)) }
        else σ.environments[name]? := by
  induction times generalizing σ e with
  | zero =>
    refine ⟨rfl, fun name => ?_⟩
    by_cases hname : n = name
    · subst hname
      simpa [Session.repeated] using he
    · simp [Session.repeated, hname]
  | succ times ih =>
    have hnext := σ.environments_restack n Environment.pop e
    obtain ⟨hresult, henv⟩ := ih ((hnext n).trans (if_pos rfl))
    rw [repeated_restack_succ he]
    refine ⟨hresult, fun name => ?_⟩
    rw [henv name, hnext name]
    by_cases hname : n = name
    · have hsum : min 1 (e.stack.length - 1) +
          min times (e.stack.length - min 1 (e.stack.length - 1) - 1) =
            min (times + 1) (e.stack.length - 1) := by omega
      simp only [hname, if_true, Environment.pop_fst, List.length_drop, List.drop_drop, hsum]
    · simp only [hname, if_false]

end Step

open Shift (Relates)

theorem EnvironmentStep.environments_eq {s : EnvironmentStep} (hs : ∀ n, s ≠ .child n)
    (e : Environment) (σ : Session) : (s.perform e σ).2.environments = σ.environments := by
  unfold perform
  cases s with
  | child n => exact absurd rfl (hs n)
  | bindGlobal n => rfl
  | capture n => rfl
  | inspect layout => exact Session.environments_inspect _ _ _ _
  | _ => exact Session.environments_access _ _ _

theorem ScopeStep.environments_eq (s : ScopeStep) (r : Ref) (σ : Session) :
    (s.perform r σ).2.environments = σ.environments := by
  unfold perform
  cases s with
  | child n times => exact Session.environments_accessThen (fun _ _ => rfl) σ
  | share n => rfl
  | copy n => exact Session.environments_accessThen (fun _ _ => rfl) σ
  | parent n =>
    refine Session.environments_accessThen (fun parent σ => ?_) σ
    cases parent <;> cases n <;> rfl
  | inspect layout => exact Session.environments_inspect _ _ _ _
  | inspectInner layout => exact Session.environments_inspect _ _ _ _
  | _ => exact Session.environments_access _ _ _

/-- What only has to do with the environment `n` leaves the stacks of all others as they are. -/
theorem Shift.Relates.on {sh : Shift} {after : Option Environment}
    (h : Relates σ sh σ.environments[n]? after)
    (hτ : ∀ m, τ.environments[m]? = if n = m then after else σ.environments[m]?) (name : String) :
    Relates σ (if n = name then sh else .up 0) σ.environments[name]? τ.environments[name]? := by
  rw [hτ name]
  by_cases hname : n = name
  · subst hname
    rwa [if_pos rfl, if_pos rfl]
  · rw [if_neg hname, if_neg hname]
    exact .stay σ _

theorem Shift.Relates.on_unknown (he : σ.environments[n]? = none) (sh : Shift) (name : String) :
    Relates σ (if n = name then sh else .up 0) σ.environments[name]? σ.environments[name]? := by
  have hunknown : Relates σ sh σ.environments[n]? none := by
    rw [he]
    exact .unknown
  refine hunknown.on (fun m => ?_) name
  by_cases hm : n = m
  · rw [if_pos hm, ← hm, he]
  · rw [if_neg hm]

theorem Shift.Relates.push (change : Environment → Arena → Environment × Arena)
    (he : σ.environments[n]? = some e)
    (hchange : (change e σ.arena).1 = e.topped [σ.arena.scopes.size]) (name : String) :
    Relates σ (if n = name then .up 1 else .up 0) σ.environments[name]?
      (σ.restack n change e).environments[name]? := by
  have hup : Relates σ (.up 1) σ.environments[n]? (some (change e σ.arena).1) := by
    rw [he, hchange]
    exact .up [σ.arena.scopes.size] (by simp)
  exact hup.on (σ.environments_restack n change e) name

/-- A step that succeeds does what its shift says, and one that fails has come to no stack. -/
inductive Step.Settles (s : Step) (σ : Session) (name : String) : Prop
  | ok {answer : Answer} (h : (s.perform σ).1 = .ok answer)
      (hrel : Relates σ (s.shift name) σ.environments[name]? (s.perform σ).2.environments[name]?)
  | error {f : Fault} (h : (s.perform σ).1 = .error f)
      (henv : (s.perform σ).2.environments = σ.environments)

namespace Step

/-- Where no stack is changed, it does not matter whether the step succeeds. -/
theorem Settles.of_eq {s : Step} (henv : (s.perform σ).2.environments = σ.environments)
    (hrel : Relates σ (s.shift name) σ.environments[name]? σ.environments[name]?) :
    s.Settles σ name := by
  cases h : (s.perform σ).1 with
  | ok answer => exact .ok h (henv ▸ hrel)
  | error f => exact .error h henv

theorem environment_settles (n : String) (s : EnvironmentStep) (name : String) :
    (Step.environment n s).Settles σ name := by
  cases he : σ.environments[n]? with
  | none =>
    have hfault : (Step.environment n s).perform σ = (.error .unknownEnvironment, σ) := by
      simp only [perform, Session.onEnvironment, he]
    exact .error (by rw [hfault]) (by rw [hfault])
  | some e =>
    cases s with
    | child m =>
      have hanew : Relates σ .anew σ.environments[m]? (some e.child) :=
        .anew (.inr ⟨n, e, he, rfl⟩)
      refine .ok (by rw [perform_environment he]; rfl) ?_
      rw [perform_environment he]
      exact hanew.on (σ.environments_bindEnvironment m e.child) name
    | _ =>
      refine .of_eq ?_ (.stay σ _)
      rw [perform_environment he, EnvironmentStep.environments_eq (by simp)]

theorem push_settles (n : String) (times : Nat) (name : String) :
    (Step.push n times).Settles σ name := by
  cases he : σ.environments[n]? with
  | none =>
    exact .of_eq (by rw [perform, repeated_restack_unknown he]) (.on_unknown he (.up times) name)
  | some e =>
    obtain ⟨rs, rfl, hnew, hok, henv⟩ := repeated_push he times
    have hup : Relates σ (.up rs.length) σ.environments[n]? (some (e.topped rs)) :=
      he ▸ .up rs hnew
    exact .ok hok (hup.on henv name)

theorem pop_settles (n : String) (times : Nat) (name : String) :
    (Step.pop n times).Settles σ name := by
  cases he : σ.environments[n]? with
  | none =>
    exact .of_eq (by rw [perform, repeated_restack_unknown he]) (.on_unknown he (.down times) name)
  | some e =>
    obtain ⟨hok, henv⟩ := repeated_pop he times
    have hdown : Relates σ (.down times) σ.environments[n]? _ := he ▸ Relates.down (e := e)
    exact .ok hok (hdown.on henv name)

theorem pushIn_settles (n parent name : String) : (Step.pushIn n parent).Settles σ name := by
  cases hr : σ.scopes[parent]? with
  | none =>
    have hfault : (Step.pushIn n parent).perform σ = (.error .unknownScope, σ) := by
      simp only [perform, Session.onScope, hr]
    exact .error (by rw [hfault]) (by rw [hfault])
  | some r =>
    cases he : σ.environments[n]? with
    | none =>
      have hfault : (Step.pushIn n parent).perform σ = (.error .unknownEnvironment, σ) := by
        simp only [perform, Session.onScope, restack, Session.onEnvironment, hr, he]
      exact .error (by rw [hfault]) (by rw [hfault])
    | some e =>
      have hpush : (Step.pushIn n parent).perform σ =
          (.ok .done, σ.restack n (fun e => e.pushIn r) e) := by
        simp only [perform, Session.onScope, restack, Session.onEnvironment, hr, he]
      refine .ok (by rw [hpush]) ?_
      rw [hpush]
      exact .push (fun e => e.pushIn r) he rfl name

theorem settles (s : Step) (σ : Session) (name : String) : s.Settles σ name := by
  cases s with
  | environment n s => exact environment_settles n s name
  | scope n s =>
    refine .of_eq ?_ (.stay σ _)
    simp only [perform, Session.onScope]
    split
    · exact s.environments_eq _ σ
    · rfl
  | push n times => exact push_settles n times name
  | pushIn n parent => exact pushIn_settles n parent name
  | pop n times => exact pop_settles n times name
  | newEnvironment n =>
    have hanew : Relates σ .anew σ.environments[n]? (some (.ofGlobal σ.arena.scopes.size)) :=
      .anew (.inl (Nat.le_refl _))
    exact .ok rfl (hanew.on (Session.environments_bindEnvironment _ n _) name)
  | newScope n => exact .of_eq rfl (.stay σ _)
  | forget n => exact .of_eq rfl (.stay σ _)
  | same left right =>
    refine .of_eq ?_ (.stay σ _)
    simp only [perform, Session.onScope]
    split
    · split <;> rfl
    · rfl
  | pass => exact .of_eq rfl (.stay σ _)

end Step

/-- A refused block has opened nothing. -/
theorem Block.enter_of_error {b : Block} {f : Fault} (h : (b.enter σ).1 = .error f) :
    (b.enter σ).2 = σ := by
  have henters := b.enters σ
  generalize b.enter σ = outcome at h henters
  cases henters with
  | refused => rfl
  | frame change hframe he hchange => cases h
  | hold => cases h
  | nothing => cases h

theorem Block.relates_of_ok {b : Block} {bracket : Bracket} {entry : Option Report}
    (h : (b.enter σ).1 = .ok (bracket, entry)) (name : String) :
    Relates σ (b.shift name) σ.environments[name]? (b.enter σ).2.environments[name]? := by
  have henters := b.enters σ
  generalize b.enter σ = outcome at h henters
  cases henters with
  | refused => cases h
  | frame change hframe he hchange =>
    rw [shift, hframe]
    exact .push change he hchange name
  | hold => exact .of_eq rfl
  | nothing => exact .of_eq rfl

theorem Bracket.relates (b : Bracket) (σ : Session) (name : String) :
    Relates σ (b.shift name) σ.environments[name]? (b.leave σ).environments[name]? := by
  cases b with
  | frame n =>
    cases he : σ.environments[n]? with
    | none =>
      simp only [leave, he]
      exact .on_unknown he (.down 1) name
    | some e =>
      have hdown : Relates σ (.down 1) σ.environments[n]? (some (e.pop σ.arena).1) := by
        rw [he, e.pop_fst]
        exact .down
      simp only [leave, he]
      exact hdown.on (σ.environments_restack n Environment.pop e) name
  | hold r m => exact .of_eq rfl
  | nothing => exact .of_eq rfl

/-- What a turn does to the stack of an environment is its shift. -/
theorem Turn.relates {t : Turn} (h : t.Holds σ) (name : String) :
    Relates σ (t.shift name) σ.environments[name]? (t.perform σ).environments[name]? := by
  cases t with
  | step s result =>
    have hs : (s.perform σ).1 = result := h
    rcases s.settles σ name with ⟨hok, hrel⟩ | ⟨herror, henv⟩
    · obtain rfl := hok.symm.trans hs
      exact hrel
    · obtain rfl := herror.symm.trans hs
      exact .of_eq (by rw [perform, henv])
  | refuse b f => exact .of_eq (by rw [perform, Block.enter_of_error h])
  | enter b bracket =>
    obtain ⟨entry, h⟩ := h
    exact Block.relates_of_ok h name
  | leave bracket => exact bracket.relates σ name

/-! ### Moves as steps -/

/-- The step that a move is to the stacks: a block that opens a scope is a push when it is entered
and a pop when it is left. A refused block is a step that fails. -/
def Move.plain (m : Move) (c : Machine) : Step :=
  match m with
  | .step s => s
  | .enter b => b.steps.headD .pass
  | .leave => c.brackets.head?.elim .pass fun b => b.steps.headD .pass
  | .record .. => .pass

theorem Block.environments_holding (name : String) (m : Mode) (inner : List (Direct m))
    (σ : Session) : ((Block.holding name m inner).enter σ).2.environments = σ.environments := by
  refine Session.onScope_cases (P := fun outcome => outcome.2.environments = σ.environments) name
    rfl fun r _ => ?_
  by_cases hgrant : σ.arena.scopes.grants r m = true
  · simp only [hgrant, if_true]
  · simp only [hgrant, Bool.false_eq_true, if_false]

/-- A move is its plain step, or else it is nothing to the stacks. -/
theorem Move.plain_or_environments_eq (m : Move) (c : Machine) :
    (m.perform c).session = ((m.plain c).perform c.session).2 ∨
      m.plain c = .pass ∧ (m.perform c).session.environments = c.session.environments := by
  cases m with
  | step s => exact .inl rfl
  | enter b =>
    rw [session_enter]
    match b with
    | .scoped name => exact .inl ((Block.scoped name).enter_eq_performAll rfl c.session)
    | .scopedIn name parent =>
      exact .inl ((Block.scopedIn name parent).enter_eq_performAll rfl c.session)
    | .holding name m inner =>
      exact .inr ⟨rfl, Block.environments_holding name m inner c.session⟩
    | .catching => exact .inl rfl
  | leave =>
    obtain ⟨σ, brackets⟩ := c
    cases brackets with
    | nil => exact .inl rfl
    | cons b bs =>
      cases b with
      | frame name => exact .inl ((Bracket.frame name).leave_eq_performAll rfl σ)
      | hold r m => exact .inr ⟨rfl, rfl⟩
      | nothing => exact .inl rfl
  | record tag report => exact .inr ⟨rfl, rfl⟩

end ScopeChain
