import ScopeChain.Proofs.Bodies
import ScopeChain.Proofs.Failures
import ScopeChain.Proofs.Owners

/-!
Guests. An environment is a guest among the scopes of others if all it has on its stack above the
global scope, and all that this leads to, is its own. As long as it writes to nothing but scopes of
its own, whatever a guest does is not to be noticed from the scopes of the others, and it stays a
guest.
-/
namespace ScopeChain

open Arena (Grows Keeps)

/-! ### What a guest may do -/

/-- The handle that a step binds. -/
def BodyStep.captured : BodyStep → List String
  | .capture x => [x]
  | _ => []

/-- A step on the environment `n` that does not write to the global scope, and pushes in no scopes
but captured ones. -/
def BodyStep.SparesGlobal (n : String) (captured : List String) (σ : Session) : BodyStep → Prop
  | .define .. => ∀ e, σ.environments[n]? = some e → e.depth ≠ 1
  | .defineGlobal .. => False
  | .assign t _ => ∀ e, σ.environments[n]? = some e → ¬ σ.arena.Owner t.lexeme e.current e.global
  | .pushIn parent => parent ∈ captured
  | .get _ | .capture _ | .push _ | .pop _ => True

def BodyBlock.steps : BodyBlock → List BodyStep
  | .frame => [.push 1]
  | .frameIn parent => [.pushIn parent]
  | .catching => []

def BodyBlock.exits : BodyBlock → List BodyStep
  | .frame | .frameIn _ => [.pop 1]
  | .catching => []

namespace BodyTurn

/-- Blocks are entered by a push and left by a pop. -/
def steps : BodyTurn → List BodyStep
  | .step s _ => [s]
  | .refuse b _ | .enter b => b.steps
  | .leave b => b.exits

def captured (u : BodyTurn) : List String := u.steps.flatMap BodyStep.captured

def SparesGlobal (n : String) (captured : List String) (σ : Session) (u : BodyTurn) : Prop :=
  ∀ s ∈ u.steps, s.SparesGlobal n captured σ

theorem steps_on (u : BodyTurn) (n : String) : (u.on n).steps = u.steps.map (BodyStep.on n) := by
  cases u with
  | step s result => rfl
  | refuse b f => cases b <;> rfl
  | enter b => cases b <;> rfl
  | leave b => cases b <;> rfl

theorem holdsNothing_on (u : BodyTurn) (n : String) : (u.on n).holdsNothing = true := by
  cases u with
  | step s result => rfl
  | refuse b f => cases b <;> rfl
  | enter b => cases b <;> rfl
  | leave b => cases b <;> rfl

theorem perform_on (u : BodyTurn) (n : String) (σ : Session) :
    (u.on n).perform σ = σ.performAll (u.steps.map (BodyStep.on n)) := by
  rw [Turn.perform_eq_performAll _ (u.holdsNothing_on n), u.steps_on]

theorem steps_cases (u : BodyTurn) : u.steps = [] ∨ ∃ s, u.steps = [s] := by
  cases u with
  | step s result => exact .inr ⟨s, rfl⟩
  | refuse b f => cases b <;> simp [steps, BodyBlock.steps]
  | enter b => cases b <;> simp [steps, BodyBlock.steps]
  | leave b => cases b <;> simp [steps, BodyBlock.exits]

end BodyTurn

/-! ### Guests -/

namespace Session

/-- The environment `n` is a guest among the scopes in `host`. Above the global scope `g` it has
none of them on its stack, none of its handles `xs` is to one of them, and no scope of its own is
enclosed by one of them. -/
structure Guest (σ : Session) (n : String) (host : Ref → Prop) (g : Ref) (xs : List String) :
    Prop where
  host_lt : ∀ r, host r → r < σ.arena.scopes.size
  root : (σ.arena.scope g).parent = none
  stack : ∃ rs, σ.environments[n]? = some ⟨g, rs ++ [g]⟩ ∧ ∀ r ∈ rs, ¬ host r
  handles : ∀ x ∈ xs, ∀ r, σ.scopes[x]? = some r → host r → r = g
  parents : ∀ r p, ¬ host r → (σ.arena.scope r).parent = some p → host p → p = g

/-- What is a host's is the same in `τ` as in `σ`, and so are all environments but `n` and all
handles but `xs`. -/
structure Spares (σ τ : Session) (host : Ref → Prop) (n : String) (xs : List String) : Prop where
  size_le : σ.arena.scopes.size ≤ τ.arena.scopes.size
  scope_eq : ∀ r, host r → τ.arena.scope r = σ.arena.scope r
  hold_eq : ∀ r, τ.arena.scopes.hold r = σ.arena.scopes.hold r
  environments_eq : ∀ k, k ≠ n → τ.environments[k]? = σ.environments[k]?
  scopes_eq : ∀ x ∉ xs, τ.scopes[x]? = σ.scopes[x]?

variable {σ τ υ : Session} {n : String} {host host' : Ref → Prop} {g : Ref} {xs ys : List String}
  {e : Environment}

theorem Spares.refl (σ : Session) : σ.Spares σ host n xs :=
  ⟨Nat.le_refl _, fun _ _ => rfl, fun _ => rfl, fun _ _ => rfl, fun _ _ => rfl⟩

theorem Spares.trans (h : σ.Spares τ host n xs) (h' : τ.Spares υ host n xs) :
    σ.Spares υ host n xs where
  size_le := Nat.le_trans h.size_le h'.size_le
  scope_eq r hr := (h'.scope_eq r hr).trans (h.scope_eq r hr)
  hold_eq r := (h'.hold_eq r).trans (h.hold_eq r)
  environments_eq k hk := (h'.environments_eq k hk).trans (h.environments_eq k hk)
  scopes_eq x hx := (h'.scopes_eq x hx).trans (h.scopes_eq x hx)

/-- From scopes that are its own and from the global one, a guest comes to no others. -/
theorem Guest.chain (h : σ.Guest n host g xs) {r : Ref} {l : List Ref} (hl : σ.arena.Chain r l)
    (hr : host r → r = g) : ∀ q ∈ l, host q → q = g := by
  induction hl with
  | root hp => simpa using hr
  | @inner r p l hp outer ih =>
    intro q hq
    rcases List.mem_cons.mp hq with rfl | hq
    · exact hr
    · refine ih (h.parents r p (fun hhost => ?_) hp) q hq
      rw [hr hhost, h.root] at hp
      cases hp

theorem Guest.current (h : σ.Guest n host g xs) (he : σ.environments[n]? = some e) :
    e.global = g ∧ (host e.current → e.current = g) ∧ (e.depth ≠ 1 → ¬ host e.current) := by
  obtain ⟨rs, hstack, hown⟩ := h.stack
  obtain rfl := Option.some.inj (hstack.symm.trans he)
  cases rs with
  | nil => exact ⟨rfl, fun _ => rfl, fun hdepth => absurd rfl hdepth⟩
  | cons r rs =>
    have hr := hown r (by simp)
    exact ⟨rfl, fun hhost => absurd hhost hr, fun _ => hr⟩

/-- Where others have grown new scopes of theirs, too, a guest is still one. -/
theorem Guest.of_grows (h : σ.Guest n host g xs) (hσ : σ.Sound) (hgrows : Grows σ.arena τ.arena)
    (henv : τ.environments[n]? = σ.environments[n]?)
    (hscopes : ∀ x ∈ xs, τ.scopes[x]? = σ.scopes[x]?)
    (hlt : ∀ r, host' r → r < τ.arena.scopes.size)
    (hold : ∀ r < σ.arena.scopes.size, host' r ↔ host r)
    (hnew : ∀ r, σ.arena.scopes.size ≤ r → r < τ.arena.scopes.size → host' r) :
    τ.Guest n host' g xs := by
  obtain ⟨rs, hstack, hown⟩ := h.stack
  have hwithin := hσ.environment_within n _ hstack
  refine ⟨hlt, ?_, ⟨rs, henv.trans hstack, fun r hr hhost => ?_⟩, fun x hx r hr hhost => ?_,
    fun r p hr hp hhost => ?_⟩
  · rw [hgrows.parent_eq g hwithin.global_lt, h.root]
  · exact hown r hr ((hold r (hwithin r (by simp [hr]))).mp hhost)
  · rw [hscopes x hx] at hr
    exact h.handles x hx r hr ((hold r (hσ.scope_lt x r hr)).mp hhost)
  · have hlt' : r < σ.arena.scopes.size := by
      by_contra hle
      exact hr (hnew r (Nat.le_of_not_lt hle) (Arena.lt_size_of_parent hp))
    rw [hgrows.parent_eq r hlt'] at hp
    exact h.parents r p (mt (hold r hlt').mpr hr) hp ((hold p (hσ.closed r p hp)).mp hhost)

/-- Where there are just the scopes that there were, they have the same guest. -/
theorem Guest.withArena (h : σ.Guest n host g xs) (hσ : σ.Sound) {b : Arena}
    (hgrows : Grows σ.arena b) (hsize : b.scopes.size = σ.arena.scopes.size) :
    { σ with arena := b }.Guest n host g xs := by
  refine h.of_grows hσ hgrows rfl (fun _ _ => rfl) (fun r hr => ?_) (fun r hr => Iff.rfl)
    fun r hr hlt => ?_
  · exact Nat.lt_of_lt_of_le (h.host_lt r hr) hgrows.size_le
  · exact absurd hlt (Nat.not_lt.mpr (hsize ▸ hr))

/-! ### Steps of a guest -/

/-- A session in which the guest is still one, and has left alone what is not its own. -/
structure Behaves (σ τ : Session) (n : String) (host : Ref → Prop) (g : Ref)
    (xs ys : List String) : Prop where
  guest : τ.Guest n host g (ys ++ xs)
  spares : σ.Spares τ host n ys

variable (h : σ.Guest n host g xs) (hσ : σ.Sound)
include h

theorem Guest.behaves_refl : σ.Behaves σ n host g xs [] := ⟨h, .refl σ⟩

include hσ

theorem Guest.behaves_of_scopes_eq {b : Arena} (hb : b.scopes = σ.arena.scopes) :
    σ.Behaves { σ with arena := b } n host g xs [] := by
  have hkeeps : Keeps σ.arena b := .of_scopes_eq hb
  have hsize : b.scopes.size = σ.arena.scopes.size := by rw [hb]
  exact ⟨h.withArena hσ hkeeps.toGrows hsize, hkeeps.size_le,
    fun r hr => hkeeps.scope_eq r (h.host_lt r hr), hkeeps.hold_eq, fun _ _ => rfl, fun _ _ => rfl⟩

theorem Guest.behaves_define {b : Arena} {o : Ref} {x : String} {v : Value} (ho : ¬ host o)
    (hb : b.scopes = (σ.arena.defineInside o x v).scopes) :
    σ.Behaves { σ with arena := b } n host g xs [] := by
  have hscope : ∀ r, b.scope r = (σ.arena.defineInside o x v).scope r := by
    intro r
    rw [Arena.scope, hb, Arena.scope]
  have hsize : b.scopes.size = σ.arena.scopes.size := by
    rw [hb, Arena.size_defineInside]
  have hgrows : Grows σ.arena b := .of_parents hsize fun r => by
    rw [hscope, Arena.parent_defineInside]
  refine ⟨h.withArena hσ hgrows hsize, hgrows.size_le, fun r hr => ?_, fun r => ?_,
    fun _ _ => rfl, fun _ _ => rfl⟩
  · have hne : r ≠ o := fun heq => ho (heq ▸ hr)
    show b.scope r = σ.arena.scope r
    rw [hscope, Arena.scope_defineInside, if_neg fun hc => hne hc.1]
  · show b.scopes.hold r = σ.arena.scopes.hold r
    rw [hb, Arena.hold_defineInside]

omit hσ in
theorem Guest.behaves_capture {r : Ref} (hr : host r → r = g) (x : String) :
    σ.Behaves (σ.bindScope x r) n host g xs [x] := by
  refine ⟨⟨h.host_lt, h.root, h.stack, fun y hy q hq => ?_, h.parents⟩,
    ⟨Nat.le_refl _, fun _ _ => rfl, fun _ => rfl, fun _ _ => rfl, fun y hy => ?_⟩⟩
  · rw [scopes_bindScope] at hq
    split at hq
    · obtain rfl := Option.some.inj hq
      exact hr
    · next hne =>
      have hmem : y ∈ xs := by simpa [Ne.symm hne] using hy
      exact h.handles y hmem q hq
  · rw [scopes_bindScope, if_neg fun heq => hy (List.mem_singleton.mpr heq.symm)]

/-- A new scope of the guest, enclosed by one of its own or by the global one. -/
theorem Guest.behaves_newChild {b : Arena} {p : Ref} (hp : p < σ.arena.scopes.size)
    (hhost : host p → p = g) (hb : b.scopes = (σ.arena.newChild p).2.scopes) :
    σ.Behaves { σ with arena := b } n host g xs [] := by
  have hkeeps : Keeps σ.arena b := (Arena.keeps_newChild hp).trans (.of_scopes_eq hb)
  have hscope : ∀ r, b.scope r =
      if r = σ.arena.scopes.size then .enclosedBy p else σ.arena.scope r := by
    intro r
    rw [Arena.scope, hb]
    exact σ.arena.scopes.value_alloc _ r
  obtain ⟨rs, hstack, hown⟩ := h.stack
  have hglobal := (hσ.environment_within n _ hstack).global_lt
  refine ⟨⟨fun r hr => ?_, ?_, h.stack, h.handles, fun r q hr hq hhost' => ?_⟩,
    ⟨hkeeps.size_le, fun r hr => hkeeps.scope_eq r (h.host_lt r hr), hkeeps.hold_eq,
      fun _ _ => rfl, fun _ _ => rfl⟩⟩
  · exact Nat.lt_of_lt_of_le (h.host_lt r hr) hkeeps.size_le
  · show (b.scope g).parent = none
    rw [hkeeps.scope_eq g hglobal, h.root]
  · change (b.scope r).parent = some q at hq
    rw [hscope] at hq
    split at hq
    · obtain rfl : p = q := Option.some.inj hq
      exact hhost hhost'
    · exact h.parents r q hr hq hhost'

omit hσ in
theorem Guest.behaves_bind {rs : List Ref} (hown : ∀ r ∈ rs, ¬ host r) :
    σ.Behaves (σ.bindEnvironment n ⟨g, rs ++ [g]⟩) n host g xs [] := by
  have henv := σ.environments_bindEnvironment n ⟨g, rs ++ [g]⟩
  refine ⟨⟨h.host_lt, h.root, ⟨rs, (henv n).trans (if_pos rfl), hown⟩, h.handles, h.parents⟩,
    ⟨Nat.le_refl _, fun _ _ => rfl, fun _ => rfl, fun k hk => ?_, fun _ _ => rfl⟩⟩
  rw [henv, if_neg (Ne.symm hk)]

omit h hσ in
theorem Behaves.trans (h : σ.Behaves τ n host g xs []) (h' : τ.Behaves υ n host g xs []) :
    σ.Behaves υ n host g xs [] :=
  ⟨h'.guest, h.spares.trans h'.spares⟩

theorem Guest.behaves_restack {change : Environment → Arena → Environment × Arena} {p : Ref}
    (he : σ.environments[n]? = some e) (hp : p < σ.arena.scopes.size) (hhost : host p → p = g)
    (henv : (change e σ.arena).1 = e.topped [σ.arena.scopes.size])
    (harena : (change e σ.arena).2.scopes = (σ.arena.newChild p).2.scopes) :
    σ.Behaves (σ.restack n change e) n host g xs [] := by
  have hmade := h.behaves_newChild hσ hp hhost harena
  obtain ⟨rs, hstack, hown⟩ := h.stack
  obtain rfl := Option.some.inj (hstack.symm.trans he)
  have hown' : ∀ r ∈ σ.arena.scopes.size :: rs, ¬ host r := by
    intro r hr hhost'
    rcases List.mem_cons.mp hr with rfl | hr
    · exact Nat.lt_irrefl _ (h.host_lt _ hhost')
    · exact hown r hr hhost'
  have hbound := hmade.guest.behaves_bind hown'
  rw [restack_eq, henv]
  exact hmade.trans hbound

theorem Guest.behaves_push (he : σ.environments[n]? = some e) :
    σ.Behaves (σ.restack n Environment.push e) n host g xs [] :=
  h.behaves_restack hσ he (hσ.environment_within n e he).current_lt (h.current he).2.1 rfl rfl

theorem Guest.behaves_pop (he : σ.environments[n]? = some e) :
    σ.Behaves (σ.restack n Environment.pop e) n host g xs [] := by
  have hkept := h.behaves_of_scopes_eq hσ (e.scopes_pop σ.arena)
  obtain ⟨rs, hstack, hown⟩ := h.stack
  obtain rfl := Option.some.inj (hstack.symm.trans he)
  have hbound := hkept.guest.behaves_bind fun r hr => hown r (List.mem_of_mem_tail hr)
  have hpop : (Environment.pop ⟨g, rs ++ [g]⟩ σ.arena).1 = ⟨g, rs.tail ++ [g]⟩ := by
    rw [Environment.pop_fst]
    cases rs <;> simp
  rw [restack_eq, hpop]
  exact hkept.trans hbound

/-- What a guest may do once it may do any number of times. -/
theorem Guest.behaves_repeated {change : Environment → Arena → Environment × Arena}
    (hchange : ∀ {σ : Session} {e : Environment}, σ.Guest n host g xs → σ.Sound →
      σ.environments[n]? = some e → σ.Behaves (σ.restack n change e) n host g xs [])
    (hsound : ∀ (e : Environment) (a : Arena), e.Within a →
      Keeps a (change e a).2 ∧ (change e a).1.Within (change e a).2) (times : Nat) :
    σ.Behaves (repeated (Step.restack n change) times σ).2 n host g xs [] := by
  induction times generalizing σ with
  | zero => exact h.behaves_refl
  | succ times ih =>
    obtain ⟨rs, he, hown⟩ := h.stack
    have hfirst := hchange h hσ he
    have hkept := restack_follows hσ n (hsound _ σ.arena (hσ.environment_within n _ he))
    rw [Step.repeated_restack_succ he]
    exact hfirst.trans (ih hfirst.guest hkept.sound)

end Session

open Session (Guest Behaves)

variable {σ : Session} {n : String} {host : Ref → Prop} {g : Ref} {xs : List String}

theorem Session.Guest.behaves_definition (h : σ.Guest n host g xs) (hσ : σ.Sound)
    {e : Environment} (hown : ¬ host e.current) (x : String) (v : Value) :
    σ.Behaves { σ with arena := (e.define x v σ.arena).2 } n host g xs [] := by
  cases hresult : (e.define x v σ.arena).1 with
  | error f =>
    apply h.behaves_of_scopes_eq hσ
    exact Arena.atomic_define e.current x v (σ.arena.emit _) f hresult
  | ok u =>
    have hwritten : (e.define x v σ.arena).2.scopes =
        (σ.arena.defineInside e.current x v).scopes := by
      rw [Environment.define, Arena.define_of_ok hresult]
      rfl
    exact h.behaves_define hσ hown hwritten

/-- An assignment goes to a scope of the guest's own if it does not go to the global one. -/
theorem Session.Guest.behaves_assign (h : σ.Guest n host g xs) (hσ : σ.Sound)
    (hrooted : σ.arena.Rooted) {e : Environment} (he : σ.environments[n]? = some e) {t : Token}
    (hspares : ¬ σ.arena.Owner t.lexeme e.current e.global) (v : Value) :
    σ.Behaves { σ with arena := (e.assign t v σ.arena).2 } n host g xs [] := by
  obtain ⟨hglobal, hcurrent, -⟩ := h.current he
  cases hresult : (e.assign t v σ.arena).1 with
  | error f =>
    apply h.behaves_of_scopes_eq hσ
    exact Arena.atomic_assign e.current t v (σ.arena.emit _) f hresult
  | ok u =>
    obtain ⟨l, hl⟩ := hrooted e.current
    have hl' : (σ.arena.emit (.assign t.lexeme t.line)).Chain e.current l :=
      hl.of_parents fun _ _ => rfl
    obtain ⟨o, ho, hassign⟩ := hl'.assign_of_ok hresult
    rw [Arena.owner?_emit, hl.owner?_eq_some_iff] at ho
    have hmem : o ∈ l := List.mem_of_find?_eq_some ((hl.owner_iff _ o).mp ho)
    have hwritten : (e.assign t v σ.arena).2.scopes =
        (σ.arena.defineInside o t.lexeme v).scopes := by
      rw [Environment.assign, hassign]
      rfl
    refine h.behaves_define hσ (fun hhost => hspares ?_) hwritten
    rw [hglobal, ← h.chain hl hcurrent o hmem hhost]
    exact ho

theorem BodyStep.behaves (s : BodyStep) (h : σ.Guest n host g xs) (hσ : σ.Sound)
    (hrooted : σ.arena.Rooted) (hs : s.SparesGlobal n xs σ) :
    σ.Behaves ((s.on n).perform σ).2 n host g xs s.captured := by
  obtain ⟨rs, he, hown⟩ := h.stack
  obtain ⟨hglobal, hcurrent, hdepth⟩ := h.current he
  cases s with
  | define x v =>
    rw [on, Step.perform_environment he, EnvironmentStep.perform, Session.access_snd]
    exact h.behaves_definition hσ (hdepth (hs _ he)) x v
  | defineGlobal x v => cases hs
  | get t =>
    rw [on, Step.perform_environment he, EnvironmentStep.perform, Session.access_snd]
    exact h.behaves_of_scopes_eq hσ (Arena.reads_get _ t σ.arena)
  | assign t v =>
    rw [on, Step.perform_environment he, EnvironmentStep.perform, Session.access_snd]
    exact h.behaves_assign hσ hrooted he (hs _ he) v
  | capture x =>
    rw [on, Step.perform_environment he]
    exact h.behaves_capture hcurrent x
  | push times =>
    exact h.behaves_repeated hσ (fun h hσ => h.behaves_push hσ) (fun _ _ he => he.push) times
  | pushIn parent =>
    cases hr : σ.scopes[parent]? with
    | none =>
      simp only [on, Step.perform, Session.onScope, hr]
      exact h.behaves_refl
    | some r =>
      simp only [on, Step.perform, Session.onScope, Step.restack, Session.onEnvironment, hr, he]
      exact h.behaves_restack hσ he (hσ.scope_lt parent r hr) (h.handles parent hs r hr) rfl rfl
  | pop times =>
    exact h.behaves_repeated hσ (fun h hσ => h.behaves_pop hσ) (fun _ _ he => he.pop) times

/-- A turn that does not write to the global scope leaves alone what is the hosts'. -/
theorem BodyTurn.behaves (u : BodyTurn) (h : σ.Guest n host g xs) (hσ : σ.Sound)
    (hrooted : σ.arena.Rooted) (hu : u.SparesGlobal n xs σ) :
    σ.Behaves ((u.on n).perform σ) n host g xs u.captured := by
  rw [u.perform_on]
  rcases u.steps_cases with hsteps | ⟨s, hsteps⟩
  · rw [captured, hsteps]
    exact h.behaves_refl
  · have hs := hu s (by simp [hsteps])
    have hcaptured : u.captured = s.captured := by simp [captured, hsteps]
    rw [hcaptured, hsteps]
    exact s.behaves h hσ hrooted hs

end ScopeChain
