import ScopeChain.Proofs.Nesting
import ScopeChain.Proofs.Refusals
import ScopeChain.Proofs.Shifts

/-!
Holds are given back. A step takes the holds that it needs and returns them before it is over, and a
block returns its hold when control leaves it. So the holds in force are those of the open brackets
at any time, each of them granted beside the ones outside it; where no open bracket holds a scope,
all scopes are free, and nothing that is done there is refused.
-/
namespace ScopeChain

/-- The hold that open brackets amount to for one scope, the innermost bracket being the last to
have taken its own. -/
def holdOn (r : Ref) : List Bracket → Hold
  | [] => .free
  | .hold q m :: bs => if q = r then (holdOn r bs).acquire m else holdOn r bs
  | .frame _ :: bs | .nothing :: bs => holdOn r bs

/-- Every open hold is on one of the first `size` scopes and goes with the holds outside it. -/
def Compatible (size : Nat) : List Bracket → Prop
  | [] => True
  | .hold q m :: bs => q < size ∧ (holdOn q bs).grants m = true ∧ Compatible size bs
  | .frame _ :: bs | .nothing :: bs => Compatible size bs

/-- The holds in force are those of the open brackets. -/
structure Machine.HeldByOpen (c : Machine) : Prop where
  hold_eq : ∀ r, c.session.arena.scopes.hold r = holdOn r c.brackets
  compatible : Compatible c.session.arena.scopes.size c.brackets

section Brackets

variable {b : Bracket} {bs : List Bracket} {size size' : Nat}

theorem holdOn_cons_of_holdsNothing (hb : b.holdsNothing = true) (r : Ref) (bs : List Bracket) :
    holdOn r (b :: bs) = holdOn r bs := by
  cases b with
  | hold q m => cases hb
  | frame name => rfl
  | nothing => rfl

theorem compatible_cons_of_holdsNothing (hb : b.holdsNothing = true) :
    Compatible size (b :: bs) ↔ Compatible size bs := by
  cases b with
  | hold q m => cases hb
  | frame name => exact Iff.rfl
  | nothing => exact Iff.rfl

theorem holdOn_of_holdsNothing (hbs : ∀ b ∈ bs, b.holdsNothing = true) (r : Ref) :
    holdOn r bs = .free := by
  induction bs with
  | nil => rfl
  | cons b bs ih =>
    rw [holdOn_cons_of_holdsNothing (hbs b (by simp))]
    exact ih fun b hb => hbs b (by simp [hb])

theorem Compatible.mono (h : Compatible size bs) (hsize : size ≤ size') : Compatible size' bs := by
  induction bs with
  | nil => trivial
  | cons b bs ih =>
    cases b with
    | hold q m =>
      obtain ⟨hq, hgrants, hrest⟩ := h
      exact ⟨Nat.lt_of_lt_of_le hq hsize, hgrants, ih hrest⟩
    | frame name => exact ih h
    | nothing => exact ih h

end Brackets

/-! ### Steps leave holds as they are -/

variable {σ : Session}

theorem Arena.Writes.hold_eq {α : Type} {act : Arena.Attempt α} (h : Arena.Writes act) (a : Arena)
    (r : Ref) : (act a).2.scopes.hold r = a.scopes.hold r := by
  rcases h a with hsame | ⟨o, name, v, hwrite⟩
  · rw [hsame]
  · rw [hwrite, Store.hold_update]

theorem Session.hold_access {α : Type} {act : Arena.Attempt α} (hact : Arena.Writes act)
    (answer : α → Answer) (σ : Session) (r : Ref) :
    (access act answer σ).2.arena.scopes.hold r = σ.arena.scopes.hold r := by
  rw [arena_access, hact.hold_eq]

/-- Whatever a step has held on its way, it has given back by its end. -/
theorem Step.hold_eq (s : Step) (hσ : σ.Sound) (r : Ref) :
    (s.perform σ).2.arena.scopes.hold r = σ.arena.scopes.hold r := by
  cases hquiet : s.writes with
  | false => exact (s.perform_keeps hquiet hσ).arena.hold_eq r
  | true =>
    cases s with
    | environment name s =>
      cases he : σ.environments[name]? with
      | none => simp only [perform, Session.onEnvironment, he]
      | some e =>
        rw [perform_environment he]
        cases s with
        | define x v => exact Session.hold_access (e.writes_define x v) _ σ r
        | defineGlobal x v => exact Session.hold_access (Arena.writes_define e.global x v) _ σ r
        | assign t v => exact Session.hold_access (e.writes_assign t v) _ σ r
        | _ => cases hquiet
    | scope name s =>
      cases hq : σ.scopes[name]? with
      | none => simp only [perform, Session.onScope, hq]
      | some q =>
        simp only [perform, Session.onScope, hq]
        cases s with
        | define x v => exact Session.hold_access (Arena.writes_define q x v) _ σ r
        | assign t v => exact Session.hold_access (Arena.writes_assign q t v) _ σ r
        | _ => cases hquiet
    | _ => cases hquiet

theorem Direct.writes {m : Mode} (d : Direct m) (r : Ref) : Arena.Writes (d.perform r) := by
  cases d with
  | get t => exact fun a => .inl (Arena.reads_getInside a.fuel r t a)
  | binds name => exact fun a => .inl rfl
  | depth => exact fun a => .inl (Arena.reads_depthInside a.fuel r a)
  | size => exact fun a => .inl rfl
  | define name v => exact fun a => .inr ⟨r, name, v, rfl⟩
  | assign t v => exact fun a => Arena.writes_assignInside a.fuel r t v a

theorem Direct.hold_performAll {m : Mode} (ds : List (Direct m)) (r : Ref) (a : Arena) (q : Ref) :
    (Direct.performAll ds r a).2.scopes.hold q = a.scopes.hold q := by
  induction ds generalizing a with
  | nil => rfl
  | cons d ds ih => exact (ih _).trans ((d.writes r).hold_eq a q)

/-! ### Moves -/

namespace Machine.HeldByOpen

variable {c : Machine}

theorem enter_holdsNothing (h : c.HeldByOpen) (hc : c.session.Sound) {b : Block}
    (hb : b.holdsNothing = true) : ((Move.enter b).perform c).HeldByOpen := by
  have hkeeps := (b.enter_keeps hb hc).arena
  rcases henter : b.enter c.session with ⟨f | ⟨bracket, entry⟩, τ⟩
  · obtain rfl : τ = c.session := by
      have hsame := Block.enter_of_error (congrArg Prod.fst henter)
      rwa [henter] at hsame
    simp only [Move.perform, henter]
    exact h
  · have hbracket := Block.holdsNothing_bracket hb (congrArg Prod.fst henter)
    rw [henter] at hkeeps
    simp only [Move.perform, henter]
    constructor
    · intro r
      rw [holdOn_cons_of_holdsNothing hbracket, ← h.hold_eq]
      exact hkeeps.hold_eq r
    · apply (compatible_cons_of_holdsNothing hbracket).mpr
      exact h.compatible.mono hkeeps.size_le

theorem enter_holding (h : c.HeldByOpen) (hc : c.session.Sound) (name : String) (m : Mode)
    (inner : List (Direct m)) : ((Move.enter (.holding name m inner)).perform c).HeldByOpen := by
  cases hq : c.session.scopes[name]? with
  | none =>
    simp only [Move.perform, Block.enter, Session.onScope, hq]
    exact h
  | some q =>
    by_cases hgrant : c.session.arena.scopes.grants q m = true
    · have hlt := hc.scope_lt name q hq
      have hsize : c.session.arena.scopes.size ≤
          (Direct.performAll inner q (c.session.arena.acquire q m)).2.scopes.size := by
        have hgrows := (Direct.performAll_grows inner q (c.session.arena.acquire q m)).size_le
        simpa [Arena.acquire] using hgrows
      simp only [Move.perform, Block.enter, Session.onScope, hq, hgrant, if_true]
      constructor
      · intro r
        show (Direct.performAll inner q (c.session.arena.acquire q m)).2.scopes.hold r = _
        rw [Direct.hold_performAll, Arena.acquire, Store.hold_acquire, h.hold_eq, h.hold_eq, holdOn]
        by_cases hr : r = q
        · subst hr
          simp [hlt]
        · simp [hr, Ne.symm hr]
      · refine ⟨Nat.lt_of_lt_of_le hlt hsize, ?_, h.compatible.mono hsize⟩
        rw [← h.hold_eq]
        exact hgrant
    · simp only [Move.perform, Block.enter, Session.onScope, hq, hgrant]
      exact h

/-- The innermost hold goes with those outside it, so what is left of them is what was before. -/
theorem leave (h : c.HeldByOpen) (hc : c.session.Sound) : (Move.leave.perform c).HeldByOpen := by
  obtain ⟨σ, brackets⟩ := c
  cases brackets with
  | nil => exact h
  | cons b bs =>
    cases b with
    | nothing => exact ⟨h.hold_eq, h.compatible⟩
    | frame name =>
      have hkeeps := (Bracket.leave_frame_keeps name hc).arena
      constructor
      · exact fun r => (hkeeps.hold_eq r).trans (h.hold_eq r)
      · have hrest : Compatible σ.arena.scopes.size bs := h.compatible
        exact hrest.mono hkeeps.size_le
    | hold q m =>
      obtain ⟨hlt, hgrants, hrest⟩ := h.compatible
      constructor
      · intro r
        have hr := h.hold_eq r
        show (σ.arena.scopes.release q m).hold r = holdOn r bs
        rw [Store.hold_release]
        by_cases heq : r = q
        · subst heq
          simp only [holdOn, if_true] at hr
          rw [if_pos ⟨rfl, hlt⟩, hr, Hold.release_acquire hgrants]
        · simp only [holdOn, Ne.symm heq, if_false] at hr
          rw [if_neg (fun h => heq h.1), hr]
      · apply hrest.mono
        simp [Move.perform, Bracket.leave, Arena.release]

theorem perform (h : c.HeldByOpen) (hc : c.session.Sound) (m : Move) :
    (m.perform c).HeldByOpen := by
  cases m with
  | step s =>
    constructor
    · exact fun r => (s.hold_eq hc r).trans (h.hold_eq r)
    · exact h.compatible.mono (s.perform_grows hc).arena.size_le
  | enter b =>
    match b with
    | .holding name m inner => exact h.enter_holding hc name m inner
    | .scoped name => exact h.enter_holdsNothing hc rfl
    | .scopedIn name parent => exact h.enter_holdsNothing hc rfl
    | .catching => exact h.enter_holdsNothing hc rfl
  | leave => exact h.leave hc
  | record tag report => exact ⟨h.hold_eq, h.compatible⟩

theorem free (h : c.HeldByOpen) (hopen : ∀ b ∈ c.brackets, b.holdsNothing = true) :
    c.session.arena.Free := by
  intro r
  rw [h.hold_eq, holdOn_of_holdsNothing hopen]

end Machine.HeldByOpen

theorem Machine.Reachable.heldByOpen {c : Machine} (hc : c.Reachable) : c.HeldByOpen := by
  have hstart : start.HeldByOpen := ⟨fun r => Store.hold_of_size_le _ (Nat.zero_le r), trivial⟩
  refine (Leads.induction (P := fun c => c.session.Sound ∧ c.HeldByOpen) (fun c m h => ?_) hc
    ⟨Session.sound_empty, hstart⟩).2
  exact ⟨(m.perform_grows c h.1).sound, h.2.perform h.1 m⟩

/-! ### Nothing is refused where nothing is held -/

namespace Arena

variable {α : Type} {a : Arena} {r : Ref} (hfree : a.Free)
include hfree

theorem not_refused_get (hrooted : a.Rooted) (t : Token) : ¬ Refused (a.get r t).1 := by
  obtain ⟨l, hl⟩ := hrooted r
  rw [get_of_free hl hfree]
  exact (oblivious_lookup l t).not_refused a

theorem not_refused_assign (hrooted : a.Rooted) (t : Token) (v : Value) :
    ¬ Refused (a.assign r t v).1 := by
  obtain ⟨l, hl⟩ := hrooted r
  rw [assign_of_free hl hfree]
  exact (oblivious_overwrite l t v).not_refused a

theorem not_refused_depth (hrooted : a.Rooted) : ¬ Refused (a.depth r).1 := by
  obtain ⟨l, hl⟩ := hrooted r
  rw [depth_of_free hl hfree]
  exact (oblivious_count l).not_refused a

theorem not_refused_define (x : String) (v : Value) : ¬ Refused (define r x v a).1 := by
  rw [define_eq, if_pos (grants_of_free hfree r .exclusive)]
  exact (oblivious_defineInside r x v).not_refused a

theorem not_refused_inspect (f : Scope → α) : ¬ Refused (inspect r f a).1 := by
  rw [inspect_eq, if_pos (grants_of_free hfree r .shared)]
  rintro ⟨m, hm⟩
  cases hm

theorem not_refused_copy : ¬ Refused (copy r a).1 := by
  unfold copy
  rw [inspect_eq, if_pos (grants_of_free hfree r .shared)]
  rintro ⟨m, hm⟩
  cases hm

/-- Every scope of a chain can be seen if none is held. -/
theorem isSome_bindings?_outlineWithin {o : Outline} (fuel : Nat)
    (ho : a.outlineWithin fuel r = some o) : o.bindings?.isSome = true := by
  induction fuel generalizing r o with
  | zero =>
    unfold outlineWithin at ho
    simp only [hfree r, Hold.free] at ho
    split at ho
    · obtain rfl := Option.some.inj ho
      rfl
    · cases ho
  | succ fuel ih =>
    unfold outlineWithin at ho
    simp only [hfree r, Hold.free] at ho
    split at ho
    · obtain rfl := Option.some.inj ho
      rfl
    · obtain ⟨outer, houter, rfl⟩ := Option.map_eq_some_iff.mp ho
      simpa [Outline.bindings?] using ih houter

theorem isSome_bindings?_outline {o : Outline} (ho : a.outline r = .ok o) :
    o.bindings?.isSome = true := by
  unfold outline at ho
  split at ho
  · next hsome =>
    obtain rfl := Except.ok.inj ho
    exact isSome_bindings?_outlineWithin hfree a.fuel hsome
  · cases ho

omit hfree in
theorem outline_ne_refused (m : Mode) : a.outline r ≠ .error (.refused m) := by
  unfold outline
  split <;> simp

theorem not_refused_list (names : List String) : ¬ Refused (list r names a).1 := by
  rintro ⟨m, hm⟩
  unfold list at hm
  split at hm
  · next f hf =>
    obtain rfl : f = .refused m := by simpa using hm
    exact outline_ne_refused m hf
  · next o ho =>
    obtain ⟨bindings, hbindings⟩ := Option.isSome_iff_exists.mp (isSome_bindings?_outline hfree ho)
    simp [hbindings] at hm

end Arena

namespace Session

variable {α : Type}

/-- A hold that the attempt needs is not granted. -/
def Refuses (act : Attempt α) (σ : Session) : Prop := ∃ m, (act σ).1 = .error (.access (.refused m))

theorem not_refuses_of_ne {act : Attempt α} (h : ∀ f, (act σ).1 ≠ .error (.access f)) :
    ¬ Refuses act σ := by
  rintro ⟨m, hm⟩
  exact h _ hm

theorem not_refuses_accessThen {act : Arena.Attempt α} (h : ¬ Arena.Refused (act σ.arena).1)
    (finish : α → Session → Answer × Session) : ¬ Refuses (accessThen act finish) σ := by
  rintro ⟨m, hm⟩
  apply h
  refine ⟨m, ?_⟩
  cases hact : (act σ.arena).1 with
  | ok x => simp [accessThen, hact] at hm
  | error f => simpa [accessThen, hact] using hm

theorem not_refuses_access {act : Arena.Attempt α} (h : ¬ Arena.Refused (act σ.arena).1)
    (answer : α → Answer) : ¬ Refuses (access act answer) σ :=
  not_refuses_accessThen h _

/-- A text is not shown only for a scope that is held. -/
theorem not_refuses_inspect (hfree : σ.arena.Free) (r : Ref) {write : Outline → Option Doc}
    (hwrite : ∀ o : Outline, o.bindings?.isSome = true → (write o).isSome = true)
    (layout : Layout) : ¬ Refuses (inspect r write layout) σ := by
  rintro ⟨m, hm⟩
  unfold inspect at hm
  split at hm
  · next f hf =>
    obtain rfl : f = .refused m := by simpa using hm
    exact Arena.outline_ne_refused m hf
  · next o ho =>
    have hshown := hwrite o (Arena.isSome_bindings?_outline hfree ho)
    obtain ⟨doc, hdoc⟩ := Option.isSome_iff_exists.mp hshown
    simp only [hdoc] at hm
    split at hm <;> simp at hm

theorem not_refuses_onScope (name : String) {act : Ref → Attempt α}
    (hact : ∀ r, ¬ Refuses (act r) σ) : ¬ Refuses (onScope name act) σ :=
  onScope_cases (P := fun outcome => ¬ ∃ m, outcome.1 = .error (.access (.refused m))) name
    (by simp) fun r _ => hact r

theorem not_refuses_onEnvironment (name : String) {act : Environment → Attempt α}
    (hact : ∀ e, ¬ Refuses (act e) σ) : ¬ Refuses (onEnvironment name act) σ :=
  onEnvironment_cases (P := fun outcome => ¬ ∃ m, outcome.1 = .error (.access (.refused m))) name
    (by simp) fun e _ => hact e

end Session

open Session (Refuses)

section Free

variable (hrooted : σ.arena.Rooted) (hfree : σ.arena.Free)
include hrooted hfree

theorem EnvironmentStep.not_refuses (s : EnvironmentStep) (e : Environment) :
    ¬ Refuses (s.perform e) σ := by
  unfold perform
  cases s with
  | define x v =>
    exact Session.not_refuses_access (Arena.not_refused_define (a := σ.arena.emit _) hfree x v) _
  | defineGlobal x v => exact Session.not_refuses_access (Arena.not_refused_define hfree x v) _
  | get t => exact Session.not_refuses_access (Arena.not_refused_get hfree hrooted t) _
  | assign t v =>
    have hemit := hrooted.emit (.assign t.lexeme t.line)
    have hassign := Arena.not_refused_assign (a := σ.arena.emit _) (r := e.current) hfree hemit t v
    exact Session.not_refuses_access hassign _
  | inspect layout => exact Session.not_refuses_inspect hfree _ (fun _ _ => rfl) layout
  | list names => exact Session.not_refuses_access (Arena.not_refused_list hfree names) _
  | _ => exact Session.not_refuses_of_ne fun f => by simp

theorem ScopeStep.not_refuses (s : ScopeStep) (r : Ref) : ¬ Refuses (s.perform r) σ := by
  unfold perform
  cases s with
  | child x times => exact Session.not_refuses_of_ne fun f => by simp [Session.accessThen]
  | share x => exact Session.not_refuses_of_ne fun f => by simp
  | copy x => exact Session.not_refuses_accessThen (Arena.not_refused_copy hfree) _
  | define x v => exact Session.not_refuses_access (Arena.not_refused_define hfree x v) _
  | get t => exact Session.not_refuses_access (Arena.not_refused_get hfree hrooted t) _
  | assign t v => exact Session.not_refuses_access (Arena.not_refused_assign hfree hrooted t v) _
  | binds x => exact Session.not_refuses_access (Arena.not_refused_inspect hfree _) _
  | depth => exact Session.not_refuses_access (Arena.not_refused_depth hfree hrooted) _
  | size => exact Session.not_refuses_access (Arena.not_refused_inspect hfree _) _
  | parent x => exact Session.not_refuses_accessThen (Arena.not_refused_inspect hfree _) _
  | inspect layout => exact Session.not_refuses_inspect hfree _ (fun _ _ => rfl) layout
  | inspectInner layout =>
    refine Session.not_refuses_inspect hfree _ (fun o ho => ?_) layout
    cases o with
    | hidden => cases ho
    | root bindings => rfl
    | enclosed bindings outer => rfl
  | list names => exact Session.not_refuses_access (Arena.not_refused_list hfree names) _

theorem Step.not_refuses (s : Step) : ¬ Refuses s.perform σ := by
  cases s with
  | environment name s =>
    exact Session.not_refuses_onEnvironment name fun e => s.not_refuses hrooted hfree e
  | scope name s => exact Session.not_refuses_onScope name fun r => s.not_refuses hrooted hfree r
  | _ => exact Session.not_refuses_of_ne (perform_ne_access _ rfl σ)

omit hrooted in
theorem Block.not_refuses (b : Block) : ¬ Refuses b.enter σ := by
  match b with
  | .holding name m inner =>
    refine Session.not_refuses_onScope name fun r => ?_
    rintro ⟨k, hk⟩
    simp [Arena.grants_of_free hfree r m] at hk
  | .scoped name => exact Session.not_refuses_of_ne (enter_ne_access (.scoped name) rfl σ)
  | .scopedIn name parent =>
    exact Session.not_refuses_of_ne (enter_ne_access (.scopedIn name parent) rfl σ)
  | .catching => exact Session.not_refuses_of_ne (enter_ne_access .catching rfl σ)

end Free

/-- The turn fails for a hold that is not granted. -/
def Turn.Refused : Turn → Prop
  | .step _ result => ∃ m, result = .error (.access (.refused m))
  | .refuse _ f => ∃ m, f = .access (.refused m)
  | .enter .. | .leave _ => False

theorem Turn.not_refused {t : Turn} (ht : t.Holds σ) (hrooted : σ.arena.Rooted)
    (hfree : σ.arena.Free) : ¬ t.Refused := by
  cases t with
  | step s result =>
    rintro ⟨m, rfl⟩
    exact s.not_refuses hrooted hfree ⟨m, ht⟩
  | refuse b f =>
    rintro ⟨m, rfl⟩
    exact b.not_refuses hfree ⟨m, ht⟩
  | enter b bracket => exact id
  | leave bracket => exact id

/-! ### Scripts -/

open Turn (opened)

namespace Session

/-- How holds go while scripts are played from `σ` on, the turns of which are `tss`. -/
structure GivesBack (σ : Session) (uncaught : Tag) (scripts : List Script)
    (tss : List (List Turn)) : Prop where
  ways : Ways scripts tss
  takes : σ.Takes tss.flatten
  alike : (σ.take tss.flatten).Alike (σ.play uncaught scripts)
  /-- However control leaves the body of a block, every scope is then held as before the block. -/
  returned : ∀ {pre us post : List Turn} {b : Block} {bracket : Bracket} {inner : Bool}
    {body : Script} {y : Exit},
    tss.flatten = pre ++ .enter b bracket :: (us ++ .leave bracket :: post) →
    body.Unrolls inner us y → ∀ r,
      (σ.take (pre ++ .enter b bracket :: (us ++ [.leave bracket]))).arena.scopes.hold r =
        (σ.take pre).arena.scopes.hold r
  /-- After any number of the scripts no scope is held. -/
  free : ∀ n, (σ.play uncaught (scripts.take n)).arena.Free
  /-- Outside all blocks that hold a scope, be it in other blocks, none is held either, and nothing
  fails for a hold. -/
  granted : ∀ {pre post : List Turn} {t : Turn}, tss.flatten = pre ++ t :: post →
    (∀ b ∈ opened [] pre, b.holdsNothing = true) → (σ.take pre).arena.Free ∧ ¬ t.Refused

end Session

namespace Machine

variable {c : Machine}

/-- Wherever scripts may be, and however they have come there, the brackets that are open are all
that holds a scope. -/
theorem Reachable.hold_take (hc : c.Reachable) {scripts : List Script} {tss : List (List Turn)}
    (hways : Session.Ways scripts tss) (hts : c.session.Takes tss.flatten) {pre post : List Turn}
    (heq : tss.flatten = pre ++ post) (r : Ref) :
    (c.session.take pre).arena.scopes.hold r = holdOn r (opened c.brackets pre) :=
  (hc.take hways hts heq).heldByOpen.hold_eq r

/-- Scripts give back all they hold, whatever steps and blocks they are made of and in whatever way
control leaves these: at the end of a block the scopes are held as they were at its start, after a
script none is held, and outside the blocks that hold a scope nothing is ever refused. -/
theorem play_gives_back (hc : c.Reachable) (hopen : c.brackets = []) (uncaught : Tag)
    (scripts : List Script) : ∃ tss, c.session.GivesBack uncaught scripts tss := by
  obtain ⟨tss, hways, hts, halike⟩ := Session.exists_ways uncaught scripts c.session
  refine ⟨tss, hways, hts, halike, ?_, ?_, ?_⟩
  · intro pre us post b bracket inner body y heq hbody r
    have hafter : tss.flatten = (pre ++ .enter b bracket :: (us ++ [.leave bracket])) ++ post := by
      simp [heq]
    have hclosed := Turn.opened_block b bracket fun bs => (hbody.closed bs).2
    rw [hc.hold_take hways hts hafter, hc.hold_take hways hts heq, Turn.opened_append, hclosed]
  · intro n
    obtain ⟨σ, brackets⟩ := c
    obtain rfl : brackets = [] := hopen
    have hplayed : Reachable _ := hc.trans (leads_play uncaught (scripts.take n) σ)
    exact hplayed.heldByOpen.free (by simp)
  · intro pre post t heq hopened
    have hpre := hc.take hways hts heq
    have hfree : (c.session.take pre).arena.Free := by
      apply hpre.heldByOpen.free
      rwa [hopen]
    rw [heq, Session.takes_append] at hts
    exact ⟨hfree, Turn.not_refused hts.2.1 hpre.rooted hfree⟩

/-- The global scope is held for writing, inside a block, when control is torn out of both; later a
name is defined in it. -/
def unwinding : List Script :=
  [.step ⟨"global", .scope "g"⟩ (.environment "e" (.bindGlobal "g")) .done,
    .block ⟨"catch", .environment "e"⟩ .catching false
      (.block ⟨"with_scope", .environment "e"⟩ (.scoped "e") true
        (.block ⟨"hold", .scope "g"⟩ (.holding "g" .exclusive []) true
          (.abort ⟨"panic", .scope "g"⟩ .done) .done) .done) .done,
    .step ⟨"define", .scope "g"⟩ (.scope "g" (.define "x" .nil)) .done]

def unwindingTurns : List (List Turn) :=
  [[.step (.environment "e" (.bindGlobal "g")) (.ok .done)],
    [.enter .catching .nothing, .enter (.scoped "e") (.frame "e"),
      .enter (.holding "g" .exclusive []) (.hold 0 .exclusive), .leave (.hold 0 .exclusive),
      .leave (.frame "e"), .leave .nothing],
    [.step (.scope "g" (.define "x" .nil)) (.ok .done)]]

theorem ways_unwinding : Session.Ways unwinding unwindingTurns := by
  refine .cons ⟨.finished, .step (.rest .done)⟩ (.cons ⟨.finished, ?_⟩ (.cons ⟨.finished, ?_⟩ .nil))
  · have hheld : (Script.block ⟨"hold", .scope "g"⟩ (.holding "g" .exclusive []) true
        (.abort ⟨"panic", .scope "g"⟩ .done) .done).Unrolls true
          ((unwindingTurns.flatten.drop 3).take 2) .aborted := .block .abort .ended
    have hscoped : (Script.block ⟨"with_scope", .environment "e"⟩ (.scoped "e") true
        (.block ⟨"hold", .scope "g"⟩ (.holding "g" .exclusive []) true
          (.abort ⟨"panic", .scope "g"⟩ .done) .done) .done).Unrolls false
          ((unwindingTurns.flatten.drop 2).take 4) .aborted := .block hheld .ended
    exact .block (y := .aborted) hscoped (.rest .done)
  · exact .step (.rest .done)

theorem takes_unwinding : (Session.withEnvironment "e").Takes unwindingTurns.flatten :=
  ⟨rfl, ⟨_, rfl⟩, ⟨_, rfl⟩, ⟨_, rfl⟩, trivial, trivial, trivial, rfl, trivial⟩

theorem play_gives_back_unwinding :
    Reachable ⟨.withEnvironment "e", []⟩ ∧
      (Session.withEnvironment "e").GivesBack ⟨"unwound", .environment "e"⟩ unwinding
        unwindingTurns ∧
      ((Session.withEnvironment "e").take (unwindingTurns.flatten.take 4)).arena.scopes.hold 0 =
        .exclusive := by
  have hreach := reachable_withEnvironment "e"
  obtain ⟨tss, h⟩ := play_gives_back hreach rfl ⟨"unwound", .environment "e"⟩ unwinding
  obtain rfl := h.ways.unique ways_unwinding h.takes takes_unwinding
  refine ⟨hreach, h, ?_⟩
  rfl

end Machine

end ScopeChain
