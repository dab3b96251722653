import ScopeChain.Proofs.Routes
import ScopeChain.Proofs.Runs

/-!
Misses: names that have been asked for and are bound nowhere. Each is reported once, by the scope at
the end of the walk, and comes back once as an error. So in a run the reports of undefined names and
the errors that its accesses have answered are the same, one by one and in order.
-/
namespace ScopeChain

open Arena (Reports)

/-- What a name has been wanted for. -/
inductive Purpose where
  | reading
  | assigning
  deriving DecidableEq

/-- A name that is not defined, and the line where it is written. -/
structure Miss where
  purpose : Purpose
  name : String
  line : UInt32
  deriving DecidableEq

/-- The miss that an event reports. -/
def Event.miss? : Event → Option Miss
  | .lookupUndefined x line => some ⟨.reading, x, line⟩
  | .assignUndefined x line => some ⟨.assigning, x, line⟩
  | _ => none

/-- How an event appears. -/
def Event.heading (ev : Event) : Level × String := (ev.level, ev.message)

/-- The miss that an error is about. -/
def RuntimeError.miss? (p : Purpose) (e : RuntimeError) : Option Miss :=
  match e.kind with
  | .undefinedVariable x => some ⟨p, x, e.line⟩
  | .custom _ => none

namespace NameAccess

def purpose? : NameAccess → Option Purpose
  | .get _ => some .reading
  | .assign .. => some .assigning
  | .define .. => none

/-- The misses of an access, by how it has failed if it has. -/
def misses (o : Option NameAccess) (f : Option Failure) : List Miss :=
  match o.bind purpose?, f with
  | some p, some (.undefined e) => (e.miss? p).toList
  | _, _ => []

end NameAccess

def ScopeStep.nameAccess? : ScopeStep → Option NameAccess
  | .get t => some (.get t)
  | .define x v => some (.define x v)
  | .assign t v => some (.assign t v)
  | _ => none

def Direct.nameAccess? {m : Mode} : Direct m → Option NameAccess
  | .get t => some (.get t)
  | .define x v => some (.define x v)
  | .assign t v => some (.assign t v)
  | _ => none

/-- How an access has failed, if it has. -/
def Failure.of? {α : Type} : Except Failure α → Option Failure
  | .ok _ => none
  | .error f => some f

/-- How the access behind a step has failed, if it has. -/
def Fault.failure? {α : Type} : Except Fault α → Option Failure
  | .error (.access f) => some f
  | _ => none

def Step.nameAccess? : Step → Option NameAccess
  | .environment _ s => s.nameAccess?
  | .scope _ s => s.nameAccess?
  | _ => none

/-- The misses that the results of the accesses inside a hold tell of. -/
def Direct.misses {m : Mode} (ds : List (Direct m)) (results : List (Except Failure Answer)) :
    List Miss :=
  (List.zipWith (fun d result => NameAccess.misses d.nameAccess? (Failure.of? result)) ds
    results).flatten

def Block.misses (b : Block) (result : Except Fault (Bracket × Option Report)) : List Miss :=
  match b, result with
  | .holding _ _ inner, .ok (_, some (.held results)) => Direct.misses inner results
  | _, _ => []

/-- The undefined names that the move has answered with errors. -/
def Move.misses (m : Move) (c : Machine) : List Miss :=
  match m with
  | .step s => NameAccess.misses s.nameAccess? (Fault.failure? (s.perform c.session).1)
  | .enter b => b.misses (b.enter c.session).1
  | .leave | .record .. => []

/-- The undefined names of a run, in order. -/
def Machine.misses : Machine → List Move → List Miss
  | _, [] => []
  | c, m :: ms => m.misses c ++ (m.perform c).misses ms

namespace Arena

variable {α β : Type} {a b c : Arena} {m : Mode} {r : Ref} {o : NameAccess} {es : List Event}
  {xs ys : List Miss}

/-- From `a` to `b` just these misses have been reported. -/
def Misses (a : Arena) (xs : List Miss) (b : Arena) : Prop :=
  b.trace.toList.filterMap Event.miss? = a.trace.toList.filterMap Event.miss? ++ xs

theorem Misses.of_reports (h : a.Reports es b) : a.Misses (es.filterMap Event.miss?) b := by
  rw [Misses, h, List.filterMap_append]

theorem Misses.trans (h : a.Misses xs b) (h' : b.Misses ys c) : a.Misses (xs ++ ys) c := by
  rw [Misses, h', h, List.append_assoc]

theorem Misses.refl (a : Arena) : a.Misses [] a := .of_reports (.of_trace_eq rfl)

theorem misses_none (o : Option NameAccess) : NameAccess.misses o none = [] := by
  unfold NameAccess.misses
  split
  · next hf => cases hf
  · rfl

/-- What an environment announces is no miss. -/
theorem filterMap_announced (o : NameAccess) (e : Environment) :
    (o.announced e).filterMap Event.miss? = [] := by
  cases o <;> rfl

/-- The error has the name and the line that have been reported. -/
theorem Tells.filterMap_told {first : List Event} {result : Except Failure α}
    (h : a.Tells o first result b) :
    (o.told result).filterMap Event.miss? = NameAccess.misses (some o) (Failure.of? result) := by
  cases result with
  | ok x => cases o <;> rfl
  | error f =>
    cases f with
    | undefined e =>
      have herror := h.error_eq e rfl
      cases o with
      | get t =>
        obtain rfl := Option.some.inj herror
        rfl
      | define x v => cases herror
      | assign t v =>
        obtain rfl := Option.some.inj herror
        rfl
    | refused m => cases o <;> rfl
    | endless => cases o <;> rfl

theorem Tells.misses {first : List Event} {result : Except Failure α}
    (h : a.Tells o first result b) (hfirst : first.filterMap Event.miss? = []) :
    a.Misses (NameAccess.misses (some o) (Failure.of? result)) b := by
  have hmisses := Misses.of_reports h.reports
  rwa [List.filterMap_append, hfirst, List.nil_append, h.filterMap_told] at hmisses

theorem trace_nest (n : Nat) (r : Ref) (a : Arena) : (a.nest n r).2.trace = a.trace := by
  induction n generalizing r a with
  | zero => rfl
  | succ n ih => exact ih _ _

end Arena

open Arena (Misses Silent)

/-! ### Steps -/

namespace Session

variable {α : Type}

/-- The attempt reports no miss, whether it succeeds or not. -/
def MissFree (act : Attempt α) : Prop := ∀ σ : Session, σ.arena.Misses [] (act σ).2.arena

theorem access_mapAnswer (act : Arena.Attempt α) (answer : α → Answer) :
    access (Arena.mapAnswer answer act) id = access act answer := by
  funext σ
  unfold access accessThen Arena.mapAnswer
  cases hresult : (act σ.arena).1 <;> simp only [hresult] <;> rfl

theorem failure?_access (act : Arena.Attempt Answer) (σ : Session) :
    Fault.failure? (access act id σ).1 = Failure.of? (act σ.arena).1 := by
  rw [access_fst]
  cases (act σ.arena).1 <;> rfl

theorem missFree_onScope (name : String) {act : Ref → Attempt α} (hact : ∀ r, MissFree (act r)) :
    MissFree (onScope name act) :=
  fun σ => onScope_cases (P := fun outcome => σ.arena.Misses [] outcome.2.arena) name (.refl _)
    fun r _ => hact r σ

theorem missFree_onEnvironment (name : String) {act : Environment → Attempt α}
    (hact : ∀ e, MissFree (act e)) : MissFree (onEnvironment name act) :=
  fun σ => onEnvironment_cases (P := fun outcome => σ.arena.Misses [] outcome.2.arena) name
    (.refl _) fun e _ => hact e σ

theorem missFree_repeated {act : Attempt Answer} (hact : MissFree act) (n : Nat) :
    MissFree (repeated act n) :=
  repeated_rel (R := fun σ τ => σ.arena.Misses [] τ.arena) (fun _ => .refl _)
    (fun _ _ _ h h' => h.trans h') hact n

end Session

namespace Environment

variable (e : Environment) (a : Arena)

theorem misses_pushIn (r : Ref) : a.Misses [] (e.pushIn r a).2 := by
  have hemit := Arena.reports_emit (.pushCallScope (e.depth + 1)) (a.newChild r).2
  exact .of_reports hemit

theorem misses_push : a.Misses [] (e.push a).2 := by
  have hemit := Arena.reports_emit (.pushScope (e.depth + 1)) (a.newChild e.current).2
  exact .of_reports hemit

theorem misses_pop : a.Misses [] (e.pop a).2 := by
  unfold pop
  split
  · exact .of_reports (Arena.reports_emit _ a)
  · exact .refl a

end Environment

namespace EnvironmentStep

variable {s : EnvironmentStep}

theorem perform_eq_access {o : NameAccess} (h : s.nameAccess? = some o) (e : Environment) :
    s.perform e = Session.access (o.byEnvironment e) id := by
  cases s with
  | get t =>
    obtain rfl := Option.some.inj h
    exact (Session.access_mapAnswer _ _).symm
  | define x v =>
    obtain rfl := Option.some.inj h
    exact (Session.access_mapAnswer _ _).symm
  | assign t v =>
    obtain rfl := Option.some.inj h
    exact (Session.access_mapAnswer _ _).symm
  | _ => cases h

theorem misses (s : EnvironmentStep) (e : Environment) (σ : Session) :
    σ.arena.Misses (NameAccess.misses s.nameAccess? (Fault.failure? (s.perform e σ).1))
      (s.perform e σ).2.arena := by
  cases hs : s.nameAccess? with
  | none => exact .of_reports (EnvironmentStep.silent hs e σ)
  | some o =>
    rw [perform_eq_access hs, Session.failure?_access, Session.arena_access]
    exact (Arena.tells_byEnvironment o e σ.arena).misses (Arena.filterMap_announced o e)

end EnvironmentStep

namespace ScopeStep

variable {s : ScopeStep}

theorem perform_eq_access {o : NameAccess} (h : s.nameAccess? = some o) (r : Ref) :
    s.perform r = Session.access (o.byHandle r) id := by
  cases s with
  | get t =>
    obtain rfl := Option.some.inj h
    exact (Session.access_mapAnswer _ _).symm
  | define x v =>
    obtain rfl := Option.some.inj h
    exact (Session.access_mapAnswer _ _).symm
  | assign t v =>
    obtain rfl := Option.some.inj h
    exact (Session.access_mapAnswer _ _).symm
  | _ => cases h

theorem silent (h : s.nameAccess? = none) (r : Ref) (σ : Session) :
    σ.arena.Reports [] (s.perform r σ).2.arena := by
  cases s with
  | get t => cases h
  | define x v => cases h
  | assign t v => cases h
  | child x times =>
    refine Session.silent_accessThen (fun a => ?_) (fun _ _ => rfl) σ
    exact .of_trace_eq (Arena.trace_nest times r a)
  | copy x => exact Session.silent_accessThen (Arena.silent_copy r) (fun _ _ => rfl) σ
  | parent x =>
    refine Session.silent_accessThen (Arena.silent_inspect r Scope.parent) (fun p τ => ?_) σ
    cases p with
    | none => rfl
    | some p => cases x <;> rfl
  | binds x => exact Session.silent_access (Arena.silent_inspect r _) _ σ
  | depth => exact Session.silent_access (Arena.silent_depth r) _ σ
  | size => exact Session.silent_access (Arena.silent_inspect r _) _ σ
  | list names => exact Session.silent_access (Arena.silent_list r names) _ σ
  | inspect layout => exact Session.silent_inspect _ _ _ σ
  | inspectInner layout => exact Session.silent_inspect _ _ _ σ
  | share x => exact .of_trace_eq rfl

theorem misses (s : ScopeStep) (r : Ref) (σ : Session) :
    σ.arena.Misses (NameAccess.misses s.nameAccess? (Fault.failure? (s.perform r σ).1))
      (s.perform r σ).2.arena := by
  cases hs : s.nameAccess? with
  | none => exact .of_reports (s.silent hs r σ)
  | some o =>
    rw [perform_eq_access hs, Session.failure?_access, Session.arena_access]
    exact (Arena.tells_byHandle o r σ.arena).misses rfl

end ScopeStep

namespace Step

open Session (MissFree)

theorem missFree_restack (name : String) {change : Environment → Arena → Environment × Arena}
    (hchange : ∀ e (a : Arena), a.Misses [] (change e a).2) : MissFree (restack name change) :=
  Session.missFree_onEnvironment name fun e σ => hchange e σ.arena

theorem misses (s : Step) (σ : Session) :
    σ.arena.Misses (NameAccess.misses s.nameAccess? (Fault.failure? (s.perform σ).1))
      (s.perform σ).2.arena := by
  cases s with
  | environment name s =>
    refine Session.onEnvironment_cases (P := fun outcome => σ.arena.Misses
      (NameAccess.misses s.nameAccess? (Fault.failure? outcome.1)) outcome.2.arena) name ?_
      fun e _ => s.misses e σ
    rw [show Fault.failure? (.error .unknownEnvironment : Except Fault Answer) = none from rfl,
      Arena.misses_none]
    exact .refl _
  | scope name s =>
    refine Session.onScope_cases (P := fun outcome => σ.arena.Misses
      (NameAccess.misses s.nameAccess? (Fault.failure? outcome.1)) outcome.2.arena) name ?_
      fun r _ => s.misses r σ
    rw [show Fault.failure? (.error .unknownScope : Except Fault Answer) = none from rfl,
      Arena.misses_none]
    exact .refl _
  | push name times =>
    exact Session.missFree_repeated (missFree_restack name Environment.misses_push) times σ
  | pushIn name parent =>
    exact Session.missFree_onScope parent
      (fun r => missFree_restack name fun e a => e.misses_pushIn a r) σ
  | pop name times =>
    exact Session.missFree_repeated (missFree_restack name Environment.misses_pop) times σ
  | same left right =>
    exact Session.missFree_onScope left
      (fun r => Session.missFree_onScope right fun q σ => .refl _) σ
  | _ => exact .refl _

end Step

/-! ### Blocks -/

namespace Direct

variable {m : Mode}

theorem inside_of_nameAccess? {d : Direct m} {o : NameAccess} (h : d.nameAccess? = some o) :
    o.inside m = some d := by
  cases d with
  | get t =>
    obtain rfl := Option.some.inj h
    cases m <;> rfl
  | define x v =>
    obtain rfl := Option.some.inj h
    rfl
  | assign t v =>
    obtain rfl := Option.some.inj h
    rfl
  | _ => cases h

theorem misses_perform (d : Direct m) (r : Ref) (a : Arena) :
    a.Misses (NameAccess.misses d.nameAccess? (Failure.of? (d.perform r a).1))
      (d.perform r a).2 := by
  cases hd : d.nameAccess? with
  | some o => exact (Arena.tells_inside (inside_of_nameAccess? hd) r a).misses rfl
  | none =>
    cases d with
    | depth => exact .of_reports (Arena.silent_depthInside a.fuel r a)
    | binds x => exact .refl a
    | size => exact .refl a
    | _ => cases hd

theorem misses_performAll (ds : List (Direct m)) (r : Ref) (a : Arena) :
    a.Misses (Direct.misses ds (Direct.performAll ds r a).1) (Direct.performAll ds r a).2 := by
  induction ds generalizing a with
  | nil => exact .refl a
  | cons d ds ih => exact (d.misses_perform r a).trans (ih _)

end Direct

theorem Block.misses_enter (b : Block) (σ : Session) :
    σ.arena.Misses (b.misses (b.enter σ).1) (b.enter σ).2.arena := by
  match b with
  | .scoped name =>
    exact Session.missFree_onEnvironment name (fun e σ => e.misses_push σ.arena) σ
  | .scopedIn name parent =>
    exact Session.missFree_onScope parent (fun r =>
      Session.missFree_onEnvironment name fun e σ => e.misses_pushIn σ.arena r) σ
  | .holding name m inner =>
    refine Session.onScope_cases (P := fun outcome => σ.arena.Misses
      ((Block.holding name m inner).misses outcome.1) outcome.2.arena) name (.refl _) fun r _ => ?_
    split
    · exact Direct.misses_performAll inner r (σ.arena.acquire r m)
    · exact .refl _
  | .catching => exact .refl _

theorem Bracket.misses_leave (b : Bracket) (σ : Session) :
    σ.arena.Misses [] (b.leave σ).arena := by
  cases b with
  | frame name =>
    cases he : σ.environments[name]? with
    | none =>
      simp only [leave, he]
      exact .refl _
    | some e =>
      simp only [leave, he]
      exact e.misses_pop σ.arena
  | hold r m => exact .of_reports (.of_trace_eq rfl)
  | nothing => exact .refl _

/-! ### Runs -/

theorem Move.misses_perform (m : Move) (c : Machine) :
    c.session.arena.Misses (m.misses c) (m.perform c).session.arena := by
  cases m with
  | step s => exact s.misses c.session
  | enter b =>
    rw [session_enter]
    exact b.misses_enter c.session
  | leave =>
    rw [Move.perform]
    split
    · exact .refl _
    · exact Bracket.misses_leave _ _
  | record tag report => exact .refl _

namespace Machine

theorem misses_run (c : Machine) (ms : List Move) :
    c.session.arena.Misses (c.misses ms) (c.run ms).session.arena := by
  induction ms generalizing c with
  | nil => exact .refl _
  | cons m ms ih => exact (m.misses_perform c).trans (ih _)

/-- Whatever is held and by whatever route, an access to a name reports that the name is undefined
once if that is what it answers, with the name and the line of the token, and otherwise nothing. An
environment announces in addition that it defines or assigns, however that ends, but not that it
defines a global name. So in a run the undefined names that are reported are those that reading and
assigning have answered with errors, in the same order. -/
theorem names_are_reported_exactly :
    (∀ (a : Arena) (o : NameAccess),
      (∀ r, a.Tells o [] (o.byHandle r a).1 (o.byHandle r a).2) ∧
      (∀ r m d, o.inside m = some d → a.Tells o [] (d.perform r a).1 (d.perform r a).2) ∧
      ∀ e, a.Tells o (o.announced e) (o.byEnvironment e a).1 (o.byEnvironment e a).2) ∧
    (∀ (a : Arena) (e : Environment) x v, a.Reports [] (e.defineGlobal x v a).2) ∧
    (∀ x line depth,
      (Event.lookupUndefined x line).heading = (.debug, "lookup of undefined variable") ∧
      (Event.assignUndefined x line).heading = (.debug, "assignment to undefined variable") ∧
      (Event.assign x line).heading = (.trace, "assign") ∧
      (Event.define x depth).heading = (.trace, "define")) ∧
    ∀ (c : Machine) (ms : List Move),
      c.session.arena.Misses (c.misses ms) (c.run ms).session.arena := by
  refine ⟨fun a o => ⟨?_, ?_, ?_⟩, ?_, ?_, misses_run⟩
  · exact fun r => Arena.tells_byHandle o r a
  · exact fun r m d hd => Arena.tells_inside hd r a
  · exact fun e => Arena.tells_byEnvironment o e a
  · exact fun a e x v => Arena.silent_define e.global x v a
  · exact fun x line depth => ⟨rfl, rfl, rfl, rfl⟩

/-- From two blocks inside the global scope a name is read that nothing binds, and inside a hold of
the inner one it is assigned to before and after it is defined there. -/
def missing : List Move :=
  [.step (.newEnvironment "e"), .step (.push "e" 2),
    .step (.environment "e" (.get (.identifier "y" 7))),
    .step (.environment "e" (.capture "inner")),
    .enter (.holding "inner" .exclusive
      [.assign (.identifier "y" 8) .nil, .define "y" .nil, .assign (.identifier "y" 9) .nil])]

theorem names_are_reported_exactly_missing :
    start.misses missing = [⟨.reading, "y", 7⟩, ⟨.assigning, "y", 8⟩] ∧
      start.session.arena.Misses [⟨.reading, "y", 7⟩, ⟨.assigning, "y", 8⟩]
        (start.run missing).session.arena := by
  have hmisses : start.misses missing = [⟨.reading, "y", 7⟩, ⟨.assigning, "y", 8⟩] := by
    decide +kernel
  obtain ⟨-, -, -, hrun⟩ := names_are_reported_exactly
  refine ⟨hmisses, ?_⟩
  rw [← hmisses]
  exact hrun start missing

end Machine

end ScopeChain
