import ScopeChain.Proofs.Runs

/-!
Turns: what happens in a run, one thing after the other, with the result of each. Nothing that is
done looks at the log or adds to it, so a session takes the same turns whatever has been logged.
-/
namespace ScopeChain

namespace Session

def withLog (σ : Session) (log : Array Entry) (reported : Nat) : Session :=
  { σ with log, reported }

/-- The sessions differ in their logs at most. -/
def Alike (σ τ : Session) : Prop := ∃ log reported, τ = σ.withLog log reported

/-- What is attempted has nothing to do with the log. -/
def LogFree {α : Type} (act : Attempt α) : Prop :=
  ∀ σ log reported, act (σ.withLog log reported) = ((act σ).1, (act σ).2.withLog log reported)

variable {α : Type} {σ τ υ : Session}

theorem Alike.refl (σ : Session) : σ.Alike σ := ⟨σ.log, σ.reported, rfl⟩

theorem Alike.trans (h : σ.Alike τ) (h' : τ.Alike υ) : σ.Alike υ := by
  obtain ⟨_, _, rfl⟩ := h
  obtain ⟨log, reported, rfl⟩ := h'
  exact ⟨log, reported, rfl⟩

theorem alike_record (σ : Session) (tag : Tag) (report : Report) : σ.Alike (σ.record tag report) :=
  ⟨_, _, rfl⟩

theorem Alike.arena_eq (h : σ.Alike τ) : τ.arena = σ.arena := by
  obtain ⟨_, _, rfl⟩ := h
  rfl

theorem Alike.environments_eq (h : σ.Alike τ) : τ.environments = σ.environments := by
  obtain ⟨_, _, rfl⟩ := h
  rfl

theorem Alike.scopes_eq (h : σ.Alike τ) : τ.scopes = σ.scopes := by
  obtain ⟨_, _, rfl⟩ := h
  rfl

/-! ### Attempts -/

theorem logFree_accessThen (act : Arena.Attempt α) {finish : α → Session → Answer × Session}
    (hfinish : ∀ v σ log reported, finish v (σ.withLog log reported) =
      ((finish v σ).1, (finish v σ).2.withLog log reported)) : LogFree (accessThen act finish) := by
  intro σ log reported
  unfold accessThen
  cases hact : (act σ.arena).1 with
  | ok v =>
    have hfin := hfinish v { σ with arena := (act σ.arena).2 } log reported
    simp only [withLog] at hfin
    simp only [withLog, hact, hfin]
  | error f => simp only [withLog, hact]

theorem logFree_access (act : Arena.Attempt α) (answer : α → Answer) :
    LogFree (access act answer) :=
  logFree_accessThen act fun _ _ _ _ => rfl

theorem logFree_inspect (r : Ref) (write : Outline → Option Doc) (layout : Layout) :
    LogFree (inspect r write layout) := by
  intro σ log reported
  simp only [inspect, withLog]
  cases σ.arena.outline r with
  | error f => rfl
  | ok o =>
    cases ho : o.isOrderFree with
    | false => simp only [ho, Bool.false_eq_true, if_false]
    | true =>
      simp only [ho, if_true]
      cases write o <;> rfl

theorem logFree_onScope (name : String) {act : Ref → Attempt α} (hact : ∀ r, LogFree (act r)) :
    LogFree (onScope name act) := by
  intro σ log reported
  cases hr : σ.scopes[name]? with
  | none => simp only [onScope, withLog, hr]
  | some r => simpa only [onScope, withLog, hr] using hact r σ log reported

theorem logFree_onEnvironment (name : String) {act : Environment → Attempt α}
    (hact : ∀ e, LogFree (act e)) : LogFree (onEnvironment name act) := by
  intro σ log reported
  cases he : σ.environments[name]? with
  | none => simp only [onEnvironment, withLog, he]
  | some e => simpa only [onEnvironment, withLog, he] using hact e σ log reported

theorem logFree_repeated {act : Attempt Answer} (hact : LogFree act) (n : Nat) :
    LogFree (repeated act n) := by
  induction n with
  | zero => exact fun _ _ _ => rfl
  | succ n ih =>
    intro σ log reported
    simp only [repeated, hact σ log reported]
    rcases act σ with ⟨answer | f, τ⟩
    · rfl
    · exact ih τ log reported

end Session

open Session (LogFree)

theorem EnvironmentStep.logFree (s : EnvironmentStep) (e : Environment) :
    LogFree (s.perform e) := by
  unfold perform
  cases s with
  | child name => exact fun _ _ _ => rfl
  | bindGlobal name => exact fun _ _ _ => rfl
  | capture name => exact fun _ _ _ => rfl
  | inspect layout => exact Session.logFree_inspect _ _ _
  | _ => exact Session.logFree_access _ _

theorem ScopeStep.logFree (s : ScopeStep) (r : Ref) : LogFree (s.perform r) := by
  unfold perform
  cases s with
  | child name times => exact Session.logFree_accessThen _ fun _ _ _ _ => rfl
  | share name => exact fun _ _ _ => rfl
  | copy name => exact Session.logFree_accessThen _ fun _ _ _ _ => rfl
  | parent name =>
    refine Session.logFree_accessThen _ fun parent σ log reported => ?_
    cases parent <;> cases name <;> rfl
  | inspect layout => exact Session.logFree_inspect _ _ _
  | inspectInner layout => exact Session.logFree_inspect _ _ _
  | _ => exact Session.logFree_access _ _

theorem Step.logFree (s : Step) : LogFree s.perform := by
  cases s with
  | environment name s => exact Session.logFree_onEnvironment name fun e => s.logFree e
  | scope name s => exact Session.logFree_onScope name fun r => s.logFree r
  | push name times =>
    exact Session.logFree_repeated (Session.logFree_onEnvironment name fun _ _ _ _ => rfl) times
  | pushIn name parent =>
    exact Session.logFree_onScope parent fun _ =>
      Session.logFree_onEnvironment name fun _ _ _ _ => rfl
  | pop name times =>
    exact Session.logFree_repeated (Session.logFree_onEnvironment name fun _ _ _ _ => rfl) times
  | same left right =>
    exact Session.logFree_onScope left fun _ => Session.logFree_onScope right fun _ _ _ _ => rfl
  | _ => exact fun _ _ _ => rfl

theorem Block.logFree (b : Block) : LogFree b.enter := by
  match b with
  | .scoped name => exact Session.logFree_onEnvironment name fun _ _ _ _ => rfl
  | .scopedIn name parent =>
    exact Session.logFree_onScope parent fun _ =>
      Session.logFree_onEnvironment name fun _ _ _ _ => rfl
  | .holding name m inner =>
    refine Session.logFree_onScope name fun r σ log reported => ?_
    by_cases hgrant : σ.arena.scopes.grants r m = true <;> simp [Session.withLog, hgrant]
  | .catching => exact fun _ _ _ => rfl

theorem Bracket.leave_withLog (b : Bracket) (σ : Session) (log : Array Entry) (reported : Nat) :
    b.leave (σ.withLog log reported) = (b.leave σ).withLog log reported := by
  cases b with
  | frame name =>
    cases he : σ.environments[name]? with
    | none => simp only [leave, Session.withLog, he]
    | some e =>
      simp only [leave, Session.withLog, he]
      rfl
  | hold r m => rfl
  | nothing => rfl

/-! ### Blocks -/

/-- The environment whose stack a block opens a scope on. -/
def Block.frame? : Block → Option String
  | .scoped name | .scopedIn name _ => some name
  | .holding .. | .catching => none

/-- The environment with some more scopes on its stack. -/
def Environment.topped (rs : List Ref) (e : Environment) : Environment :=
  { e with stack := rs ++ e.stack }

/-- All that may come of entering a block. -/
inductive Block.Enters (σ : Session) :
    Block → Except Fault (Bracket × Option Report) × Session → Prop
  | refused {b : Block} {f : Fault} : Enters σ b (.error f, σ)
  | frame {b : Block} {name : String} {e : Environment}
      (change : Environment → Arena → Environment × Arena) (hframe : b.frame? = some name)
      (he : σ.environments[name]? = some e)
      (hchange : (change e σ.arena).1 = e.topped [σ.arena.scopes.size]) :
      Enters σ b (.ok (.frame name, some (.entered (e.depth + 1))), σ.restack name change e)
  | hold {name : String} {m : Mode} {inner : List (Direct m)} {r : Ref} {report : Report}
      {arena : Arena} :
      Enters σ (.holding name m inner) (.ok (.hold r m, some report), { σ with arena })
  | nothing : Enters σ .catching (.ok (.nothing, none), σ)

theorem Block.enters (b : Block) (σ : Session) : b.Enters σ (b.enter σ) := by
  match b with
  | .scoped name =>
    cases he : σ.environments[name]? with
    | none =>
      simp only [enter, Session.onEnvironment, he]
      exact .refused
    | some e =>
      simp only [enter, Session.onEnvironment, he]
      exact .frame Environment.push rfl he rfl
  | .scopedIn name parent =>
    cases hr : σ.scopes[parent]? with
    | none =>
      simp only [enter, Session.onScope, hr]
      exact .refused
    | some r =>
      cases he : σ.environments[name]? with
      | none =>
        simp only [enter, Session.onScope, Session.onEnvironment, hr, he]
        exact .refused
      | some e =>
        simp only [enter, Session.onScope, Session.onEnvironment, hr, he]
        exact .frame (fun e => e.pushIn r) rfl he rfl
  | .holding name m inner =>
    cases hr : σ.scopes[name]? with
    | none =>
      simp only [enter, Session.onScope, hr]
      exact .refused
    | some r =>
      by_cases hgrant : σ.arena.scopes.grants r m = true
      · simp only [enter, Session.onScope, hr, hgrant, if_true]
        exact .hold
      · simp only [enter, Session.onScope, hr, hgrant]
        exact .refused
  | .catching => exact .nothing

/-! ### Turns -/

/-- One thing that happens in a run. -/
inductive Turn where
  | step (s : Step) (result : Except Fault Answer)
  | refuse (b : Block) (f : Fault)
  | enter (b : Block) (bracket : Bracket)
  | leave (bracket : Bracket)

namespace Turn

def perform (t : Turn) (σ : Session) : Session :=
  match t with
  | .step s _ => (s.perform σ).2
  | .refuse b _ | .enter b _ => (b.enter σ).2
  | .leave bracket => bracket.leave σ

/-- What happens in the session is this turn, with its result. -/
def Holds (t : Turn) (σ : Session) : Prop :=
  match t with
  | .step s result => (s.perform σ).1 = result
  | .refuse b f => (b.enter σ).1 = .error f
  | .enter b bracket => ∃ entry, (b.enter σ).1 = .ok (bracket, entry)
  | .leave _ => True

theorem perform_withLog (t : Turn) (σ : Session) (log : Array Entry) (reported : Nat) :
    t.perform (σ.withLog log reported) = (t.perform σ).withLog log reported := by
  cases t with
  | step s result => exact congrArg Prod.snd (s.logFree σ log reported)
  | refuse b f => exact congrArg Prod.snd (b.logFree σ log reported)
  | enter b bracket => exact congrArg Prod.snd (b.logFree σ log reported)
  | leave bracket => exact bracket.leave_withLog σ log reported

theorem holds_withLog (t : Turn) (σ : Session) (log : Array Entry) (reported : Nat) :
    t.Holds (σ.withLog log reported) ↔ t.Holds σ := by
  cases t with
  | step s result => simp only [Holds, s.logFree σ log reported]
  | refuse b f => simp only [Holds, b.logFree σ log reported]
  | enter b bracket => simp only [Holds, b.logFree σ log reported]
  | leave bracket => exact Iff.rfl

theorem perform_grows (t : Turn) {σ : Session} (hσ : σ.Sound) :
    Session.Follows Arena.Grows σ (t.perform σ) := by
  cases t with
  | step s result => exact s.perform_grows hσ
  | refuse b f => exact b.enter_grows hσ
  | enter b bracket => exact b.enter_grows hσ
  | leave bracket => exact bracket.leave_grows hσ

end Turn

namespace Session

/-- Where some turns lead. -/
def take (σ : Session) (ts : List Turn) : Session := ts.foldl (fun σ t => t.perform σ) σ

/-- Some turns, each with its result, are what happens from a session on. -/
def Takes : Session → List Turn → Prop
  | _, [] => True
  | σ, t :: ts => t.Holds σ ∧ (t.perform σ).Takes ts

variable {σ τ : Session} {t : Turn} {ts us : List Turn}

@[simp] theorem take_cons (σ : Session) (t : Turn) (ts : List Turn) :
    σ.take (t :: ts) = (t.perform σ).take ts := rfl

theorem take_append (σ : Session) (ts us : List Turn) : σ.take (ts ++ us) = (σ.take ts).take us :=
  List.foldl_append

theorem takes_append : σ.Takes (ts ++ us) ↔ σ.Takes ts ∧ (σ.take ts).Takes us := by
  induction ts generalizing σ with
  | nil => simp [Takes, take]
  | cons t ts ih => simp [Takes, ih, and_assoc]

theorem Alike.take (h : σ.Alike τ) (ts : List Turn) : (σ.take ts).Alike (τ.take ts) := by
  obtain ⟨log, reported, rfl⟩ := h
  induction ts generalizing σ with
  | nil => exact ⟨log, reported, rfl⟩
  | cons t ts ih =>
    rw [take_cons, take_cons, t.perform_withLog]
    exact ih

theorem Alike.takes_iff (h : σ.Alike τ) (ts : List Turn) : τ.Takes ts ↔ σ.Takes ts := by
  obtain ⟨log, reported, rfl⟩ := h
  induction ts generalizing σ with
  | nil => exact Iff.rfl
  | cons t ts ih => rw [Takes, Takes, t.holds_withLog, t.perform_withLog, ih]

theorem Sound.take (h : σ.Sound) (ts : List Turn) : Follows Arena.Grows σ (σ.take ts) := by
  induction ts generalizing σ with
  | nil => exact (Follows.refl h).grows
  | cons t ts ih =>
    have hfirst := t.perform_grows h
    have hrest := ih hfirst.sound
    exact ⟨hrest.sound, hfirst.arena.trans hrest.arena⟩

end Session

end ScopeChain
