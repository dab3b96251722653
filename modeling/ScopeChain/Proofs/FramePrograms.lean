import ScopeChain.Script
import ScopeChain.Proofs.Frames
import ScopeChain.Proofs.SoundSessions

/-!
Programs on frames. A program works on one environment by its own operations alone, in blocks that
end in any of the ways there are. Played in a session that starts with a new environment, it logs
what it logs when it is played on frames: the scopes that are shared, and the handles to them, make
no difference that can be seen.
-/
namespace ScopeChain

/-- What is done with frames. -/
inductive FrameStep where
  /-- Nothing is done, but how things stand is logged all the same. -/
  | look
  | push
  | pop
  | define (name : String) (v : Value)
  | defineGlobal (name : String) (v : Value)
  | get (t : Token)
  | assign (t : Token) (v : Value)

/-- Steps and blocks in order; a block of its own map, or one that catches an abort. -/
inductive Program where
  | done
  | step (label : String) (s : FrameStep) (rest : Program)
  | abort (label : String) (rest : Program)
  | block (label : String) (strict : Bool) (body rest : Program)
  | catching (label : String) (strict : Bool) (body rest : Program)

/-- An entry of a log without its events. -/
structure Observation where
  label : String
  report : Report
  standing : Standing

def Entry.observation (e : Entry) : Observation := ⟨e.label, e.report, e.standing⟩

/-! ### On frames -/

/-- How deep the frames are, as a stack and as a chain, and how many names the current map binds. -/
def Frames.standing (f : Frames) : Standing :=
  .environment f.depth (some (min f.depth Arena.maxCount, f.top.size))

/-- No map binds the token's lexeme. -/
def Frames.unbound (t : Token) : Fault :=
  .access (.undefined ⟨.undefinedVariable t.lexeme, t.line, t.span⟩)

def FrameStep.perform (s : FrameStep) (f : Frames) : Except Fault Answer × Frames :=
  match s with
  | .look => (.ok .done, f)
  | .push => (.ok .done, f.push)
  | .pop => (.ok .done, f.pop)
  | .define name v => (.ok .done, f.define name v)
  | .defineGlobal name v => (.ok .done, f.defineGlobal name v)
  | .get t =>
    match f.get? t.lexeme with
    | some v => (.ok (.value v), f)
    | none => (.error (Frames.unbound t), f)
  | .assign t v =>
    match f.assign? t.lexeme v with
    | some f' => (.ok .done, f')
    | none => (.error (Frames.unbound t), f)

structure FrameMachine where
  frames : Frames
  log : Array Observation

namespace FrameMachine

/-- One map without bindings, and nothing logged. -/
def start : FrameMachine := ⟨.global ∅, #[]⟩

def record (c : FrameMachine) (label : String) (report : Report) : FrameMachine :=
  { c with log := c.log.push ⟨label, report, c.frames.standing⟩ }

def withFrames (c : FrameMachine) (f : Frames) : FrameMachine := { c with frames := f }

end FrameMachine

namespace Program

/-- A block pushes one map and pops one, in whatever way it ends. -/
def run : Bool → Program → FrameMachine → Exit × FrameMachine
  | _, .done, c => (.finished, c)
  | strict, .step label s rest, c =>
    match s.perform c.frames with
    | (.ok answer, f) => rest.run strict ((c.withFrames f).record label (.answer answer))
    | (.error e, f) => failing strict e (rest.run strict) ((c.withFrames f).record label (.fault e))
  | _, .abort label _, c => (.aborted, c.record label (.answer .done))
  | strict, .block label inner body rest, c =>
    let c := c.withFrames c.frames.push
    let (exit, c) := body.run inner (c.record label (.entered c.frames.depth))
    let c := c.withFrames c.frames.pop
    match exit with
    | .finished => rest.run strict (c.record label (.left none))
    | .failed e => failing strict e (rest.run strict) (c.record label (.left (some e)))
    | .aborted => (.aborted, c)
  | strict, .catching label inner body rest, c =>
    let (exit, c) := body.run inner c
    match exit with
    | .finished => rest.run strict (c.record label (.left none))
    | .failed e => failing strict e (rest.run strict) (c.record label (.left (some e)))
    | .aborted => rest.run strict (c.record label .caught)
where
  /-- A strict program ends at an error. -/
  failing (strict : Bool) (e : Fault) (next : FrameMachine → Exit × FrameMachine)
      (c : FrameMachine) : Exit × FrameMachine :=
    if strict then (.failed e, c) else next c

end Program

/-- Play programs one after another; an abort that nothing catches ends its program alone. -/
def FrameMachine.play (c : FrameMachine) (uncaught : String) : List Program → FrameMachine
  | [] => c
  | p :: ps =>
    match p.run false c with
    | (.aborted, c) => (c.record uncaught (.answer .done)).play uncaught ps
    | (_, c) => c.play uncaught ps

/-! ### On an environment -/

/-- The step that the environment `name` takes. -/
def FrameStep.step (name : String) (s : FrameStep) : Step :=
  match s with
  | .look => .pass
  | .push => .push name 1
  | .pop => .pop name 1
  | .define x v => .environment name (.define x v)
  | .defineGlobal x v => .environment name (.defineGlobal x v)
  | .get t => .environment name (.get t)
  | .assign t v => .environment name (.assign t v)

def Program.script (name : String) : Program → Script
  | .done => .done
  | .step label s rest => .step ⟨label, .environment name⟩ (s.step name) (rest.script name)
  | .abort label rest => .abort ⟨label, .environment name⟩ (rest.script name)
  | .block label strict body rest =>
    .block ⟨label, .environment name⟩ (.scoped name) strict (body.script name) (rest.script name)
  | .catching label strict body rest =>
    .block ⟨label, .environment name⟩ .catching strict (body.script name) (rest.script name)

/-- The environment `name` stands for the frames, and the logs say the same. -/
structure FrameMachine.Shows (c : FrameMachine) (name : String) (σ : Session) : Prop where
  environment : ∃ e, σ.environments[name]? = some e ∧ e.Tracks σ.arena c.frames
  log : σ.log.map Entry.observation = c.log

namespace FrameMachine.Shows

variable {c : FrameMachine} {name : String} {σ : Session}

theorem start (name : String) : FrameMachine.start.Shows name (.withEnvironment name) where
  environment := by
    have hfree : Arena.empty.Free := fun r => Store.hold_of_size_le _ (Nat.zero_le r)
    refine ⟨(Environment.create .empty).1, ?_, Environment.Tracks.create .empty hfree⟩
    exact Std.ExtTreeMap.getElem?_insert_self
  log := Array.map_empty

theorem standing_eq (h : c.Shows name σ) : σ.standing (.environment name) = c.frames.standing := by
  obtain ⟨e, he, htracks⟩ := h.environment
  simp only [Session.standing, he, htracks.depth_eq, htracks.extent_eq, Frames.standing]

theorem record (h : c.Shows name σ) (label : String) (report : Report) :
    (c.record label report).Shows name (σ.record ⟨label, .environment name⟩ report) where
  environment := h.environment
  log := by
    simp only [Session.record, FrameMachine.record, Array.map_push, h.log, Entry.observation,
      h.standing_eq]

/-- An access leaves the environment as it is and may make other frames of its stack. -/
theorem withArena (h : c.Shows name σ) {e : Environment} (he : σ.environments[name]? = some e)
    {a : Arena} {f : Frames} (htracks : e.Tracks a f) :
    (c.withFrames f).Shows name { σ with arena := a } :=
  ⟨⟨e, he, htracks⟩, h.log⟩

theorem restack (h : c.Shows name σ) {change : Environment → Arena → Environment × Arena}
    {e : Environment} {f : Frames}
    (htracks : (change e σ.arena).1.Tracks (change e σ.arena).2 f) :
    (c.withFrames f).Shows name (σ.restack name change e) :=
  ⟨⟨_, Std.ExtTreeMap.getElem?_insert_self, htracks⟩, h.log⟩

theorem access {α : Type} (h : c.Shows name σ) {e : Environment}
    (he : σ.environments[name]? = some e) {act : Arena.Attempt α} (answer : α → Answer)
    {f : Frames} (htracks : e.Tracks (act σ.arena).2 f) :
    (c.withFrames f).Shows name (Session.access act answer σ).2 ∧
      (Session.access act answer σ).1 =
        ((act σ.arena).1.map answer).mapError Fault.access := by
  have hshows := h.withArena he htracks
  unfold Session.access Session.accessThen
  rcases hact : act σ.arena with ⟨result, a⟩
  rw [hact] at hshows
  cases result with
  | ok v => exact ⟨hshows, rfl⟩
  | error f => exact ⟨hshows, rfl⟩

/-- A step answers as it does on frames, and the frames stay those of the environment. -/
theorem perform (h : c.Shows name σ) (s : FrameStep) :
    ((s.step name).perform σ).1 = (s.perform c.frames).1 ∧
      (c.withFrames (s.perform c.frames).2).Shows name ((s.step name).perform σ).2 := by
  obtain ⟨e, he, htracks⟩ := h.environment
  cases s with
  | look => exact ⟨rfl, h⟩
  | push =>
    rw [FrameStep.step, Step.perform, Step.repeated_restack he]
    exact ⟨rfl, h.restack htracks.push⟩
  | pop =>
    rw [FrameStep.step, Step.perform, Step.repeated_restack he]
    exact ⟨rfl, h.restack htracks.pop⟩
  | define x v =>
    obtain ⟨hresult, hdefine⟩ := htracks.define x v
    obtain ⟨hshows, hanswer⟩ := h.access he (fun _ => .done) hdefine
    rw [hresult] at hanswer
    rw [FrameStep.step, Step.perform_environment he]
    exact ⟨hanswer, hshows⟩
  | defineGlobal x v =>
    obtain ⟨hresult, hdefine⟩ := htracks.defineGlobal x v
    obtain ⟨hshows, hanswer⟩ := h.access he (fun _ => .done) hdefine
    rw [hresult] at hanswer
    rw [FrameStep.step, Step.perform_environment he]
    exact ⟨hanswer, hshows⟩
  | get t =>
    obtain ⟨hget, hresult⟩ := htracks.get t
    obtain ⟨hshows, hanswer⟩ := h.access he Answer.value hget
    rw [FrameStep.step, Step.perform_environment he, FrameStep.perform]
    rcases hresult with ⟨v, hv, hok⟩ | ⟨hnone, herror⟩
    · rw [hok] at hanswer
      rw [hv]
      exact ⟨hanswer, hshows⟩
    · rw [herror] at hanswer
      rw [hnone]
      exact ⟨hanswer, hshows⟩
  | assign t v =>
    rw [FrameStep.step, Step.perform_environment he, FrameStep.perform]
    rcases htracks.assign t v with ⟨f', hf', hok, hassign⟩ | ⟨hnone, herror, hassign⟩
    · obtain ⟨hshows, hanswer⟩ := h.access he (fun _ => .done) hassign
      rw [hok] at hanswer
      rw [hf']
      exact ⟨hanswer, hshows⟩
    · obtain ⟨hshows, hanswer⟩ := h.access he (fun _ => .done) hassign
      rw [herror] at hanswer
      rw [hnone]
      exact ⟨hanswer, hshows⟩

theorem enter (h : c.Shows name σ) :
    ∃ τ, (Block.scoped name).enter σ =
        (.ok (.frame name, some (.entered c.frames.push.depth)), τ) ∧
      (c.withFrames c.frames.push).Shows name τ := by
  obtain ⟨e, he, htracks⟩ := h.environment
  have hdepth := htracks.push.depth_eq
  refine ⟨σ.restack name Environment.push e, ?_, h.restack htracks.push⟩
  simp only [Block.enter, Session.onEnvironment, he, Block.enterFrame, hdepth, Session.restack]

theorem leave (h : c.Shows name σ) :
    (c.withFrames c.frames.pop).Shows name ((Bracket.frame name).leave σ) := by
  obtain ⟨e, he, htracks⟩ := h.environment
  have hshows := h.restack htracks.pop
  rw [Bracket.leave, he]
  exact hshows

end FrameMachine.Shows

namespace Program

open FrameMachine (Shows)

variable {c : FrameMachine} {name : String} {σ : Session}

/-- Two results of runs that look the same. -/
def Agree (name : String) (x : Exit × Session) (y : Exit × FrameMachine) : Prop :=
  x.1 = y.1 ∧ y.2.Shows name x.2

theorem agree_failing (h : c.Shows name σ) (strict : Bool) (e : Fault)
    {next : Session → Exit × Session} {next' : FrameMachine → Exit × FrameMachine}
    (hnext : Agree name (next σ) (next' c)) :
    Agree name (Script.run.continueAfter strict e next σ) (run.failing strict e next' c) := by
  cases strict with
  | true => exact ⟨rfl, h⟩
  | false => exact hnext

/-- What follows a block that was left alike: the way out says which of the rest is run. -/
theorem agree_left (h : c.Shows name σ) (strict : Bool) (label : String) (exit : Exit)
    {next : Session → Exit × Session} {next' : FrameMachine → Exit × FrameMachine}
    {aborted : Exit × Session} {aborted' : Exit × FrameMachine}
    (hnext : ∀ {c : FrameMachine} {σ : Session}, c.Shows name σ → Agree name (next σ) (next' c))
    (haborted : Agree name aborted aborted') :
    Agree name
      (match exit with
        | .finished => next (σ.record ⟨label, .environment name⟩ (.left none))
        | .failed e => Script.run.continueAfter strict e next
            (σ.record ⟨label, .environment name⟩ (.left (some e)))
        | .aborted => aborted)
      (match exit with
        | .finished => next' (c.record label (.left none))
        | .failed e => run.failing strict e next' (c.record label (.left (some e)))
        | .aborted => aborted') := by
  cases exit with
  | finished => exact hnext (h.record label (.left none))
  | failed e =>
    have hrecord := h.record label (.left (some e))
    exact agree_failing hrecord strict e (hnext hrecord)
  | aborted => exact haborted

theorem agree_run (p : Program) (strict : Bool) (h : c.Shows name σ) :
    Agree name ((p.script name).run strict σ) (p.run strict c) := by
  induction p generalizing strict c σ with
  | done => exact ⟨rfl, h⟩
  | step label s rest ih =>
    obtain ⟨hresult, hshows⟩ := h.perform s
    unfold script Script.run run
    rcases hleft : (s.step name).perform σ with ⟨answer, τ⟩
    rcases hright : s.perform c.frames with ⟨answer', f⟩
    rw [hleft, hright] at hresult hshows
    obtain rfl : answer = answer' := hresult
    cases answer with
    | ok answer => exact ih strict (hshows.record label (.answer answer))
    | error e =>
      have hrecord := hshows.record label (.fault e)
      exact agree_failing hrecord strict e (ih strict hrecord)
  | abort label rest _ => exact ⟨rfl, h.record label (.answer .done)⟩
  | block label inner body rest ihbody ihrest =>
    obtain ⟨τ, henter, hshows⟩ := h.enter
    obtain ⟨hexit, hbody⟩ := ihbody inner (hshows.record label (.entered c.frames.push.depth))
    have hleft := hbody.leave
    unfold script Script.run run
    rw [henter]
    dsimp only [Option.elim_some]
    rw [hexit]
    exact agree_left hleft strict label _ (ihrest strict) ⟨rfl, hleft⟩
  | catching label inner body rest ihbody ihrest =>
    obtain ⟨hexit, hbody⟩ := ihbody inner h
    unfold script Script.run run
    dsimp only [Block.enter, Option.elim_none]
    rw [hexit]
    exact agree_left hbody strict label _ (ihrest strict)
      (ihrest strict (hbody.record label .caught))

end Program

theorem FrameMachine.Shows.play {c : FrameMachine} {name : String} {σ : Session}
    (h : c.Shows name σ) (uncaught : String) (ps : List Program) :
    (c.play uncaught ps).Shows name
      (σ.play ⟨uncaught, .environment name⟩ (ps.map (Program.script name))) := by
  induction ps generalizing c σ with
  | nil => exact h
  | cons p ps ih =>
    have hrun := p.agree_run false h
    rw [List.map_cons]
    unfold Session.play FrameMachine.play
    rcases hleft : (p.script name).run false σ with ⟨exit, τ⟩
    rcases hright : p.run false c with ⟨exit', d⟩
    rw [hleft, hright] at hrun
    obtain ⟨rfl, hshows⟩ : exit = exit' ∧ d.Shows name τ := hrun
    cases exit with
    | aborted => exact ih (hshows.record uncaught (.answer .done))
    | finished => exact ih hshows
    | failed e => exact ih hshows

namespace Session

/-- In a session that starts with a new environment, whatever programs work on that environment
alone log just what they log on frames: every answer, every error and how deep the stack is, and
how many names the current scope binds. -/
theorem plays_as_frames (name uncaught : String) (ps : List Program) :
    ((withEnvironment name).play ⟨uncaught, .environment name⟩
        (ps.map (Program.script name))).log.map Entry.observation =
      (FrameMachine.start.play uncaught ps).log :=
  ((FrameMachine.Shows.start name).play uncaught ps).log

end Session

end ScopeChain
