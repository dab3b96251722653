import ScopeChain.Script
import ScopeChain.Proofs.SoundSessions

/-!
Runs, move by move. A machine is a session with the brackets that are open in it; a move performs
a step, enters a block or leaves the innermost open one. Every script is such a run, so a property
that each move preserves holds wherever a script may be.
-/
namespace ScopeChain

open Arena (Grows Keeps)
open Session (Follows)

/-- A session and the brackets that are open in it, innermost first. -/
structure Machine where
  session : Session
  brackets : List Bracket

/-- What may happen next. Nothing is left when no bracket is open, and a refused
block opens none. -/
inductive Move where
  | step (s : Step)
  | enter (b : Block)
  | leave
  | record (tag : Tag) (report : Report)

def Move.perform (m : Move) (c : Machine) : Machine :=
  match m with
  | .step s => { c with session := (s.perform c.session).2 }
  | .enter b =>
    match b.enter c.session with
    | (.ok (bracket, _), σ) => ⟨σ, bracket :: c.brackets⟩
    | (.error _, σ) => { c with session := σ }
  | .leave =>
    match c.brackets with
    | [] => c
    | b :: brackets => ⟨b.leave c.session, brackets⟩
  | .record tag report => { c with session := c.session.record tag report }

namespace Machine

/-- No scope, no name and nothing open. -/
def start : Machine := ⟨.empty, []⟩

def run (c : Machine) (ms : List Move) : Machine := ms.foldl (fun c m => m.perform c) c

/-- Some run leads from the one to the other. -/
def Leads (c d : Machine) : Prop := ∃ ms, c.run ms = d

def Reachable (c : Machine) : Prop := start.Leads c

variable {c d e : Machine}

theorem run_append (c : Machine) (ms ns : List Move) : c.run (ms ++ ns) = (c.run ms).run ns :=
  List.foldl_append

theorem Leads.refl (c : Machine) : c.Leads c := ⟨[], rfl⟩

theorem Leads.trans (h : c.Leads d) (h' : d.Leads e) : c.Leads e := by
  obtain ⟨ms, rfl⟩ := h
  obtain ⟨ns, rfl⟩ := h'
  exact ⟨ms ++ ns, run_append c ms ns⟩

theorem Leads.move (c : Machine) (m : Move) : c.Leads (m.perform c) := ⟨[m], rfl⟩

/-- What every move preserves holds at the end of a run if it holds at its start. -/
theorem Leads.induction {P : Machine → Prop}
    (hmove : ∀ (c : Machine) (m : Move), P c → P (m.perform c)) (h : c.Leads d) (hc : P c) :
    P d := by
  obtain ⟨ms, rfl⟩ := h
  induction ms generalizing c with
  | nil => exact hc
  | cons m ms ih => exact ih (hmove c m hc)

end Machine

/-! ### Blocks -/

theorem Direct.perform_grows {m : Mode} (d : Direct m) (r : Ref) (a : Arena) :
    Grows a (d.perform r a).2 := by
  cases d with
  | get t => exact ((Arena.reads_getInside a.fuel r t).keeps a).toGrows
  | binds name => exact .refl a
  | depth => exact ((Arena.reads_depthInside a.fuel r).keeps a).toGrows
  | size => exact .refl a
  | define name v => exact (Arena.writes_defineInside r name v).grows a
  | assign t v => exact (Arena.writes_assignInside a.fuel r t v).grows a

theorem Direct.performAll_grows {m : Mode} (ds : List (Direct m)) (r : Ref) (a : Arena) :
    Grows a (Direct.performAll ds r a).2 := by
  induction ds generalizing a with
  | nil => exact .refl a
  | cons d ds ih => exact (d.perform_grows r a).trans (ih _)

/-- The blocks that hold no scope while they run. -/
def Block.holdsNothing : Block → Bool
  | .holding .. => false
  | _ => true

variable {σ : Session}

theorem Block.enter_keeps (b : Block) (hb : b.holdsNothing = true) (hσ : σ.Sound) :
    Follows Keeps σ (b.enter σ).2 := by
  match b with
  | .scoped name =>
    refine Session.onEnvironment_follows (.refl _) hσ name fun e he => ?_
    exact Session.restack_follows hσ name he.push
  | .scopedIn name parent =>
    refine Session.onScope_follows (.refl _) hσ parent fun r hr => ?_
    refine Session.onEnvironment_follows (.refl _) hσ name fun e he => ?_
    show Follows Keeps σ (Session.restack name (fun e => e.pushIn r) e σ)
    exact Session.restack_follows hσ name (he.pushIn hr)
  | .holding scope m inner => cases hb
  | .catching => exact .refl hσ

theorem Block.enter_holding_grows (name : String) (m : Mode) (inner : List (Direct m))
    (hσ : σ.Sound) : Follows Grows σ ((Block.holding name m inner).enter σ).2 := by
  refine Session.onScope_follows (.refl _) hσ name fun r _ => ?_
  by_cases hgrant : σ.arena.scopes.grants r m = true
  · have hheld : Grows σ.arena (σ.arena.acquire r m) :=
      .of_parents (Store.size_acquire _ r m) fun q => by rw [Arena.scope_acquire]
    have hgrows := hheld.trans (Direct.performAll_grows inner r (σ.arena.acquire r m))
    simp only [hgrant, if_true]
    exact ⟨hσ.of_grows hgrows, hgrows⟩
  · simp only [hgrant, Bool.false_eq_true, if_false]
    exact ⟨hσ, .refl _⟩

theorem Block.enter_grows (b : Block) (hσ : σ.Sound) : Follows Grows σ (b.enter σ).2 := by
  match b with
  | .holding name m inner => exact enter_holding_grows name m inner hσ
  | .scoped name => exact (enter_keeps (.scoped name) rfl hσ).grows
  | .scopedIn name parent => exact (enter_keeps (.scopedIn name parent) rfl hσ).grows
  | .catching => exact (Follows.refl hσ).grows

theorem Bracket.leave_frame_keeps (name : String) (hσ : σ.Sound) :
    Follows Keeps σ ((Bracket.frame name).leave σ) := by
  cases hname : σ.environments[name]? with
  | none => simpa [Bracket.leave, hname] using Follows.refl hσ
  | some e =>
    have he := hσ.environment_within name e hname
    simpa [Bracket.leave, hname] using Session.restack_follows hσ name he.pop

theorem Bracket.leave_hold_grows (r : Ref) (m : Mode) (hσ : σ.Sound) :
    Follows Grows σ ((Bracket.hold r m).leave σ) := by
  have hgrows : Grows σ.arena (σ.arena.release r m) :=
    .of_parents (Store.size_release _ r m) fun q => by rw [Arena.scope_release]
  exact ⟨hσ.of_grows hgrows, hgrows⟩

theorem Bracket.leave_grows (b : Bracket) (hσ : σ.Sound) : Follows Grows σ (b.leave σ) := by
  cases b with
  | frame name => exact (leave_frame_keeps name hσ).grows
  | hold r m => exact leave_hold_grows r m hσ
  | nothing => exact (Follows.refl hσ).grows

/-- A refused block has changed the session all the same, if at all. -/
theorem Move.session_enter (b : Block) (c : Machine) :
    ((Move.enter b).perform c).session = (b.enter c.session).2 := by
  rw [Move.perform]
  split
  · next heq => rw [heq]
  · next heq => rw [heq]

theorem Move.perform_grows (m : Move) (c : Machine) (hc : c.session.Sound) :
    Follows Grows c.session (m.perform c).session := by
  cases m with
  | step s => exact s.perform_grows hc
  | enter b =>
    rw [session_enter]
    exact b.enter_grows hc
  | leave =>
    rw [Move.perform]
    split
    · exact (Follows.refl hc).grows
    · exact Bracket.leave_grows _ hc
  | record tag report => exact ⟨hc.record tag report, .refl _⟩

namespace Machine

variable {c d : Machine}

/-- Between any two states of a run the scopes only grow. -/
theorem Leads.grows (h : c.Leads d) (hc : c.session.Sound) : Follows Grows c.session d.session := by
  have hstart : Follows Grows c.session c.session := (Follows.refl hc).grows
  refine Leads.induction (P := fun d => Follows Grows c.session d.session) (fun d m hd => ?_) h
    hstart
  have hnext := m.perform_grows d hd.sound
  exact ⟨hnext.sound, hd.arena.trans hnext.arena⟩

theorem Reachable.sound (h : c.Reachable) : c.session.Sound :=
  (Leads.grows h Session.sound_empty).sound

/-- Every scope that a run has made has a finite chain. -/
theorem Reachable.rooted (h : c.Reachable) : c.session.arena.Rooted := by
  have hempty : start.session.arena.Rooted := by
    intro r
    refine ⟨[r], .root ?_⟩
    rw [Arena.scope_of_size_le _ (Nat.zero_le r)]
    rfl
  exact hempty.of_grows Session.sound_empty.closed (Leads.grows h Session.sound_empty).arena

/-! ### Scripts -/

private theorem leads_continueAfter (strict : Bool) (f : Fault) (next : Session → Exit × Session)
    (brackets : List Bracket) (hnext : ∀ σ, Leads ⟨σ, brackets⟩ ⟨(next σ).2, brackets⟩)
    (σ : Session) :
    Leads ⟨σ, brackets⟩ ⟨(Script.run.continueAfter strict f next σ).2, brackets⟩ := by
  cases strict with
  | true => exact .refl _
  | false => exact hnext σ

/-- A script is a run of moves that closes every bracket it opens. -/
theorem leads_script (s : Script) (strict : Bool) (σ : Session) (brackets : List Bracket) :
    Leads ⟨σ, brackets⟩ ⟨(s.run strict σ).2, brackets⟩ := by
  induction s generalizing strict σ brackets with
  | done => exact .refl _
  | step tag s rest ih =>
    have hstep : Leads ⟨σ, brackets⟩ ⟨(s.perform σ).2, brackets⟩ := .move _ (.step s)
    unfold Script.run
    split
    · next answer τ heq =>
      rw [heq] at hstep
      exact (hstep.trans (.move _ (.record tag (.answer answer)))).trans (ih strict _ brackets)
    · next f τ heq =>
      rw [heq] at hstep
      exact (hstep.trans (.move _ (.record tag (.fault f)))).trans
        (leads_continueAfter strict f _ brackets (fun υ => ih strict υ brackets) _)
  | abort tag rest _ => exact .move _ (.record tag (.answer .done))
  | block tag b inner body rest ihbody ihrest =>
    have henter := Leads.move ⟨σ, brackets⟩ (.enter b)
    rw [Move.perform] at henter
    unfold Script.run
    split
    · next f τ heq =>
      simp only [heq] at henter
      exact (henter.trans (.move _ (.record tag (.fault f)))).trans
        (leads_continueAfter strict f _ brackets (fun υ => ihrest strict υ brackets) _)
    · next bracket entry τ heq =>
      simp only [heq] at henter
      have hentry : Leads ⟨τ, bracket :: brackets⟩
          ⟨entry.elim τ (τ.record tag), bracket :: brackets⟩ := by
        cases entry with
        | none => exact .refl _
        | some report => exact .move _ (.record tag report)
      have hbody := ihbody inner (entry.elim τ (τ.record tag)) (bracket :: brackets)
      have hleave := ((henter.trans hentry).trans hbody).trans (.move _ .leave)
      have hrecord := fun report => hleave.trans (.move _ (.record tag report))
      have hrest := fun υ => ihrest strict υ brackets
      rcases hrun : body.run inner (entry.elim τ (τ.record tag)) with ⟨exit, υ⟩
      simp only [Move.perform, hrun] at hleave hrecord ⊢
      cases exit with
      | finished => exact (hrecord (.left none)).trans (hrest _)
      | failed f =>
        exact (hrecord (.left (some f))).trans (leads_continueAfter strict f _ brackets hrest _)
      | aborted =>
        cases b.catches with
        | true => exact (hrecord .caught).trans (hrest _)
        | false => exact hleave

/-- A played list of scripts is a run that leaves no bracket open. -/
theorem leads_play (uncaught : Tag) (scripts : List Script) (σ : Session) :
    Leads ⟨σ, []⟩ ⟨σ.play uncaught scripts, []⟩ := by
  induction scripts generalizing σ with
  | nil => exact .refl _
  | cons s rest ih =>
    have hscript := leads_script s false σ []
    unfold Session.play
    split
    · next τ heq =>
      rw [heq] at hscript
      exact (hscript.trans (.move _ (.record uncaught (.answer .done)))).trans (ih _)
    · next exit τ _ heq =>
      rw [heq] at hscript
      exact hscript.trans (ih τ)

theorem reachable_withEnvironment (name : String) : Reachable ⟨.withEnvironment name, []⟩ :=
  .move start (.step (.newEnvironment name))

end Machine

end ScopeChain
