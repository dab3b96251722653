import ScopeChain.Proofs.Turns

/-!
Scripts without their blocks. The ways through a script are lists of turns that know nothing of a
session, and a session knows nothing of blocks; there is just one way that the two agree on, and a
run of the script is a run of its turns. For scripts that hold no scope, the turns are plain steps:
a block is one push where it is entered and one pop where control leaves it, in whatever way.
-/
namespace ScopeChain

/-- How control leaves what ends in a result. -/
def Exit.ofResult {α : Type} : Except Fault α → Exit
  | .ok _ => .finished
  | .error f => .failed f

/-- How a script ends that a part of it has been left so; if it does not, the rest follows. -/
def Exit.past (strict catches : Bool) : Exit → Option Exit
  | .finished => none
  | .failed f => if strict then some (.failed f) else none
  | .aborted => if catches then none else some .aborted

/-- The session in which the body of a block starts. -/
def Block.opened (b : Block) (tag : Tag) (σ : Session) : Session :=
  match b.enter σ with
  | (.ok (_, entry), σ) => entry.elim σ (σ.record tag)
  | (.error _, σ) => σ

theorem Block.alike_opened (b : Block) (tag : Tag) (σ : Session) :
    (b.enter σ).2.Alike (b.opened tag σ) := by
  unfold opened
  rcases b.enter σ with ⟨f | ⟨bracket, entry⟩, υ⟩
  · exact .refl υ
  · cases entry with
    | none => exact .refl υ
    | some report => exact υ.alike_record tag report

namespace Script

mutual

/-- The ways through a script. Whatever a block is left by, its bracket is closed right after the
body and before all that follows. -/
inductive Unrolls : Bool → Script → List Turn → Exit → Prop
  | done {strict : Bool} : Unrolls strict .done [] .finished
  | step {strict : Bool} {tag : Tag} {s : Step} {rest : Script} {result : Except Fault Answer}
      {ts : List Turn} {x : Exit}
      (hrest : Continues strict rest ((Exit.ofResult result).past strict false) ts x) :
      Unrolls strict (.step tag s rest) (.step s result :: ts) x
  | abort {strict : Bool} {tag : Tag} {rest : Script} : Unrolls strict (.abort tag rest) [] .aborted
  | refused {strict inner : Bool} {tag : Tag} {b : Block} {body rest : Script} {f : Fault}
      {ts : List Turn} {x : Exit}
      (hrest : Continues strict rest ((Exit.failed f).past strict false) ts x) :
      Unrolls strict (.block tag b inner body rest) (.refuse b f :: ts) x
  | block {strict inner : Bool} {tag : Tag} {b : Block} {body rest : Script} {bracket : Bracket}
      {us ts : List Turn} {y x : Exit} (hbody : Unrolls inner body us y)
      (hrest : Continues strict rest (y.past strict b.catches) ts x) :
      Unrolls strict (.block tag b inner body rest)
        (.enter b bracket :: (us ++ .leave bracket :: ts)) x

/-- The rest of a script, of which nothing is left where the script has ended. -/
inductive Continues : Bool → Script → Option Exit → List Turn → Exit → Prop
  | ended {strict : Bool} {rest : Script} {x : Exit} : Continues strict rest (some x) [] x
  | rest {strict : Bool} {rest : Script} {ts : List Turn} {x : Exit}
      (h : Unrolls strict rest ts x) : Continues strict rest none ts x

end

/-- The script ends here, or the rest of it is run. -/
def proceed (strict : Bool) (rest : Script) (ends : Option Exit) (σ : Session) : Exit × Session :=
  match ends with
  | none => rest.run strict σ
  | some x => (x, σ)

theorem run_step (tag : Tag) (s : Step) (rest : Script) (strict : Bool) (σ : Session) :
    ∃ τ, (s.perform σ).2.Alike τ ∧ (Script.step tag s rest).run strict σ =
      rest.proceed strict ((Exit.ofResult (s.perform σ).1).past strict false) τ := by
  rcases hs : s.perform σ with ⟨f | answer, υ⟩
  · refine ⟨_, υ.alike_record tag (.fault f), ?_⟩
    cases strict <;> simp [run, hs, run.continueAfter, Exit.ofResult, Exit.past, proceed]
  · refine ⟨_, υ.alike_record tag (.answer answer), ?_⟩
    simp [run, hs, Exit.ofResult, Exit.past, proceed]

theorem run_refused {b : Block} {f : Fault} {σ υ : Session} (h : b.enter σ = (.error f, υ))
    (tag : Tag) (inner : Bool) (body rest : Script) (strict : Bool) :
    ∃ τ, υ.Alike τ ∧ (Script.block tag b inner body rest).run strict σ =
      rest.proceed strict ((Exit.failed f).past strict false) τ := by
  refine ⟨_, υ.alike_record tag (.fault f), ?_⟩
  cases strict <;> simp [run, h, run.continueAfter, Exit.past, proceed]

theorem run_block {b : Block} {bracket : Bracket} {entry : Option Report} {σ υ : Session}
    (h : b.enter σ = (.ok (bracket, entry), υ)) (tag : Tag) (inner : Bool) (body rest : Script)
    (strict : Bool) :
    ∃ τ, (bracket.leave (body.run inner (b.opened tag σ)).2).Alike τ ∧
      (Script.block tag b inner body rest).run strict σ = rest.proceed strict
        ((body.run inner (b.opened tag σ)).1.past strict b.catches) τ := by
  have hopened : b.opened tag σ = entry.elim υ (υ.record tag) := by rw [Block.opened, h]
  rw [hopened]
  rcases hbody : body.run inner (entry.elim υ (υ.record tag)) with ⟨y, φ⟩
  cases y with
  | finished =>
    refine ⟨_, (bracket.leave φ).alike_record tag (.left none), ?_⟩
    simp [run, h, hbody, Exit.past, proceed]
  | failed f =>
    refine ⟨_, (bracket.leave φ).alike_record tag (.left (some f)), ?_⟩
    cases strict <;> simp [run, h, hbody, run.continueAfter, Exit.past, proceed]
  | aborted =>
    cases hcatch : b.catches with
    | true =>
      refine ⟨_, (bracket.leave φ).alike_record tag .caught, ?_⟩
      simp [run, h, hbody, hcatch, Exit.past, proceed]
    | false =>
      refine ⟨_, .refl (bracket.leave φ), ?_⟩
      simp [run, h, hbody, hcatch, Exit.past, proceed]

/-- The turns are those of the run from `σ`. -/
structure Traces (s : Script) (strict : Bool) (σ : Session) (ts : List Turn) : Prop where
  unrolls : s.Unrolls strict ts (s.run strict σ).1
  takes : σ.Takes ts
  alike : (σ.take ts).Alike (s.run strict σ).2

variable {strict : Bool} {s rest : Script} {σ : Session} {ts us : List Turn} {x y : Exit}

theorem exists_continues (ih : ∀ τ, ∃ ts, rest.Traces strict τ ts) (ends : Option Exit)
    {υ τ : Session} (hτ : υ.Alike τ) :
    ∃ ts, rest.Continues strict ends ts (rest.proceed strict ends τ).1 ∧ υ.Takes ts ∧
      (υ.take ts).Alike (rest.proceed strict ends τ).2 := by
  cases ends with
  | some x => exact ⟨[], .ended, trivial, hτ⟩
  | none =>
    obtain ⟨ts, hunrolls, htakes, halike⟩ := ih τ
    exact ⟨ts, .rest hunrolls, (hτ.takes_iff ts).mp htakes, (hτ.take ts).trans halike⟩

/-- Every run goes one of the ways through its script. -/
theorem exists_traces (s : Script) (strict : Bool) (σ : Session) : ∃ ts, s.Traces strict σ ts := by
  induction s generalizing strict σ with
  | done => exact ⟨[], .done, trivial, .refl σ⟩
  | abort tag rest _ => exact ⟨[], .abort, trivial, σ.alike_record tag _⟩
  | step tag s rest ih =>
    obtain ⟨τ, hτ, hrun⟩ := run_step tag s rest strict σ
    obtain ⟨ts, hrest, htakes, halike⟩ := exists_continues (ih strict) _ hτ
    rw [← hrun] at hrest halike
    exact ⟨.step s (s.perform σ).1 :: ts, .step hrest, ⟨rfl, htakes⟩, halike⟩
  | block tag b inner body rest ihbody ihrest =>
    rcases henter : b.enter σ with ⟨f | ⟨bracket, entry⟩, υ⟩
    · obtain ⟨τ, hτ, hrun⟩ := run_refused henter tag inner body rest strict
      obtain ⟨ts, hrest, htakes, halike⟩ := exists_continues (ihrest strict) _ hτ
      rw [← hrun] at hrest halike
      have hperform : (Turn.refuse b f).perform σ = υ := congrArg Prod.snd henter
      refine ⟨.refuse b f :: ts, .refused hrest, ⟨congrArg Prod.fst henter, ?_⟩, ?_⟩
      · rwa [hperform]
      · rwa [Session.take_cons, hperform]
    · obtain ⟨us, hbody, hus, hleft⟩ := ihbody inner (b.opened tag σ)
      obtain ⟨τ, hτ, hrun⟩ := run_block henter tag inner body rest strict
      have hopened := b.alike_opened tag σ
      rw [henter] at hopened
      have hclosed : (bracket.leave (υ.take us)).Alike τ :=
        (((hopened.take us).trans hleft).take [.leave bracket]).trans hτ
      obtain ⟨ts, hrest, htakes, halike⟩ := exists_continues (ihrest strict) _ hclosed
      rw [← hrun] at hrest halike
      have hperform : (Turn.enter b bracket).perform σ = υ := congrArg Prod.snd henter
      refine ⟨.enter b bracket :: (us ++ .leave bracket :: ts), .block hbody hrest,
        ⟨⟨entry, congrArg Prod.fst henter⟩, ?_⟩, ?_⟩
      · rw [hperform, Session.takes_append]
        exact ⟨(hopened.takes_iff us).mp hus, trivial, htakes⟩
      · rw [Session.take_cons, hperform, Session.take_append]
        exact halike

theorem Continues.unique {ends : Option Exit}
    (ih : ∀ {ts us x y}, rest.Unrolls strict ts x → rest.Unrolls strict us y → σ.Takes ts →
      σ.Takes us → ts = us ∧ x = y)
    (h : rest.Continues strict ends ts x) (h' : rest.Continues strict ends us y) (hts : σ.Takes ts)
    (hus : σ.Takes us) : ts = us ∧ x = y := by
  cases h with
  | ended =>
    cases h'
    exact ⟨rfl, rfl⟩
  | rest h =>
    cases h' with
    | rest h' => exact ih h h' hts hus

/-- The results leave no choice between the ways through a script. -/
theorem Unrolls.unique (h : s.Unrolls strict ts x) (h' : s.Unrolls strict us y) (hts : σ.Takes ts)
    (hus : σ.Takes us) : ts = us ∧ x = y := by
  induction s generalizing strict σ ts us x y with
  | done =>
    cases h
    cases h'
    exact ⟨rfl, rfl⟩
  | abort tag rest _ =>
    cases h
    cases h'
    exact ⟨rfl, rfl⟩
  | step tag s rest ih =>
    cases h with
    | step hrest =>
      cases h' with
      | step hrest' =>
        obtain ⟨rfl, hts⟩ := hts
        obtain ⟨rfl, hus⟩ := hus
        obtain ⟨rfl, rfl⟩ := hrest.unique ih hrest' hts hus
        exact ⟨rfl, rfl⟩
  | block tag b inner body rest ihbody ihrest =>
    cases h with
    | refused hrest =>
      obtain ⟨hholds, hts⟩ := hts
      cases h' with
      | refused hrest' =>
        obtain ⟨hholds', hus⟩ := hus
        obtain rfl := Except.error.inj (hholds.symm.trans hholds')
        obtain ⟨rfl, rfl⟩ := hrest.unique ihrest hrest' hts hus
        exact ⟨rfl, rfl⟩
      | block hbody' hrest' =>
        obtain ⟨⟨entry, hholds'⟩, hus⟩ := hus
        cases hholds.symm.trans hholds'
    -- Both ways enter the block with one bracket, so they come to one body in one session.
    | block hbody hrest =>
      obtain ⟨⟨entry, hholds⟩, hts⟩ := hts
      cases h' with
      | refused hrest' =>
        obtain ⟨hholds', hus⟩ := hus
        cases hholds.symm.trans hholds'
      | block hbody' hrest' =>
        obtain ⟨⟨entry', hholds'⟩, hus⟩ := hus
        obtain ⟨rfl, -⟩ := Prod.mk.inj (Except.ok.inj (hholds.symm.trans hholds'))
        obtain ⟨htsbody, -, htsrest⟩ := Session.takes_append.mp hts
        obtain ⟨husbody, -, husrest⟩ := Session.takes_append.mp hus
        obtain ⟨rfl, rfl⟩ := ihbody hbody hbody' htsbody husbody
        obtain ⟨rfl, rfl⟩ := hrest.unique ihrest hrest' htsrest husrest
        exact ⟨rfl, rfl⟩

/-- A way through the script that the session goes is the way of the run. -/
theorem Unrolls.traces (h : s.Unrolls strict ts x) (hts : σ.Takes ts) :
    s.Traces strict σ ts ∧ x = (s.run strict σ).1 := by
  obtain ⟨us, hus⟩ := s.exists_traces strict σ
  obtain ⟨rfl, rfl⟩ := h.unique hus.unrolls hts hus.takes
  exact ⟨hus, rfl⟩

end Script

/-! ### Plain steps -/

/-- To enter a block is one push, if it is a scope that the block opens. -/
def Block.steps : Block → List Step
  | .scoped name => [.push name 1]
  | .scopedIn name parent => [.pushIn name parent]
  | .holding .. | .catching => []

/-- To leave a block is one pop of whatever scope is on top by then. -/
def Bracket.steps : Bracket → List Step
  | .frame name => [.pop name 1]
  | .hold .. | .nothing => []

def Turn.steps : Turn → List Step
  | .step s _ => [s]
  | .refuse b _ | .enter b _ => b.steps
  | .leave bracket => bracket.steps

/-- Steps in a straight line, whatever becomes of each. -/
def Session.performAll (σ : Session) (ss : List Step) : Session :=
  ss.foldl (fun σ s => (s.perform σ).2) σ

/-- No block of the script holds a scope. -/
def Script.holdsNothing : Script → Bool
  | .done => true
  | .step _ _ rest | .abort _ rest => rest.holdsNothing
  | .block _ b _ body rest => b.holdsNothing && (body.holdsNothing && rest.holdsNothing)

def Bracket.holdsNothing : Bracket → Bool
  | .hold .. => false
  | _ => true

def Turn.holdsNothing : Turn → Bool
  | .step .. => true
  | .refuse b _ | .enter b _ => b.holdsNothing
  | .leave bracket => bracket.holdsNothing

variable {σ : Session}

theorem Block.enter_eq_performAll (b : Block) (hb : b.holdsNothing = true) (σ : Session) :
    (b.enter σ).2 = σ.performAll b.steps := by
  match b with
  | .scoped name =>
    cases he : σ.environments[name]? with
    | none => simp [enter, steps, Session.performAll, Step.perform, Session.repeated, Step.restack,
        Session.onEnvironment, he]
    | some e =>
      simp only [enter, steps, Session.performAll, Step.perform, Step.repeated_restack he,
        Session.onEnvironment, he, List.foldl_cons, List.foldl_nil]
      rfl
  | .scopedIn name parent =>
    cases hr : σ.scopes[parent]? with
    | none => simp [enter, steps, Session.performAll, Step.perform, Session.onScope, hr]
    | some r =>
      cases he : σ.environments[name]? with
      | none => simp [enter, steps, Session.performAll, Step.perform, Session.onScope, Step.restack,
          Session.onEnvironment, hr, he]
      | some e =>
        simp only [enter, steps, Session.performAll, Step.perform, Session.onScope, Step.restack,
          Session.onEnvironment, hr, he, List.foldl_cons, List.foldl_nil]
        rfl
  | .holding name m inner => cases hb
  | .catching => rfl

theorem Bracket.leave_eq_performAll (b : Bracket) (hb : b.holdsNothing = true) (σ : Session) :
    b.leave σ = σ.performAll b.steps := by
  cases b with
  | frame name =>
    cases he : σ.environments[name]? with
    | none => simp [leave, steps, Session.performAll, Step.perform, Session.repeated, Step.restack,
        Session.onEnvironment, he]
    | some e => simp only [leave, steps, Session.performAll, Step.perform, Step.repeated_restack he,
        he, List.foldl_cons, List.foldl_nil]
  | hold r m => cases hb
  | nothing => rfl

theorem Turn.perform_eq_performAll (t : Turn) (ht : t.holdsNothing = true) (σ : Session) :
    t.perform σ = σ.performAll t.steps := by
  cases t with
  | step s result => rfl
  | refuse b f => exact b.enter_eq_performAll ht σ
  | enter b bracket => exact b.enter_eq_performAll ht σ
  | leave bracket => exact bracket.leave_eq_performAll ht σ

theorem Session.take_eq_performAll {ts : List Turn} (hts : ∀ t ∈ ts, t.holdsNothing = true)
    (σ : Session) : σ.take ts = σ.performAll (ts.flatMap Turn.steps) := by
  induction ts generalizing σ with
  | nil => rfl
  | cons t ts ih =>
    have hrest := ih (fun u hu => hts u (List.mem_cons_of_mem t hu)) (t.perform σ)
    rw [take_cons, hrest, t.perform_eq_performAll (hts t (by simp)), performAll, performAll,
      performAll, List.flatMap_cons, List.foldl_append]

/-- What holds nothing when it is entered has no hold to give back. -/
theorem Block.holdsNothing_bracket {b : Block} (hb : b.holdsNothing = true) {bracket : Bracket}
    {entry : Option Report} (h : (b.enter σ).1 = .ok (bracket, entry)) :
    bracket.holdsNothing = true := by
  have henters := b.enters σ
  generalize b.enter σ = outcome at h henters
  cases henters with
  | refused => cases h
  | frame change hframe he hchange =>
    cases h
    rfl
  | hold => cases hb
  | nothing =>
    cases h
    rfl

namespace Script

variable {strict : Bool} {s rest : Script} {ts : List Turn} {x : Exit}

theorem Continues.holdsNothing {ends : Option Exit}
    (ih : ∀ {ts x}, rest.Unrolls strict ts x → σ.Takes ts → ∀ t ∈ ts, t.holdsNothing = true)
    (h : rest.Continues strict ends ts x) (hts : σ.Takes ts) : ∀ t ∈ ts, t.holdsNothing = true := by
  cases h with
  | ended => simp
  | rest h => exact ih h hts

theorem Unrolls.holdsNothing (h : s.Unrolls strict ts x) (hs : s.holdsNothing = true)
    (hts : σ.Takes ts) : ∀ t ∈ ts, t.holdsNothing = true := by
  induction s generalizing strict σ ts x with
  | done =>
    cases h
    simp
  | abort tag rest _ =>
    cases h
    simp
  | step tag s rest ih =>
    cases h with
    | step hrest =>
      have hlater := hrest.holdsNothing (ih · hs) hts.2
      simpa [Turn.holdsNothing] using hlater
  | block tag b inner body rest ihbody ihrest =>
    obtain ⟨hb, hbody, hrests⟩ : b.holdsNothing = true ∧ body.holdsNothing = true ∧
        rest.holdsNothing = true := by simpa [Script.holdsNothing] using hs
    cases h with
    | refused hrest =>
      have hlater := hrest.holdsNothing (ihrest · hrests) hts.2
      simpa [Turn.holdsNothing, hb] using hlater
    | block hunrolls hrest =>
      obtain ⟨⟨entry, hholds⟩, hts⟩ := hts
      obtain ⟨htsbody, -, htsrest⟩ := Session.takes_append.mp hts
      have hbracket := Block.holdsNothing_bracket hb hholds
      have hinside := ihbody hunrolls hbody htsbody
      have hlater := hrest.holdsNothing (ihrest · hrests) htsrest
      intro t ht
      simp only [List.mem_cons, List.mem_append] at ht
      rcases ht with rfl | ht | rfl | ht
      · exact hb
      · exact hinside t ht
      · exact hbracket
      · exact hlater t ht

end Script

/-! ### Played scripts -/

namespace Session

/-- One way through each script. -/
def Ways : List Script → List (List Turn) → Prop :=
  List.Forall₂ fun s ts => ∃ x, s.Unrolls false ts x

/-- The scripts are played as their turns are taken, one after another, and as the plain steps of
these turns are performed; there are no other turns to take. -/
structure Flattens (σ : Session) (uncaught : Tag) (scripts : List Script)
    (tss : List (List Turn)) : Prop where
  ways : Ways scripts tss
  takes : σ.Takes tss.flatten
  unique : ∀ uss, Ways scripts uss → σ.Takes uss.flatten → uss = tss
  arena_eq : (σ.play uncaught scripts).arena =
    (σ.performAll (tss.flatten.flatMap Turn.steps)).arena
  environments_eq : (σ.play uncaught scripts).environments =
    (σ.performAll (tss.flatten.flatMap Turn.steps)).environments
  scopes_eq : (σ.play uncaught scripts).scopes =
    (σ.performAll (tss.flatten.flatMap Turn.steps)).scopes

variable {scripts : List Script} {tss uss : List (List Turn)}

theorem exists_ways (uncaught : Tag) (scripts : List Script) (σ : Session) :
    ∃ tss, Ways scripts tss ∧ σ.Takes tss.flatten ∧
      (σ.take tss.flatten).Alike (σ.play uncaught scripts) := by
  induction scripts generalizing σ with
  | nil => exact ⟨[], .nil, trivial, .refl σ⟩
  | cons s rest ih =>
    obtain ⟨ts, hunrolls, htakes, halike⟩ := s.exists_traces false σ
    obtain ⟨τ, hτ, hplay⟩ : ∃ τ, (s.run false σ).2.Alike τ ∧
        σ.play uncaught (s :: rest) = τ.play uncaught rest := by
      rcases hrun : s.run false σ with ⟨x, τ⟩
      cases x with
      | aborted => exact ⟨_, τ.alike_record uncaught (.answer .done), by simp [play, hrun]⟩
      | finished => exact ⟨τ, .refl τ, by simp [play, hrun]⟩
      | failed f => exact ⟨τ, .refl τ, by simp [play, hrun]⟩
    have hafter := halike.trans hτ
    obtain ⟨tss, hways, htss, hrest⟩ := ih τ
    refine ⟨ts :: tss, .cons ⟨_, hunrolls⟩ hways, ?_, ?_⟩
    · rw [List.flatten_cons, takes_append]
      exact ⟨htakes, (hafter.takes_iff _).mp htss⟩
    · rw [List.flatten_cons, take_append, hplay]
      exact (hafter.take _).trans hrest

theorem Ways.unique (h : Ways scripts tss) (h' : Ways scripts uss) (hts : σ.Takes tss.flatten)
    (hus : σ.Takes uss.flatten) : tss = uss := by
  induction h generalizing σ uss with
  | nil =>
    cases h'
    rfl
  | cons hfirst hrest ih =>
    cases h' with
    | cons hfirst' hrest' =>
      obtain ⟨x, hx⟩ := hfirst
      obtain ⟨y, hy⟩ := hfirst'
      rw [List.flatten_cons, takes_append] at hts hus
      obtain ⟨rfl, -⟩ := hx.unique hy hts.1 hus.1
      rw [ih hrest' hts.2 hus.2]

theorem Ways.holdsNothing (h : Ways scripts tss) (hscripts : ∀ s ∈ scripts, s.holdsNothing = true)
    (hts : σ.Takes tss.flatten) : ∀ t ∈ tss.flatten, t.holdsNothing = true := by
  induction h generalizing σ with
  | nil => simp
  | cons hfirst hrest ih =>
    obtain ⟨x, hx⟩ := hfirst
    rw [List.flatten_cons, takes_append] at hts
    have hhead := hx.holdsNothing (hscripts _ (by simp)) hts.1
    have htail := ih (fun s hs => hscripts s (by simp [hs])) hts.2
    intro t ht
    rw [List.flatten_cons, List.mem_append] at ht
    rcases ht with ht | ht
    · exact hhead t ht
    · exact htail t ht

/-- Scripts whose blocks hold no scope, nested as they may be and left in whatever way, come to the
scopes, environments, handles and events that the plain steps come to which were performed, with a
push where a block was entered and one pop where control left it. -/
theorem play_flattens (σ : Session) (uncaught : Tag) (scripts : List Script)
    (h : ∀ s ∈ scripts, s.holdsNothing = true) : ∃ tss, σ.Flattens uncaught scripts tss := by
  obtain ⟨tss, hways, htakes, halike⟩ := exists_ways uncaught scripts σ
  rw [take_eq_performAll (hways.holdsNothing h htakes)] at halike
  refine ⟨tss, hways, htakes, ?_, halike.arena_eq, halike.environments_eq, halike.scopes_eq⟩
  intro uss hways' htakes'
  exact hways'.unique hways htakes' htakes

/-- A scope is pushed and would be popped again, were there not an unknown name in between. -/
def pushGetPop : Script :=
  .step ⟨"push", .environment "e"⟩ (.push "e" 1)
    (.step ⟨"get", .environment "e"⟩ (.environment "e" (.get (.identifier "x" 1)))
      (.step ⟨"pop", .environment "e"⟩ (.pop "e" 1) .done))

/-- Two blocks, one in the other, both of which end at the unknown name. -/
def failingInside : Script :=
  .block ⟨"with_scope", .environment "e"⟩ (.scoped "e") true
    (.block ⟨"with_scope", .environment "e"⟩ (.scoped "e") true pushGetPop
      (.step ⟨"pop", .environment "e"⟩ (.pop "e" 1) .done))
    .done

/-- No scope binds the name that is asked for. -/
def unknownName : Fault := .access (.undefined (.undefinedVariable (.identifier "x" 1)))

/-- Of the three pops that are written down, none is come to. -/
def failingInsideTurns : List Turn :=
  [.enter (.scoped "e") (.frame "e"), .enter (.scoped "e") (.frame "e"),
    .step (.push "e" 1) (.ok .done),
    .step (.environment "e" (.get (.identifier "x" 1))) (.error unknownName),
    .leave (.frame "e"), .leave (.frame "e")]

theorem ways_failingInside : Ways [failingInside] [failingInsideTurns] := by
  have hinner :
      pushGetPop.Unrolls true ((failingInsideTurns.drop 2).take 2) (.failed unknownName) :=
    .step (.rest (.step .ended))
  have houter : (Script.block ⟨"with_scope", .environment "e"⟩ (.scoped "e") true pushGetPop
      (.step ⟨"pop", .environment "e"⟩ (.pop "e" 1) .done)).Unrolls true
        ((failingInsideTurns.drop 1).take 4) (.failed unknownName) :=
    .block hinner .ended
  exact .cons ⟨.finished, .block houter (.rest .done)⟩ .nil

theorem takes_failingInside : (withEnvironment "e").Takes failingInsideTurns :=
  ⟨⟨_, rfl⟩, ⟨_, rfl⟩, rfl, rfl, trivial, trivial, trivial⟩

theorem play_flattens_failingInside :
    (∀ s ∈ [failingInside], s.holdsNothing = true) ∧
      (withEnvironment "e").Flattens ⟨"unwound", .environment "e"⟩ [failingInside]
        [failingInsideTurns] := by
  have hscripts : ∀ s ∈ [failingInside], s.holdsNothing = true := by decide
  obtain ⟨tss, h⟩ := play_flattens (withEnvironment "e") ⟨"unwound", .environment "e"⟩ _ hscripts
  obtain rfl := h.unique _ ways_failingInside (by simpa using takes_failingInside)
  exact ⟨hscripts, h⟩

end Session

end ScopeChain
