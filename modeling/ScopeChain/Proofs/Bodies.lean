import ScopeChain.Proofs.Guards

/-!
Bodies: what is done with one environment, whichever it is. Put on an environment, a body is a
script; which way a run goes through it has nothing to do with the name of the environment, given
that the results are the same.
-/
namespace ScopeChain

/-- What a body does with its environment. The depth of the stack is not looked at. -/
inductive BodyStep where
  | define (name : String) (v : Value)
  | defineGlobal (name : String) (v : Value)
  | get (t : Token)
  | assign (t : Token) (v : Value)
  | capture (name : String)
  | push (times : Nat)
  | pushIn (parent : String)
  | pop (times : Nat)

/-- A scope on top of the stack, or nothing but the place where an abort ends. -/
inductive BodyBlock where
  | frame
  | frameIn (parent : String)
  | catching

inductive Body where
  | done
  | step (label : String) (s : BodyStep) (rest : Body)
  | abort (label : String) (rest : Body)
  | block (label : String) (b : BodyBlock) (strict : Bool) (body rest : Body)

/-- A turn that a body takes. -/
inductive BodyTurn where
  | step (s : BodyStep) (result : Except Fault Answer)
  | refuse (b : BodyBlock) (f : Fault)
  | enter (b : BodyBlock)
  | leave (b : BodyBlock)

def BodyStep.on (name : String) : BodyStep → Step
  | .define x v => .environment name (.define x v)
  | .defineGlobal x v => .environment name (.defineGlobal x v)
  | .get t => .environment name (.get t)
  | .assign t v => .environment name (.assign t v)
  | .capture x => .environment name (.capture x)
  | .push times => .push name times
  | .pushIn parent => .pushIn name parent
  | .pop times => .pop name times

def BodyBlock.on (name : String) : BodyBlock → Block
  | .frame => .scoped name
  | .frameIn parent => .scopedIn name parent
  | .catching => .catching

/-- What there is to close when control leaves the block. -/
def BodyBlock.bracket (name : String) : BodyBlock → Bracket
  | .frame | .frameIn _ => .frame name
  | .catching => .nothing

namespace Body

def on (name : String) : Body → Script
  | .done => .done
  | .step label s rest => .step ⟨label, .environment name⟩ (s.on name) (rest.on name)
  | .abort label rest => .abort ⟨label, .environment name⟩ (rest.on name)
  | .block label b strict body rest =>
    .block ⟨label, .environment name⟩ (b.on name) strict (body.on name) (rest.on name)

/-- All steps that are written down in a body and in the blocks inside. -/
def steps : Body → List BodyStep
  | .done => []
  | .step _ s rest => s :: rest.steps
  | .abort _ rest => rest.steps
  | .block _ _ _ body rest => body.steps ++ rest.steps

end Body

def BodyTurn.on (name : String) : BodyTurn → Turn
  | .step s result => .step (s.on name) result
  | .refuse b f => .refuse (b.on name) f
  | .enter b => .enter (b.on name) (b.bracket name)
  | .leave b => .leave (b.bracket name)

variable {σ : Session} {name : String} {strict : Bool} {ts : List Turn} {x : Exit}

theorem BodyBlock.bracket_eq {b : BodyBlock} {bracket : Bracket} {entry : Option Report}
    (h : ((b.on name).enter σ).1 = .ok (bracket, entry)) : bracket = b.bracket name := by
  have henters := (b.on name).enters σ
  generalize hb : b.on name = block at h henters
  generalize block.enter σ = outcome at h henters
  cases henters with
  | refused => cases h
  | frame change hframe he hchange =>
    cases h
    cases b with
    | frame =>
      cases hb
      rw [bracket, Option.some.inj hframe]
    | frameIn parent =>
      cases hb
      rw [bracket, Option.some.inj hframe]
    | catching =>
      cases hb
      cases hframe
  | hold => cases b <;> cases hb
  | nothing =>
    cases h
    cases b with
    | catching => rfl
    | _ => cases hb

theorem BodyBlock.catches_on (b : BodyBlock) (m n : String) :
    (b.on m).catches = (b.on n).catches := by
  cases b <;> rfl

/-! ### Ways -/

namespace Body

/-- The way `ts` of a body is that of the turns `us`, and these are a way of the body on any other
environment, too. -/
structure Goes (b : Body) (strict : Bool) (name : String) (ts : List Turn) (x : Exit)
    (us : List BodyTurn) : Prop where
  turns_eq : ts = us.map (BodyTurn.on name)
  unrolls : ∀ n, (b.on n).Unrolls strict (us.map (BodyTurn.on n)) x
  written : ∀ s result, BodyTurn.step s result ∈ us → s ∈ b.steps

theorem exists_goes_rest {rest : Body} {ends : Option Exit}
    (ih : ∀ {ts x}, (rest.on name).Unrolls strict ts x → σ.Takes ts →
      ∃ us, rest.Goes strict name ts x us)
    (h : (rest.on name).Continues strict ends ts x) (hts : σ.Takes ts) :
    ∃ us : List BodyTurn, ts = us.map (BodyTurn.on name) ∧
      (∀ n, (rest.on n).Continues strict ends (us.map (BodyTurn.on n)) x) ∧
      ∀ s result, BodyTurn.step s result ∈ us → s ∈ rest.steps := by
  cases h with
  | ended => exact ⟨[], rfl, fun _ => .ended, by simp⟩
  | rest h =>
    obtain ⟨us, hus⟩ := ih h hts
    exact ⟨us, hus.turns_eq, fun n => .rest (hus.unrolls n), hus.written⟩

/-- Which environment a body is on makes no difference to the ways there are through it. -/
theorem exists_goes (b : Body) (h : (b.on name).Unrolls strict ts x) (hts : σ.Takes ts) :
    ∃ us, b.Goes strict name ts x us := by
  induction b generalizing strict σ ts x with
  | done =>
    cases h
    exact ⟨[], rfl, fun _ => .done, by simp⟩
  | abort label rest _ =>
    cases h
    exact ⟨[], rfl, fun _ => .abort, by simp⟩
  | step label s rest ih =>
    cases h with
    | @step _ _ _ _ result _ _ hrest =>
      obtain ⟨us, rfl, hus, hwritten⟩ := exists_goes_rest ih hrest hts.2
      refine ⟨.step s result :: us, rfl, fun n => .step (hus n), fun q answer hq => ?_⟩
      rcases List.mem_cons.mp hq with hq | hq
      · cases hq
        exact List.mem_cons_self
      · exact List.mem_cons_of_mem _ (hwritten q answer hq)
  | block label b inner body rest ihbody ihrest =>
    cases h with
    | @refused _ _ _ _ _ _ f _ _ hrest =>
      obtain ⟨us, rfl, hus, hwritten⟩ := exists_goes_rest ihrest hrest hts.2
      refine ⟨.refuse b f :: us, rfl, fun n => .refused (hus n), fun q answer hq => ?_⟩
      exact List.mem_append_right _ (hwritten q answer (by simpa using hq))
    | @block _ _ _ _ _ _ bracket _ _ y _ hbody hrest =>
      obtain ⟨⟨entry, hholds⟩, hts⟩ := hts
      obtain ⟨htsbody, -, htsrest⟩ := Session.takes_append.mp hts
      obtain rfl := BodyBlock.bracket_eq hholds
      obtain ⟨us, rfl, hus, hinside⟩ := ihbody hbody htsbody
      obtain ⟨vs, rfl, hvs, hlater⟩ := exists_goes_rest ihrest hrest htsrest
      refine ⟨.enter b :: (us ++ .leave b :: vs), by simp [BodyTurn.on], fun n => ?_,
        fun q answer hq => ?_⟩
      · simp only [List.map_cons, List.map_append]
        exact .block (hus n) (b.catches_on n name ▸ hvs n)
      · have hmem : BodyTurn.step q answer ∈ us ∨ BodyTurn.step q answer ∈ vs := by simpa using hq
        rcases hmem with hmem | hmem
        · exact List.mem_append_left _ (hinside q answer hmem)
        · exact List.mem_append_right _ (hlater q answer hmem)

/-- What a balanced body does between the push and the pop of the block that it stands in. -/
theorem exists_turns {b : BodyBlock} {body : Body} {inner : Bool} {tag : Tag}
    (h : (body.on name).Balanced inner name ((b.on name).opened tag σ)) :
    ∃ (us : List BodyTurn) (y : Exit), (∀ n, (body.on n).Unrolls inner (us.map (BodyTurn.on n)) y) ∧
      ((b.on name).enter σ).2.Takes (us.map (BodyTurn.on name)) ∧
      level name (us.map (BodyTurn.on name)) 0 = some 0 ∧
      ∀ s result, BodyTurn.step s result ∈ us → s ∈ body.steps := by
  obtain ⟨ts, y, hunrolls, htakes, hlevel⟩ := h
  obtain ⟨us, hus⟩ := body.exists_goes hunrolls htakes
  obtain rfl := hus.turns_eq
  have halike := (b.on name).alike_opened tag σ
  exact ⟨us, y, hus.unrolls, (halike.takes_iff _).mp htakes, hlevel, hus.written⟩

/-- The turns of a block are those of its body, with one before to enter it and one after to leave
it. -/
theorem exists_unrolls_block {body : Body} {inner : Bool} {us : List BodyTurn} {y : Exit}
    (h : ∀ n, (body.on n).Unrolls inner (us.map (BodyTurn.on n)) y) (label : String) (b : BodyBlock)
    (strict : Bool) :
    ∃ x, ∀ n, ((Body.block label b inner body .done).on n).Unrolls strict
      ((.enter b :: (us ++ [.leave b])).map (BodyTurn.on n)) x := by
  cases hpast : y.past strict (b.on "").catches with
  | none =>
    refine ⟨.finished, fun n => ?_⟩
    rw [← b.catches_on n] at hpast
    simp only [List.map_cons, List.map_append, List.map_nil]
    exact .block (h n) (hpast ▸ .rest .done)
  | some x =>
    refine ⟨x, fun n => ?_⟩
    rw [← b.catches_on n] at hpast
    simp only [List.map_cons, List.map_append, List.map_nil]
    exact .block (h n) (hpast ▸ .ended)

/-- The run of a block, once the turns of its body are known. -/
theorem run_block {b : BodyBlock} {label : String} {inner : Bool} {body : Body} {us : List BodyTurn}
    (hall : ((Body.block label b inner body .done).on name).Unrolls strict
      ((.enter b :: (us ++ [.leave b])).map (BodyTurn.on name)) x)
    (henter : ∃ entry, ((b.on name).enter σ).1 = .ok (b.bracket name, entry))
    (htakes : ((b.on name).enter σ).2.Takes (us.map (BodyTurn.on name))) :
    σ.Takes ((.enter b :: (us ++ [.leave b])).map (BodyTurn.on name)) ∧
      (((Body.block label b inner body .done).on name).run strict σ).1 = x ∧
      ((b.bracket name).leave (((b.on name).enter σ).2.take (us.map (BodyTurn.on name)))).Alike
        (((Body.block label b inner body .done).on name).run strict σ).2 := by
  have hmap : (.enter b :: (us ++ [.leave b])).map (BodyTurn.on name) =
      .enter (b.on name) (b.bracket name) ::
        (us.map (BodyTurn.on name) ++ [.leave (b.bracket name)]) := by
    simp [BodyTurn.on]
  rw [hmap] at hall ⊢
  have hts : σ.Takes (.enter (b.on name) (b.bracket name) ::
      (us.map (BodyTurn.on name) ++ [.leave (b.bracket name)])) :=
    ⟨henter, Session.takes_append.mpr ⟨htakes, trivial, trivial⟩⟩
  obtain ⟨htraces, hexit⟩ := hall.traces hts
  have halike := htraces.alike
  rw [Session.take_cons, Session.take_append] at halike
  exact ⟨hts, hexit.symm, halike⟩

end Body

end ScopeChain
