import ScopeChain.Block
import ScopeChain.Proofs.Growth

/-!
What the steps of a session do to its arena. A step that writes nothing keeps every scope and every
hold and at most adds free scopes; one that writes keeps all parents. Both need that the names of
the session refer to scopes which have been made, and leave it so.
-/
namespace ScopeChain

open Arena (Grows Keeps)

/-- The environment refers to scopes that have been made. -/
def Environment.Within (e : Environment) (a : Arena) : Prop :=
  ∀ r ∈ e.global :: e.stack, r < a.scopes.size

namespace EnvironmentStep

/-- The steps that bind a name or change what it is bound to. -/
def writes : EnvironmentStep → Bool
  | .define .. | .defineGlobal .. | .assign .. => true
  | _ => false

end EnvironmentStep

namespace ScopeStep

/-- The steps that bind a name or change what it is bound to. -/
def writes : ScopeStep → Bool
  | .define .. | .assign .. => true
  | _ => false

end ScopeStep

namespace Step

/-- The steps that bind a name or change what it is bound to. -/
def writes : Step → Bool
  | .environment _ s => s.writes
  | .scope _ s => s.writes
  | _ => false

end Step

/-! ### Environments -/

namespace Environment

variable {a b : Arena} {e : Environment} {r : Ref}

theorem Within.of_grows (h : e.Within a) (hg : Grows a b) : e.Within b :=
  fun r hr => Nat.lt_of_lt_of_le (h r hr) hg.size_le

theorem Within.current_lt (h : e.Within a) : e.current < a.scopes.size := by
  apply h
  cases hstack : e.stack with
  | nil => simp [current, hstack]
  | cons r rest => simp [current, hstack]

theorem Within.global_lt (h : e.Within a) : e.global < a.scopes.size :=
  h e.global (by simp)

theorem create_within (a : Arena) : Keeps a (create a).2 ∧ (create a).1.Within (create a).2 := by
  refine ⟨Arena.keeps_newRoot a, fun r hr => ?_⟩
  obtain rfl : r = (a.alloc .root).1 := by simpa [create, ofGlobal, Arena.newRoot] using hr
  exact Arena.alloc_fst_lt .root a

/-- A new scope on top of the stack, enclosed by any scope there is. -/
theorem Within.cons_newChild (h : e.Within a) (hr : r < a.scopes.size) :
    Keeps a (a.newChild r).2 ∧
      Within { e with stack := (a.newChild r).1 :: e.stack } (a.newChild r).2 := by
  have hkeeps : Keeps a (a.newChild r).2 := Arena.keeps_newChild hr
  refine ⟨hkeeps, fun q hq => ?_⟩
  simp only [List.mem_cons] at hq
  rcases hq with rfl | rfl | hq
  · exact h.of_grows hkeeps.toGrows _ (by simp)
  · exact Arena.alloc_fst_lt (.enclosedBy r) a
  · exact h.of_grows hkeeps.toGrows _ (by simp [hq])

theorem Within.push (h : e.Within a) :
    Keeps a (e.push a).2 ∧ (e.push a).1.Within (e.push a).2 := by
  obtain ⟨hkeeps, hwithin⟩ := h.cons_newChild h.current_lt
  exact ⟨hkeeps.trans (.of_scopes_eq rfl), hwithin⟩

theorem Within.pushIn (h : e.Within a) (hr : r < a.scopes.size) :
    Keeps a (e.pushIn r a).2 ∧ (e.pushIn r a).1.Within (e.pushIn r a).2 := by
  obtain ⟨hkeeps, hwithin⟩ := h.cons_newChild hr
  exact ⟨hkeeps.trans (.of_scopes_eq rfl), hwithin⟩

theorem Within.pop (h : e.Within a) : Keeps a (e.pop a).2 ∧ (e.pop a).1.Within (e.pop a).2 := by
  by_cases hdepth : 1 < e.depth
  · simp only [Environment.pop, hdepth, if_true]
    refine ⟨.of_scopes_eq rfl, fun r hr => h r ?_⟩
    rcases List.mem_cons.mp hr with rfl | hr
    · simp
    · exact List.mem_cons_of_mem _ (List.mem_of_mem_tail hr)
  · simp only [Environment.pop, hdepth, if_false]
    exact ⟨.refl a, h⟩

theorem writes_define (e : Environment) (name : String) (v : Value) :
    Arena.Writes (e.define name v) :=
  fun a => Arena.writes_define e.current name v (a.emit _)

theorem writes_assign (e : Environment) (t : Token) (v : Value) : Arena.Writes (e.assign t v) :=
  fun a => Arena.writes_assign e.current t v (a.emit _)

end Environment

namespace Session

/-- Every reference of a session is to a scope that has been made. -/
structure Sound (σ : Session) : Prop where
  closed : σ.arena.Closed
  scope_lt : ∀ (name : String) (r : Ref), σ.scopes[name]? = some r → r < σ.arena.scopes.size
  environment_within : ∀ (name : String) (e : Environment),
    σ.environments[name]? = some e → e.Within σ.arena

variable {α : Type} {σ τ υ : Session} {r : Ref} {e : Environment}

theorem sound_empty : empty.Sound where
  closed r p hp := by
    rw [Arena.scope_of_size_le _ (Nat.zero_le r)] at hp
    simp [Scope.root] at hp
  scope_lt name r hr := by simp [empty] at hr
  environment_within name e he := by simp [empty] at he

theorem Sound.of_grows (h : σ.Sound) {b : Arena} (hg : Grows σ.arena b) :
    { σ with arena := b }.Sound where
  closed := h.closed.of_grows hg
  scope_lt name r hr := Nat.lt_of_lt_of_le (h.scope_lt name r hr) hg.size_le
  environment_within name e he := (h.environment_within name e he).of_grows hg

theorem Sound.record (h : σ.Sound) (tag : Tag) (report : Report) : (σ.record tag report).Sound :=
  ⟨h.closed, h.scope_lt, h.environment_within⟩

theorem Sound.bindScope (h : σ.Sound) (hr : r < σ.arena.scopes.size) (name : String) :
    (σ.bindScope name r).Sound where
  closed := h.closed
  scope_lt n q hq := by
    simp only [Session.bindScope, Std.ExtTreeMap.getElem?_insert] at hq
    split at hq
    · exact Option.some.inj hq ▸ hr
    · exact h.scope_lt n q hq
  environment_within := h.environment_within

theorem Sound.forgetScope (h : σ.Sound) (name : String) : (σ.forgetScope name).Sound where
  closed := h.closed
  scope_lt n q hq := by
    simp only [Session.forgetScope, Std.ExtTreeMap.getElem?_erase] at hq
    split at hq
    · cases hq
    · exact h.scope_lt n q hq
  environment_within := h.environment_within

theorem Sound.bindEnvironment (h : σ.Sound) (he : e.Within σ.arena) (name : String) :
    (σ.bindEnvironment name e).Sound where
  closed := h.closed
  scope_lt := h.scope_lt
  environment_within n f hf := by
    simp only [Session.bindEnvironment, Std.ExtTreeMap.getElem?_insert] at hf
    split at hf
    · exact Option.some.inj hf ▸ he
    · exact h.environment_within n f hf

/-! ### Names -/

/-- What becomes of an attempt on a scope is what becomes of it for a known scope, or for none. -/
theorem onScope_cases {P : Except Fault α × Session → Prop} (name : String)
    {act : Ref → Attempt α} (hunknown : P (.error .unknownScope, σ))
    (hact : ∀ r, σ.scopes[name]? = some r → P (act r σ)) : P (onScope name act σ) := by
  unfold onScope
  split
  · next hr => exact hact _ hr
  · exact hunknown

theorem onEnvironment_cases {P : Except Fault α × Session → Prop} (name : String)
    {act : Environment → Attempt α} (hunknown : P (.error .unknownEnvironment, σ))
    (hact : ∀ e, σ.environments[name]? = some e → P (act e σ)) :
    P (onEnvironment name act σ) := by
  unfold onEnvironment
  split
  · next he => exact hact _ he
  · exact hunknown

/-! ### Accesses -/

theorem access_snd (act : Arena.Attempt α) (answer : α → Answer) (σ : Session) :
    (access act answer σ).2 = { σ with arena := (act σ.arena).2 } := by
  unfold access accessThen
  cases hact : (act σ.arena).1 <;> simp only [hact]

theorem arena_access (act : Arena.Attempt α) (answer : α → Answer) (σ : Session) :
    (access act answer σ).2.arena = (act σ.arena).2 := by
  rw [access_snd]

theorem access_fst (act : Arena.Attempt α) (answer : α → Answer) (σ : Session) :
    (access act answer σ).1 = ((act σ.arena).1.map answer).mapError .access := by
  unfold access accessThen
  cases hact : (act σ.arena).1 <;> simp only [hact] <;> rfl

theorem access_ok {act : Arena.Attempt α} {x : α} (h : (act σ.arena).1 = .ok x)
    (answer : α → Answer) : (access act answer σ).1 = .ok (answer x) := by
  rw [access_fst, h]
  rfl

/-- Of an access that has come to an answer. -/
theorem accessThen_of_ok {act : Arena.Attempt α} {finish : α → Session → Answer × Session}
    {answer : Answer} (h : (accessThen act finish σ).1 = .ok answer) :
    ∃ x, (act σ.arena).1 = .ok x ∧
      (accessThen act finish σ).2 = (finish x { σ with arena := (act σ.arena).2 }).2 := by
  unfold accessThen at h ⊢
  cases hact : (act σ.arena).1 with
  | ok x => exact ⟨x, rfl, by simp only [hact]⟩
  | error f => simp [hact] at h

/-- A text is made without touching the session. -/
theorem inspect_snd (r : Ref) (write : Outline → Option Doc) (layout : Layout) (σ : Session) :
    (inspect r write layout σ).2 = σ := by
  unfold inspect
  split
  · rfl
  · split
    · split <;> rfl
    · rfl

/-! ### Steps -/

/-- A sound session whose arena relates to that of an earlier one. -/
structure Follows (R : Arena → Arena → Prop) (σ τ : Session) : Prop where
  sound : τ.Sound
  arena : R σ.arena τ.arena

theorem Follows.trans (h : Follows Keeps σ τ) (h' : Follows Keeps τ υ) : Follows Keeps σ υ :=
  ⟨h'.sound, h.arena.trans h'.arena⟩

theorem Follows.grows (h : Follows Keeps σ τ) : Follows Grows σ τ :=
  ⟨h.sound, h.arena.toGrows⟩

/-- Only the names of the session have changed, if anything. -/
theorem Follows.of_arena_eq (h : τ.Sound) (harena : τ.arena = σ.arena) : Follows Keeps σ τ :=
  ⟨h, harena ▸ .refl _⟩

theorem Follows.refl (h : σ.Sound) : Follows Keeps σ σ := .of_arena_eq h rfl

section Access

variable {R : Arena → Arena → Prop} (hR : ∀ a b, R a b → Grows a b) (hσ : σ.Sound)
include hR hσ

/-- What the session makes of the result must only bind names to scopes that there are by then. -/
theorem accessThen_follows {act : Arena.Attempt α} {finish : α → Session → Answer × Session}
    (hact : R σ.arena (act σ.arena).2)
    (hfinish : ∀ v, (act σ.arena).1 = .ok v → ∀ τ : Session, τ.Sound →
      τ.arena = (act σ.arena).2 → (finish v τ).2.Sound ∧ (finish v τ).2.arena = τ.arena) :
    Follows R σ (accessThen act finish σ).2 := by
  have hsound := hσ.of_grows (hR _ _ hact)
  cases hresult : (act σ.arena).1 with
  | ok v =>
    obtain ⟨hfin, harena⟩ := hfinish v hresult _ hsound rfl
    simp only [accessThen, hresult]
    exact ⟨hfin, harena ▸ hact⟩
  | error f =>
    simp only [accessThen, hresult]
    exact ⟨hsound, hact⟩

theorem access_follows {act : Arena.Attempt α} (answer : α → Answer)
    (hact : R σ.arena (act σ.arena).2) : Follows R σ (access act answer σ).2 :=
  accessThen_follows hR hσ hact fun _ _ _ hτ _ => ⟨hτ, rfl⟩

end Access

theorem read_follows (hσ : σ.Sound) {act : Arena.Attempt α} (hact : Arena.Reads act)
    (answer : α → Answer) : Follows Keeps σ (access act answer σ).2 :=
  access_follows (fun _ _ h => h.toGrows) hσ answer (hact.keeps σ.arena)

theorem write_follows (hσ : σ.Sound) {act : Arena.Attempt α} (hact : Arena.Writes act)
    (answer : α → Answer) : Follows Grows σ (access act answer σ).2 :=
  access_follows (fun _ _ h => h) hσ answer (hact.grows σ.arena)

theorem inspect_follows (hσ : σ.Sound) (r : Ref) (write : Outline → Option Doc) (layout : Layout) :
    Follows Keeps σ (inspect r write layout σ).2 := by
  rw [inspect_snd]
  exact .refl hσ

theorem restack_follows (hσ : σ.Sound) (name : String)
    {change : Environment → Arena → Environment × Arena}
    (hchange : Keeps σ.arena (change e σ.arena).2 ∧
      (change e σ.arena).1.Within (change e σ.arena).2) :
    Follows Keeps σ (restack name change e σ) :=
  ⟨(hσ.of_grows hchange.1.toGrows).bindEnvironment hchange.2 name, hchange.1⟩

theorem onScope_follows {R : Arena → Arena → Prop} (hrefl : R σ.arena σ.arena) (hσ : σ.Sound)
    (name : String) {act : Ref → Attempt α}
    (hact : ∀ r < σ.arena.scopes.size, Follows R σ (act r σ).2) :
    Follows R σ (onScope name act σ).2 := by
  cases hname : σ.scopes[name]? with
  | none => simpa [onScope, hname] using ⟨hσ, hrefl⟩
  | some r => simpa [onScope, hname] using hact r (hσ.scope_lt name r hname)

theorem onEnvironment_follows {R : Arena → Arena → Prop} (hrefl : R σ.arena σ.arena) (hσ : σ.Sound)
    (name : String) {act : Environment → Attempt α}
    (hact : ∀ e, e.Within σ.arena → Follows R σ (act e σ).2) :
    Follows R σ (onEnvironment name act σ).2 := by
  cases hname : σ.environments[name]? with
  | none => simpa [onEnvironment, hname] using ⟨hσ, hrefl⟩
  | some e => simpa [onEnvironment, hname] using hact e (hσ.environment_within name e hname)

/-- What each attempt brings about, whatever was there before, comes about by repeating it. -/
theorem repeated_rel {R : Session → Session → Prop} (hrefl : ∀ σ, R σ σ)
    (htrans : ∀ σ τ υ, R σ τ → R τ υ → R σ υ) {act : Attempt Answer}
    (hact : ∀ σ, R σ (act σ).2) (n : Nat) (σ : Session) : R σ (repeated act n σ).2 := by
  induction n generalizing σ with
  | zero => exact hrefl σ
  | succ n ih =>
    have hfirst := hact σ
    rw [repeated]
    split
    · next heq =>
      rw [heq] at hfirst
      exact htrans _ _ _ hfirst (ih _)
    · next heq =>
      rw [heq] at hfirst
      exact hfirst

theorem repeated_follows {act : Attempt Answer}
    (hact : ∀ σ : Session, σ.Sound → Follows Keeps σ (act σ).2) (n : Nat) (hσ : σ.Sound) :
    Follows Keeps σ (repeated act n σ).2 := by
  refine repeated_rel (R := fun σ τ => σ.Sound → Follows Keeps σ τ) (fun σ => .refl)
    (fun σ τ υ h h' hσ => ?_) hact n σ hσ
  exact (h hσ).trans (h' (h hσ).sound)

end Session

open Session (Follows)

variable {σ : Session}

namespace EnvironmentStep

variable {e : Environment}

theorem perform_keeps (s : EnvironmentStep) (hquiet : s.writes = false) (hσ : σ.Sound)
    (he : e.Within σ.arena) : Follows Keeps σ (s.perform e σ).2 := by
  cases s with
  | child name =>
    have hchild : e.child.Within σ.arena := by
      intro r hr
      obtain rfl : r = e.global := by simpa [Environment.child, Environment.ofGlobal] using hr
      exact he.global_lt
    exact .of_arena_eq (hσ.bindEnvironment hchild name) rfl
  | define name v => cases hquiet
  | defineGlobal name v => cases hquiet
  | get t => exact Session.read_follows hσ (Arena.reads_get e.current t) _
  | assign t v => cases hquiet
  | bindGlobal name => exact .of_arena_eq (hσ.bindScope he.global_lt name) rfl
  | capture name => exact .of_arena_eq (hσ.bindScope he.current_lt name) rfl
  | inspect layout => exact Session.inspect_follows hσ _ _ _
  | list names => exact Session.read_follows hσ (Arena.reads_list e.current names) _

theorem perform_grows (s : EnvironmentStep) (hσ : σ.Sound) (he : e.Within σ.arena) :
    Follows Grows σ (s.perform e σ).2 := by
  cases hquiet : s.writes with
  | false => exact (s.perform_keeps hquiet hσ he).grows
  | true =>
    cases s with
    | define name v => exact Session.write_follows hσ (e.writes_define name v) _
    | defineGlobal name v =>
      exact Session.write_follows hσ (Arena.writes_define e.global name v) _
    | assign t v => exact Session.write_follows hσ (e.writes_assign t v) _
    | _ => cases hquiet

end EnvironmentStep

namespace ScopeStep

variable {r : Ref}

theorem perform_keeps (s : ScopeStep) (hquiet : s.writes = false) (hσ : σ.Sound)
    (hr : r < σ.arena.scopes.size) : Follows Keeps σ (s.perform r σ).2 := by
  cases s with
  | child name times =>
    obtain ⟨hkeeps, hlt⟩ := Arena.keeps_nest times hr
    refine Session.accessThen_follows (fun _ _ h => h.toGrows) hσ hkeeps ?_
    intro c hc τ hτ harena
    obtain rfl : (σ.arena.nest times r).1 = c := by simpa using hc
    exact ⟨hτ.bindScope (harena ▸ hlt) name, rfl⟩
  | share name => exact .of_arena_eq (hσ.bindScope hr name) rfl
  | copy name =>
    refine Session.accessThen_follows (fun _ _ h => h.toGrows) hσ
      (Arena.keeps_copy r hσ.closed) ?_
    intro c hc τ hτ harena
    exact ⟨hτ.bindScope (harena ▸ Arena.copy_lt hc) name, rfl⟩
  | define name v => cases hquiet
  | get t => exact Session.read_follows hσ (Arena.reads_get r t) _
  | assign t v => cases hquiet
  | binds name => exact Session.read_follows hσ (Arena.reads_inspect r _) _
  | depth => exact Session.read_follows hσ (Arena.reads_depth r) _
  | size => exact Session.read_follows hσ (Arena.reads_inspect r _) _
  | parent name =>
    refine Session.accessThen_follows (fun _ _ h => h.toGrows) hσ
      ((Arena.reads_inspect r Scope.parent).keeps σ.arena) ?_
    intro parent hparent τ hτ harena
    have hclosed : ∀ p, parent = some p → p < τ.arena.scopes.size := by
      intro p hp
      rw [Arena.inspect_eq] at hparent
      split at hparent
      · obtain rfl : (σ.arena.scope r).parent = parent := by simpa using hparent
        rw [harena, Arena.reads_inspect r Scope.parent]
        exact hσ.closed r p hp
      · cases hparent
    cases parent with
    | none => exact ⟨hτ, rfl⟩
    | some p =>
      cases name with
      | none => exact ⟨hτ, rfl⟩
      | some name => exact ⟨hτ.bindScope (hclosed p rfl) name, rfl⟩
  | inspect layout => exact Session.inspect_follows hσ _ _ _
  | inspectInner layout => exact Session.inspect_follows hσ _ _ _
  | list names => exact Session.read_follows hσ (Arena.reads_list r names) _

theorem perform_grows (s : ScopeStep) (hσ : σ.Sound) (hr : r < σ.arena.scopes.size) :
    Follows Grows σ (s.perform r σ).2 := by
  cases hquiet : s.writes with
  | false => exact (s.perform_keeps hquiet hσ hr).grows
  | true =>
    cases s with
    | define name v => exact Session.write_follows hσ (Arena.writes_define r name v) _
    | assign t v => exact Session.write_follows hσ (Arena.writes_assign r t v) _
    | _ => cases hquiet

end ScopeStep

namespace Step

section Known

variable {name : String} {e : Environment} (he : σ.environments[name]? = some e)
include he

theorem perform_environment (s : EnvironmentStep) :
    (Step.environment name s).perform σ = s.perform e σ := by
  simp only [Step.perform, Session.onEnvironment, he]

theorem repeated_restack_succ (change : Environment → Arena → Environment × Arena) (n : Nat) :
    Session.repeated (restack name change) (n + 1) σ =
      Session.repeated (restack name change) n (σ.restack name change e) := by
  simp only [Session.repeated, restack, Session.onEnvironment, he]

theorem repeated_restack (change : Environment → Arena → Environment × Arena) :
    Session.repeated (restack name change) 1 σ = (.ok .done, σ.restack name change e) :=
  repeated_restack_succ he change 0

end Known

theorem restack_keeps (hσ : σ.Sound) (name : String)
    {change : Environment → Arena → Environment × Arena}
    (hchange : ∀ (e : Environment) (a : Arena), e.Within a →
      Keeps a (change e a).2 ∧ (change e a).1.Within (change e a).2) :
    Follows Keeps σ (restack name change σ).2 :=
  Session.onEnvironment_follows (.refl _) hσ name fun e he =>
    Session.restack_follows hσ name (hchange e σ.arena he)

theorem perform_keeps (s : Step) (hquiet : s.writes = false) (hσ : σ.Sound) :
    Follows Keeps σ (s.perform σ).2 := by
  cases s with
  | environment name s =>
    exact Session.onEnvironment_follows (.refl _) hσ name fun e he => s.perform_keeps hquiet hσ he
  | scope name s =>
    exact Session.onScope_follows (.refl _) hσ name fun r hr => s.perform_keeps hquiet hσ hr
  | push name times =>
    refine Session.repeated_follows (fun τ hτ => ?_) times hσ
    exact restack_keeps hτ name fun _ _ he => he.push
  | pushIn name parent =>
    refine Session.onScope_follows (.refl _) hσ parent fun r hr => ?_
    refine Session.onEnvironment_follows (.refl _) hσ name fun e he => ?_
    show Follows Keeps σ (Session.restack name (fun e => e.pushIn r) e σ)
    exact Session.restack_follows hσ name (he.pushIn hr)
  | pop name times =>
    exact Session.repeated_follows (fun τ hτ => restack_keeps hτ name fun _ _ he => he.pop) times hσ
  | newEnvironment name =>
    obtain ⟨hkeeps, hwithin⟩ := Environment.create_within σ.arena
    exact ⟨(hσ.of_grows hkeeps.toGrows).bindEnvironment hwithin name, hkeeps⟩
  | newScope name =>
    have hkeeps := Arena.keeps_newRoot σ.arena
    exact ⟨(hσ.of_grows hkeeps.toGrows).bindScope (Arena.alloc_fst_lt .root σ.arena) name, hkeeps⟩
  | forget name => exact .of_arena_eq (hσ.forgetScope name) rfl
  | same left right =>
    refine Session.onScope_follows (.refl _) hσ left fun r _ => ?_
    exact Session.onScope_follows (.refl _) hσ right fun q _ => .refl hσ
  | pass => exact .refl hσ

theorem perform_grows (s : Step) (hσ : σ.Sound) : Follows Grows σ (s.perform σ).2 := by
  cases hquiet : s.writes with
  | false => exact (s.perform_keeps hquiet hσ).grows
  | true =>
    cases s with
    | environment name s =>
      exact Session.onEnvironment_follows (.refl _) hσ name fun e he => s.perform_grows hσ he
    | scope name s =>
      exact Session.onScope_follows (.refl _) hσ name fun r hr => s.perform_grows hσ hr
    | _ => cases hquiet

end Step

end ScopeChain
