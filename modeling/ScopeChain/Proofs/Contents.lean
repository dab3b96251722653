import ScopeChain.Proofs.Failures
import ScopeChain.Proofs.Ledgers

/-!
What scopes contain. Every move accounts for itself: what it has written makes up the whole
difference between the scopes before it and after it. So the ledger of a run says what any scope
contains at the end: the names that have been defined there or copied there and no others, each with
the value that was written last.
-/
namespace ScopeChain

open Arena (Accounts)

namespace Arena

variable {α : Type} {a b : Arena} {r : Ref} {x : String} {v : Value} {t : Token}

/-- A report comes before what it is about. -/
theorem Accounts.of_emit {ws : List Write} {e : Event} (h : Accounts (a.emit e) ws b) :
    Accounts a ws b := by
  have hreport : Accounts a [] (a.emit e) := .of_scopes_eq rfl
  exact hreport.trans h

theorem accounts_define (hr : r < a.scopes.size) (hok : (define r x v a).1 = .ok ()) :
    Accounts a (definition r x v) (define r x v a).2 := by
  apply accounts_definition hr
  rw [define_of_ok hok]

theorem accounts_assign (hrooted : a.Rooted) (hok : (a.assign r t v).1 = .ok ()) :
    Accounts a (a.assignment r t v) (a.assign r t v).2 := by
  obtain ⟨l, hl⟩ := hrooted r
  obtain ⟨o, ho, hassign⟩ := hl.assign_of_ok hok
  apply hl.accounts_assignment ho
  rw [hassign]

theorem accounts_copy {c : Ref} (hok : (copy r a).1 = .ok c) :
    Accounts a (a.copied r) (copy r a).2 := by
  have hcopy : (copy r a).2 = (a.alloc (a.scope r)).2 := by
    unfold copy at hok ⊢
    rw [inspect_eq] at hok ⊢
    by_cases hgrant : a.scopes.grants r .shared = true
    · simp [hgrant]
    · simp [hgrant] at hok
  rw [hcopy]
  exact accounts_copied a r

/-! ### What writes nothing -/

theorem Accounts.of_alloc (s : Scope) (hs : s.bindings = ∅) : Accounts a [] (a.alloc s).2 := by
  apply Accounts.of_bindings
  intro q
  have hscope : (a.alloc s).2.scope q = if q = a.scopes.size then s else a.scope q :=
    a.scopes.value_alloc s q
  rw [hscope]
  split
  · next hq =>
    rw [hs, hq, scope_of_size_le a (Nat.le_refl _)]
    rfl
  · rfl

theorem Accounts.of_nest (n : Nat) (r : Ref) (a : Arena) : Accounts a [] (a.nest n r).2 := by
  induction n generalizing r a with
  | zero => exact .refl a
  | succ n ih => exact (Accounts.of_alloc (.enclosedBy r) rfl).trans (ih _ _)

theorem Accounts.of_acquire (a : Arena) (r : Ref) (m : Mode) : Accounts a [] (a.acquire r m) :=
  .of_bindings fun q => by rw [scope_acquire]

theorem Accounts.of_release (a : Arena) (r : Ref) (m : Mode) : Accounts a [] (a.release r m) :=
  .of_bindings fun q => by rw [scope_release]

theorem Reads.accounts {act : Attempt α} (h : Reads act) (a : Arena) : Accounts a [] (act a).2 :=
  .of_scopes_eq (h a)

end Arena

namespace Environment

theorem accounts_push (e : Environment) (a : Arena) : Accounts a [] (e.push a).2 :=
  (Accounts.of_alloc (.enclosedBy e.current) rfl).trans (.of_scopes_eq rfl)

theorem accounts_pushIn (e : Environment) (r : Ref) (a : Arena) : Accounts a [] (e.pushIn r a).2 :=
  (Accounts.of_alloc (.enclosedBy r) rfl).trans (.of_scopes_eq rfl)

theorem accounts_pop (e : Environment) (a : Arena) : Accounts a [] (e.pop a).2 := by
  unfold pop
  split
  · exact .of_scopes_eq rfl
  · exact .refl a

end Environment

namespace Session

variable {α : Type}

/-- The attempt writes nothing, whether it succeeds or not. -/
def Idle (act : Attempt α) : Prop := ∀ σ, Accounts σ.arena [] (act σ).2.arena

theorem idle_read {act : Arena.Attempt α} (hact : Arena.Reads act) (answer : α → Answer) :
    Idle (access act answer) := by
  intro σ
  rw [arena_access]
  exact hact.accounts σ.arena

theorem idle_inspect (r : Ref) (write : Outline → Option Doc) (layout : Layout) :
    Idle (inspect r write layout) := by
  intro σ
  rw [inspect_snd]
  exact .refl _

theorem idle_onScope (name : String) {act : Ref → Attempt α} (hact : ∀ r, Idle (act r)) :
    Idle (onScope name act) := by
  intro σ
  unfold onScope
  split
  · exact hact _ σ
  · exact .refl _

theorem idle_onEnvironment (name : String) {act : Environment → Attempt α}
    (hact : ∀ e, Idle (act e)) : Idle (onEnvironment name act) := by
  intro σ
  unfold onEnvironment
  split
  · exact hact _ σ
  · exact .refl _

theorem idle_repeated {act : Attempt Answer} (hact : Idle act) (n : Nat) :
    Idle (repeated act n) :=
  repeated_rel (R := fun σ τ => Accounts σ.arena [] τ.arena) (fun _ => .refl _)
    (fun _ _ _ h h' => h.trans h') hact n

end Session

open Session (Idle)

theorem Step.idle_restack (name : String) {change : Environment → Arena → Environment × Arena}
    (hchange : ∀ e a, Accounts a [] (change e a).2) : Idle (restack name change) :=
  Session.idle_onEnvironment name fun e σ => hchange e σ.arena

/-! ### Steps -/

variable {σ : Session} {answer : Answer}

/-- The access behind a step that only hands on its answer. -/
theorem Session.arena_access_of_ok {α : Type} {act : Arena.Attempt α} {read : α → Answer}
    (hok : (access act read σ).1 = .ok answer) :
    ∃ x, (act σ.arena).1 = .ok x ∧ (access act read σ).2.arena = (act σ.arena).2 := by
  obtain ⟨x, hx, -⟩ := accessThen_of_ok hok
  exact ⟨x, hx, arena_access act read σ⟩

theorem EnvironmentStep.accounts {s : EnvironmentStep} {e : Environment} (he : e.Within σ.arena)
    (hrooted : σ.arena.Rooted) (hok : (s.perform e σ).1 = .ok answer) :
    Accounts σ.arena (s.written σ.arena e) (s.perform e σ).2.arena := by
  cases s with
  | define x v =>
    obtain ⟨u, hu, harena⟩ := Session.arena_access_of_ok hok
    rw [perform, harena]
    have hdefine := Arena.accounts_define (a := σ.arena.emit _) he.current_lt hu
    exact hdefine.of_emit
  | defineGlobal x v =>
    obtain ⟨u, hu, harena⟩ := Session.arena_access_of_ok hok
    rw [perform, harena]
    exact Arena.accounts_define he.global_lt hu
  | assign t v =>
    obtain ⟨u, hu, harena⟩ := Session.arena_access_of_ok hok
    rw [perform, harena]
    have hassign := (Arena.accounts_assign (hrooted.emit _) hu).of_emit
    simp only [written, Arena.assignment, Arena.owner?_emit] at hassign ⊢
    exact hassign
  | get t => exact Session.idle_read (Arena.reads_get e.current t) _ σ
  | inspect layout => exact Session.idle_inspect _ _ _ σ
  | list names => exact Session.idle_read (Arena.reads_list e.current names) _ σ
  | _ => exact .refl _

theorem ScopeStep.accounts {s : ScopeStep} {r : Ref} (hr : r < σ.arena.scopes.size)
    (hrooted : σ.arena.Rooted) (hok : (s.perform r σ).1 = .ok answer) :
    Accounts σ.arena (s.written σ.arena r) (s.perform r σ).2.arena := by
  cases s with
  | define x v =>
    obtain ⟨u, hu, harena⟩ := Session.arena_access_of_ok hok
    rw [perform, harena]
    exact Arena.accounts_define hr hu
  | assign t v =>
    obtain ⟨u, hu, harena⟩ := Session.arena_access_of_ok hok
    rw [perform, harena]
    exact Arena.accounts_assign hrooted hu
  | copy x =>
    obtain ⟨c, hc, hcopy⟩ := Session.accessThen_of_ok hok
    rw [perform, hcopy]
    exact Arena.accounts_copy hc
  | child x times => exact Arena.Accounts.of_nest times r σ.arena
  | share x => exact .refl _
  | parent x =>
    obtain ⟨p, -, hparent⟩ := Session.accessThen_of_ok hok
    rw [perform, hparent]
    have hread := (Arena.reads_inspect r Scope.parent).accounts σ.arena
    cases p with
    | none => exact hread
    | some p => cases x <;> exact hread
  | get t => exact Session.idle_read (Arena.reads_get r t) _ σ
  | binds x => exact Session.idle_read (Arena.reads_inspect r _) _ σ
  | depth => exact Session.idle_read (Arena.reads_depth r) _ σ
  | size => exact Session.idle_read (Arena.reads_inspect r _) _ σ
  | list names => exact Session.idle_read (Arena.reads_list r names) _ σ
  | inspect layout => exact Session.idle_inspect _ _ _ σ
  | inspectInner layout => exact Session.idle_inspect _ _ _ σ

namespace Step

theorem accounts_written {s : Step} (hσ : σ.Sound) (hrooted : σ.arena.Rooted)
    (hok : (s.perform σ).1 = .ok answer) :
    Accounts σ.arena (s.written σ) (s.perform σ).2.arena := by
  cases s with
  | environment name s =>
    cases he : σ.environments[name]? with
    | none => simp [perform, Session.onEnvironment, he] at hok
    | some e =>
      rw [perform_environment he] at hok ⊢
      simp only [written, he, Option.elim_some]
      exact s.accounts (hσ.environment_within name e he) hrooted hok
  | scope name s =>
    cases hr : σ.scopes[name]? with
    | none => simp [perform, Session.onScope, hr] at hok
    | some r =>
      simp only [perform, Session.onScope, hr] at hok
      simp only [perform, Session.onScope, written, hr, Option.elim_some]
      exact s.accounts (hσ.scope_lt name r hr) hrooted hok
  | push name times =>
    exact Session.idle_repeated (idle_restack name Environment.accounts_push) times σ
  | pushIn name parent =>
    exact Session.idle_onScope parent
      (fun r => idle_restack name fun e => e.accounts_pushIn r) σ
  | pop name times =>
    exact Session.idle_repeated (idle_restack name Environment.accounts_pop) times σ
  | newEnvironment name => exact .of_alloc .root rfl
  | newScope name => exact .of_alloc .root rfl
  | same left right =>
    exact Session.idle_onScope left
      (fun r => Session.idle_onScope right fun q σ => .refl _) σ
  | _ => exact .refl _

/-- A step that fails has written nothing, and one that succeeds what it was to write. -/
theorem accounts (s : Step) (hσ : σ.Sound) (hrooted : σ.arena.Rooted) :
    Accounts σ.arena (s.ledger σ) (s.perform σ).2.arena := by
  unfold ledger
  cases hresult : (s.perform σ).1 with
  | ok answer => exact accounts_written hσ hrooted hresult
  | error f => exact .of_scopes_eq (s.atomic σ f hresult).cells_eq

end Step

/-! ### Blocks -/

namespace Direct

variable {m : Mode} {a : Arena} {r : Ref}

theorem accounts (d : Direct m) (hr : r < a.scopes.size) (hrooted : a.Rooted) :
    Accounts a (Write.ifOk (d.perform r a).1 (d.written a r)) (d.perform r a).2 := by
  cases hresult : (d.perform r a).1 with
  | error f => exact .of_scopes_eq (d.atomic r a f hresult)
  | ok answer =>
    cases d with
    | get t => exact (Arena.reads_getInside a.fuel r t).accounts a
    | depth => exact (Arena.reads_depthInside a.fuel r).accounts a
    | binds x => exact .refl a
    | size => exact .refl a
    | define x v => exact Arena.accounts_definition hr rfl
    | assign t v =>
      obtain ⟨l, hl⟩ := hrooted r
      have hok : (a.assignInside a.fuel r t v).1 = .ok () := by
        cases hassign : (a.assignInside a.fuel r t v).1 with
        | ok u => rfl
        | error f => simp [perform, hassign, Except.map] at hresult
      obtain ⟨o, ho, hassign⟩ := hl.assignInside_of_ok hok
      apply hl.accounts_assignment ho
      show (a.assignInside a.fuel r t v).2.scopes = _
      rw [hassign]

theorem accounts_all (ds : List (Direct m)) (hr : r < a.scopes.size) (hclosed : a.Closed)
    (hrooted : a.Rooted) :
    Accounts a (Direct.ledger ds r a) (Direct.performAll ds r a).2 := by
  induction ds generalizing a with
  | nil => exact .refl a
  | cons d ds ih =>
    have hgrows := d.perform_grows r a
    have hlater := ih (Nat.lt_of_lt_of_le hr hgrows.size_le) (hclosed.of_grows hgrows)
      (hrooted.of_grows hclosed hgrows)
    exact (d.accounts hr hrooted).trans hlater

end Direct

theorem Block.accounts (b : Block) (hσ : σ.Sound) (hrooted : σ.arena.Rooted) :
    Accounts σ.arena (b.ledger σ) (b.enter σ).2.arena := by
  match b with
  | .scoped name => exact Session.idle_onEnvironment name (fun e σ => e.accounts_push σ.arena) σ
  | .scopedIn name parent =>
    exact Session.idle_onScope parent (fun r =>
      Session.idle_onEnvironment name fun e σ => e.accounts_pushIn r σ.arena) σ
  | .holding name m inner =>
    cases hr : σ.scopes[name]? with
    | none => simpa [ledger, enter, Session.onScope, hr, Write.ifOk] using Accounts.refl σ.arena
    | some r =>
      by_cases hgrant : σ.arena.scopes.grants r m = true
      · have hlt : r < (σ.arena.acquire r m).scopes.size := by
          simpa [Arena.acquire] using hσ.scope_lt name r hr
        have hgrows : Arena.Grows σ.arena (σ.arena.acquire r m) :=
          .of_parents (Store.size_acquire _ r m) fun q => by rw [Arena.scope_acquire]
        have hinner := Direct.accounts_all inner hlt (hσ.closed.of_grows hgrows)
          (hrooted.of_grows hσ.closed hgrows)
        simp only [ledger, enter, Session.onScope, hr, hgrant, if_true, Write.ifOk,
          Option.elim_some]
        exact (Accounts.of_acquire σ.arena r m).trans hinner
      · simpa [ledger, enter, Session.onScope, hr, hgrant, Write.ifOk] using Accounts.refl σ.arena
  | .catching => exact .refl _

theorem Bracket.accounts (b : Bracket) (σ : Session) : Accounts σ.arena [] (b.leave σ).arena := by
  cases b with
  | frame name =>
    cases he : σ.environments[name]? with
    | none =>
      simp only [leave, he]
      exact .refl _
    | some e =>
      simp only [leave, he]
      exact e.accounts_pop σ.arena
  | hold r m => exact .of_release σ.arena r m
  | nothing => exact .refl _

/-! ### Runs -/

/-- A scope binds as many names as there are in a list without repetitions. -/
theorem Scope.size_eq_length {s : Scope} {xs : List String} (hxs : xs.Nodup)
    (h : ∀ x, s.binds x = true ↔ x ∈ xs) : s.size = xs.length := by
  have hperm : s.bindings.keys.Perm xs := by
    rw [List.perm_ext_iff_of_nodup Std.ExtTreeMap.nodup_keys hxs]
    intro x
    rw [Std.ExtTreeMap.mem_keys, ← Std.ExtTreeMap.contains_iff_mem]
    exact h x
  rw [Scope.size, ← Std.ExtTreeMap.length_keys, hperm.length_eq]

theorem Machine.find?_start (s : Ref) (x : String) :
    (start.session.arena.scope s).find? x = none := by
  rw [Arena.scope_of_size_le _ (Nat.zero_le s)]
  simp [Scope.find?, Scope.root]

theorem Move.accounts (m : Move) {c : Machine} (hc : c.session.Sound)
    (hrooted : c.session.arena.Rooted) :
    Accounts c.session.arena (m.ledger c) (m.perform c).session.arena := by
  cases m with
  | step s => exact s.accounts hc hrooted
  | enter b =>
    rw [session_enter]
    exact b.accounts hc hrooted
  | leave =>
    rw [Move.perform]
    split
    · exact .refl _
    · exact Bracket.accounts _ _
  | record tag report => exact .refl _

namespace Machine

theorem accounts_run {c : Machine} (hc : c.session.Sound) (hrooted : c.session.arena.Rooted)
    (ms : List Move) : Accounts c.session.arena (c.ledger ms) (c.run ms).session.arena := by
  induction ms generalizing c with
  | nil => exact .refl _
  | cons m ms ih =>
    have hgrows := m.perform_grows c hc
    have hlater := ih hgrows.sound (hrooted.of_grows hc.closed hgrows.arena)
    exact (m.accounts hc hrooted).trans hlater

/-- What any scope contains in any state of a run. It binds the names that have been defined in it
or copied into it and no others, every name to what was written to it last, and it is as large as
there are such names; without any write it is empty. -/
theorem scopes_contain_latest (ms : List Move) (s : Ref) :
    (∀ x, ((start.run ms).session.arena.scope s).binds x = true ↔
      ∃ w ∈ start.ledger ms, w.isAt s x = true ∧ w.binds = true) ∧
    (∀ x, ((start.run ms).session.arena.scope s).find? x = Write.latest (start.ledger ms) s x) ∧
    ((start.run ms).session.arena.scope s).size = (Write.names (start.ledger ms) s).length ∧
    (((start.run ms).session.arena.scope s).size = 0 ↔ ∀ w ∈ start.ledger ms, w.scope ≠ s) := by
  have hrooted : start.session.arena.Rooted := Reachable.rooted (Leads.refl start)
  have haccounts := accounts_run Session.sound_empty hrooted ms
  have hfind : ∀ x, ((start.run ms).session.arena.scope s).find? x =
      Write.latest (start.ledger ms) s x := by
    intro x
    rw [haccounts.find?_eq, find?_start, Option.or_none]
  have hbinds : ∀ x, ((start.run ms).session.arena.scope s).binds x = true ↔
      x ∈ Write.names (start.ledger ms) s := by
    intro x
    rw [Write.mem_names_iff, Scope.binds_eq_isSome, hfind, Write.isSome_latest_iff]
    constructor
    · intro hw
      refine (haccounts.founded s x hw).resolve_right ?_
      rw [Scope.binds_eq_isSome, find?_start]
      simp
    · rintro ⟨w, hw, hat, -⟩
      exact ⟨w, hw, hat⟩
  have hsize := Scope.size_eq_length (List.nodup_dedup _) hbinds
  refine ⟨fun x => (hbinds x).trans Write.mem_names_iff, hfind, hsize, ?_⟩
  rw [hsize, List.length_eq_zero_iff, List.eq_nil_iff_forall_not_mem]
  constructor
  · rintro hnone w hw rfl
    have hbound : (Write.latest (start.ledger ms) w.scope w.name).isSome = true :=
      Write.isSome_latest_iff.mpr ⟨w, hw, Write.isAt_iff.mpr ⟨rfl, rfl⟩⟩
    rw [← hfind, ← Scope.binds_eq_isSome] at hbound
    exact hnone w.name ((hbinds w.name).mp hbound)
  · intro hnone x hx
    obtain ⟨w, hw, hat, -⟩ := Write.mem_names_iff.mp hx
    exact hnone w hw (Write.isAt_iff.mp hat).1

/-- The block assigns to the global name before it hides it, and one of its assignments fails. -/
example : start.ledger
    [.step (.newEnvironment "e"), .step (.environment "e" (.define "x" .nil)), .step (.push "e" 1),
      .step (.environment "e" (.assign (.identifier "x" 1) (.bool true))),
      .step (.environment "e" (.assign (.identifier "y" 1) .nil)),
      .step (.environment "e" (.define "x" (.bool false)))] =
    [⟨.defined, 0, "x", .nil⟩, ⟨.assigned, 0, "x", .bool true⟩,
      ⟨.defined, 1, "x", .bool false⟩] := by
  decide +kernel

end Machine

end ScopeChain
