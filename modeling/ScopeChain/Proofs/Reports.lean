import ScopeChain.Proofs.SoundSessions

/-!
What is reported from one state to a later one. An access to a scope reports no more than that a
name is undefined, and this can be told from its result. It tells nothing of a stack; of all
that is done with an environment and leaves its stack as it is, only a definition reports how
deep the stack is.
-/
namespace ScopeChain

/-- The depth of a stack that an event tells of, if any. -/
def Event.depth? : Event → Option Nat
  | .pushScope depth | .pushCallScope depth | .popScope depth | .define _ depth => some depth
  | .assign .. | .lookupUndefined .. | .assignUndefined .. => none

/-- What is done with one name. -/
inductive NameAccess where
  | get (t : Token)
  | define (name : String) (v : Value)
  | assign (t : Token) (v : Value)

namespace NameAccess

/-- What the access reports once it has come to a result. -/
def told {α : Type} (o : NameAccess) (result : Except Failure α) : List Event :=
  match o, result with
  | .get t, .error (.undefined _) => [.lookupUndefined t.lexeme t.line]
  | .assign t _, .error (.undefined _) => [.assignUndefined t.lexeme t.line]
  | _, _ => []

/-- The error if no scope within reach binds the name; a definition has none. -/
def error? : NameAccess → Option RuntimeError
  | .get t | .assign t _ => some (.undefinedVariable t)
  | .define .. => none

end NameAccess

/-- The access to one name that the step consists in, if it is one. -/
def EnvironmentStep.nameAccess? : EnvironmentStep → Option NameAccess
  | .get t => some (.get t)
  | .define x v => some (.define x v)
  | .assign t v => some (.assign t v)
  | _ => none

namespace Arena

/-- From `a` to `b` the events `es` have been reported. -/
def Reports (a : Arena) (es : List Event) (b : Arena) : Prop :=
  b.trace.toList = a.trace.toList ++ es

/-- From `a` to `b` nothing has been reported that tells of a depth. -/
def Quiet (a b : Arena) : Prop := ∃ es, a.Reports es b ∧ ∀ ev ∈ es, ev.depth? = none

variable {α β : Type} {a b c : Arena} {m : Mode} {r : Ref} {o : NameAccess} {es fs : List Event}

theorem Reports.trans (h : a.Reports es b) (h' : b.Reports fs c) : a.Reports (es ++ fs) c := by
  unfold Reports at *
  rw [h', h, List.append_assoc]

theorem Reports.of_trace_eq (h : b.trace = a.trace) : a.Reports [] b := by
  rw [Reports, h, List.append_nil]

theorem reports_emit (ev : Event) (a : Arena) : a.Reports [ev] (a.emit ev) := by
  simp [Reports, emit]

theorem Reports.quiet (h : a.Reports [] b) : a.Quiet b := ⟨[], h, by simp⟩

theorem Quiet.refl (a : Arena) : a.Quiet a := Reports.quiet (.of_trace_eq rfl)

theorem Quiet.trans (h : a.Quiet b) (h' : b.Quiet c) : a.Quiet c := by
  obtain ⟨es, hes, hquiet⟩ := h
  obtain ⟨fs, hfs, hquiet'⟩ := h'
  refine ⟨es ++ fs, hes.trans hfs, fun ev hev => ?_⟩
  exact (List.mem_append.mp hev).elim (hquiet ev) (hquiet' ev)

theorem quiet_emit {ev : Event} (hev : ev.depth? = none) (a : Arena) : a.Quiet (a.emit ev) :=
  ⟨[ev], reports_emit ev a, by simpa using hev⟩

/-! ### Accesses that report nothing -/

/-- An attempt that reports nothing. -/
def Silent (act : Attempt α) : Prop := ∀ a : Arena, a.Reports [] (act a).2

theorem Silent.holding {act : Attempt α} (h : Silent act) : Silent (holding r m act) := by
  intro a
  unfold Arena.holding
  split
  · exact h (a.acquire r m)
  · exact .of_trace_eq rfl

theorem silent_define (r : Ref) (x : String) (v : Value) : Silent (define r x v) :=
  Silent.holding fun _ => .of_trace_eq rfl

theorem silent_inspect (r : Ref) (f : Scope → α) : Silent (inspect r f) :=
  Silent.holding fun _ => .of_trace_eq rfl

theorem silent_depthInside (fuel : Nat) (r : Ref) : Silent (depthInside fuel r) := by
  induction fuel generalizing r with
  | zero =>
    intro a
    unfold depthInside
    split <;> exact .of_trace_eq rfl
  | succ fuel ih =>
    intro a
    unfold depthInside
    split
    · exact .of_trace_eq rfl
    · exact (ih _).holding a

theorem silent_depth (r : Ref) : Silent (depth r) :=
  fun a => (silent_depthInside a.fuel r).holding a

theorem silent_list (r : Ref) (names : List String) : Silent (list r names) := by
  intro a
  unfold list
  split
  · exact .of_trace_eq rfl
  · split <;> exact .of_trace_eq rfl

theorem silent_copy (r : Ref) : Silent (copy r) := by
  intro a
  have hinspect := silent_inspect r id a
  unfold copy
  split
  · next heq =>
    rw [heq] at hinspect
    exact hinspect
  · next heq =>
    rw [heq] at hinspect
    exact hinspect

/-! ### Accesses to one name -/

/-- From `a` to `b` the access has come to the result. What has been reported can be told from that,
but for the events that come first, and an undefined name is the one that was asked for. -/
structure Tells (a : Arena) (o : NameAccess) (first : List Event) (result : Except Failure α)
    (b : Arena) : Prop where
  reports : a.Reports (first ++ o.told result) b
  error_eq : ∀ e, result = .error (.undefined e) → o.error? = some e

theorem told_map (f : α → β) (o : NameAccess) (result : Except Failure α) :
    o.told (result.map f) = o.told result := by
  cases result with
  | ok x => cases o <;> rfl
  | error g => cases o <;> cases g <;> rfl

theorem Tells.map {first : List Event} {result : Except Failure α} (h : a.Tells o first result b)
    (f : α → β) : a.Tells o first (result.map f) b where
  reports := told_map f o result ▸ h.reports
  error_eq e he := by
    cases result with
    | ok x => cases he
    | error g => exact h.error_eq e (congrArg Except.error (Except.error.inj he))

theorem told_eq_nil {result : Except Failure α} (h : ∀ e, result ≠ .error (.undefined e))
    (o : NameAccess) : o.told result = [] := by
  cases result with
  | ok x => cases o <;> rfl
  | error f =>
    cases f with
    | undefined e => exact absurd rfl (h e)
    | refused m => cases o <;> rfl
    | endless => cases o <;> rfl

theorem tells_nothing {result : Except Failure α} (h : ∀ e, result ≠ .error (.undefined e))
    (htrace : b.trace = a.trace) (o : NameAccess) : a.Tells o [] result b where
  reports := by
    rw [told_eq_nil h]
    exact .of_trace_eq htrace
  error_eq e he := absurd he (h e)

theorem tells_ok (o : NameAccess) (x : α) (htrace : b.trace = a.trace) : a.Tells o [] (.ok x) b :=
  tells_nothing (by simp) htrace o

theorem tells_undefined {t : Token} {ev : Event} {result : Except Failure α}
    (hresult : result = .error (.undefined (.undefinedVariable t)))
    (herror : o.error? = some (.undefinedVariable t)) (htold : o.told result = [ev]) (a : Arena) :
    a.Tells o [] result (a.emit ev) where
  reports := by
    rw [htold]
    exact reports_emit ev a
  error_eq e he := by
    cases hresult.symm.trans he
    exact herror

theorem tells_holding {act : Attempt α} (h : ∀ a : Arena, a.Tells o [] (act a).1 (act a).2)
    (a : Arena) : a.Tells o [] (holding r m act a).1 (holding r m act a).2 := by
  unfold Arena.holding
  split
  · exact ⟨(h (a.acquire r m)).reports, (h (a.acquire r m)).error_eq⟩
  · exact tells_nothing (by simp) rfl o

/-- The scope that the walk ends at reports for all of them. -/
theorem tells_getInside (fuel : Nat) (r : Ref) (t : Token) (a : Arena) :
    a.Tells (.get t) [] (getInside fuel r t a).1 (getInside fuel r t a).2 := by
  induction fuel generalizing r a with
  | zero =>
    unfold getInside
    split
    · exact tells_ok _ _ rfl
    · split
      · exact tells_undefined rfl rfl rfl a
      · exact tells_nothing (by simp) rfl _
  | succ fuel ih =>
    unfold getInside
    split
    · exact tells_ok _ _ rfl
    · split
      · exact tells_undefined rfl rfl rfl a
      · exact tells_holding (ih _) a

theorem tells_assignInside (fuel : Nat) (r : Ref) (t : Token) (v : Value) (a : Arena) :
    a.Tells (.assign t v) [] (assignInside fuel r t v a).1 (assignInside fuel r t v a).2 := by
  induction fuel generalizing r a with
  | zero =>
    unfold assignInside
    split
    · exact tells_ok _ _ rfl
    · split
      · exact tells_undefined rfl rfl rfl a
      · exact tells_nothing (by simp) rfl _
  | succ fuel ih =>
    unfold assignInside
    split
    · exact tells_ok _ _ rfl
    · split
      · exact tells_undefined rfl rfl rfl a
      · exact tells_holding (ih _) a

theorem tells_get (r : Ref) (t : Token) (a : Arena) :
    a.Tells (.get t) [] (get r t a).1 (get r t a).2 :=
  tells_holding (tells_getInside a.fuel r t) a

theorem tells_assign (r : Ref) (t : Token) (v : Value) (a : Arena) :
    a.Tells (.assign t v) [] (assign r t v a).1 (assign r t v a).2 :=
  tells_holding (tells_assignInside a.fuel r t v) a

/-! ### Accesses that tell nothing of a stack -/

theorem depth?_told (o : NameAccess) (result : Except Failure α) :
    ∀ ev ∈ o.told result, ev.depth? = none := by
  intro ev hev
  unfold NameAccess.told at hev
  split at hev
  · obtain rfl := List.mem_singleton.mp hev
    rfl
  · obtain rfl := List.mem_singleton.mp hev
    rfl
  · cases hev

theorem Tells.quiet {result : Except Failure α} (h : a.Tells o [] result b) : a.Quiet b :=
  ⟨_, h.reports, depth?_told o result⟩

end Arena

namespace Session

variable {α : Type}

theorem silent_accessThen {act : Arena.Attempt α} {finish : α → Session → Answer × Session}
    (hact : Arena.Silent act) (hfinish : ∀ x τ, (finish x τ).2.arena = τ.arena) (σ : Session) :
    σ.arena.Reports [] (accessThen act finish σ).2.arena := by
  have hreports := hact σ.arena
  unfold accessThen
  cases hresult : (act σ.arena).1 with
  | ok x =>
    simp only [hresult, hfinish]
    exact hreports
  | error f =>
    simp only [hresult]
    exact hreports

theorem silent_access {act : Arena.Attempt α} (hact : Arena.Silent act) (answer : α → Answer)
    (σ : Session) : σ.arena.Reports [] (access act answer σ).2.arena :=
  silent_accessThen hact (fun _ _ => rfl) σ

theorem silent_inspect (r : Ref) (write : Outline → Option Doc) (layout : Layout) (σ : Session) :
    σ.arena.Reports [] (inspect r write layout σ).2.arena := by
  rw [inspect_snd]
  exact .of_trace_eq rfl

end Session

theorem EnvironmentStep.silent {s : EnvironmentStep} (h : s.nameAccess? = none) (e : Environment)
    (σ : Session) : σ.arena.Reports [] (s.perform e σ).2.arena := by
  cases s with
  | get t => cases h
  | define x v => cases h
  | assign t v => cases h
  | defineGlobal x v => exact Session.silent_access (Arena.silent_define e.global x v) _ σ
  | inspect layout => exact Session.silent_inspect _ _ _ σ
  | list names => exact Session.silent_access (Arena.silent_list e.current names) _ σ
  | _ => exact .of_trace_eq rfl

theorem EnvironmentStep.quiet {s : EnvironmentStep} (hs : ∀ x v, s ≠ .define x v) (e : Environment)
    (σ : Session) : σ.arena.Quiet (s.perform e σ).2.arena := by
  cases s with
  | define x v => exact absurd rfl (hs x v)
  | get t =>
    rw [perform, Session.arena_access]
    exact (Arena.tells_get e.current t σ.arena).quiet
  | assign t v =>
    rw [perform, Session.arena_access]
    exact (Arena.quiet_emit rfl σ.arena).trans (Arena.tells_assign e.current t v _).quiet
  | _ => exact (EnvironmentStep.silent rfl e σ).quiet

end ScopeChain
