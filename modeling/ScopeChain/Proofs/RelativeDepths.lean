import ScopeChain.Arena

/-!
Depths that are counted from somewhere on the stack. What an access answers, does and reports is
decided by the scopes alone; only the depths in what it reports say how many scopes there are below
those that are counted.
-/
namespace ScopeChain

/-- The event as it is reported with so many more scopes below on the stack. -/
def Event.raise (d : Nat) : Event → Event
  | .pushScope n => .pushScope (n + d)
  | .pushCallScope n => .pushCallScope (n + d)
  | .popScope n => .popScope (n + d)
  | .define name n => .define name (n + d)
  | e => e

namespace Arena

/-- What comes of the attempt is decided by the scopes, but for the number that is added to the
depths it reports. -/
def Relative {α : Type} (act : Nat → Attempt α) : Prop :=
  ∀ scopes, ∃ result scopes' events, ∀ d trace,
    act d ⟨scopes, trace⟩ = (result, ⟨scopes', trace ++ (List.map (Event.raise d) events).toArray⟩)

variable {α : Type} {act : Nat → Attempt α}

theorem Relative.holding (h : Relative act) (r : Ref) (m : Mode) :
    Relative fun d => holding r m (act d) := by
  intro scopes
  cases hgrant : scopes.grants r m with
  | false => exact ⟨.error (.refused m), scopes, [], fun d trace => by simp [Arena.holding, hgrant]⟩
  | true =>
    obtain ⟨result, scopes', events, hact⟩ := h (scopes.acquire r m)
    refine ⟨result, scopes'.release r m, events, fun d trace => ?_⟩
    simp [Arena.holding, hgrant, acquire, release, hact]

theorem Relative.emit (h : Relative act) (e : Event) :
    Relative fun d a => act d (a.emit (e.raise d)) := by
  intro scopes
  obtain ⟨result, scopes', events, hact⟩ := h scopes
  refine ⟨result, scopes', e :: events, fun d trace => ?_⟩
  simp [Arena.emit, hact]

theorem relative_done (result : Except Failure α) : Relative fun _ a => (result, a) :=
  fun scopes => ⟨result, scopes, [], fun _ _ => by simp⟩

theorem relative_defineInside (r : Ref) (name : String) (v : Value) :
    Relative fun _ a => ((.ok () : Except Failure Unit), a.defineInside r name v) :=
  fun scopes => ⟨.ok (), scopes.update r fun s => s.define name v, [], fun _ _ => by
    simp [defineInside]⟩

/-- An undefined name has no depth to report. -/
theorem relative_undefined (error : RuntimeError) (e : Event) (he : ∀ d, e.raise d = e) :
    Relative fun _ a => ((.error (.undefined error) : Except Failure α), a.emit e) := by
  have h := (relative_done (α := α) (.error (.undefined error))).emit e
  simpa only [he] using h

/-- A walk is relative if what it does at each scope is, unless it is to go on at the parent. -/
theorem relative_walk {m : Mode} (walk : Nat → Ref → Attempt α)
    (hwalk : ∀ fuel r scopes,
      (∃ here : Nat → Attempt α, Relative here ∧
        ∀ d trace, walk fuel r ⟨scopes, trace⟩ = here d ⟨scopes, trace⟩) ∨
      ∃ k p, fuel = k + 1 ∧
        ∀ trace, walk fuel r ⟨scopes, trace⟩ = holding p m (walk k p) ⟨scopes, trace⟩)
    (fuel : Nat) (r : Ref) : Relative fun _ => walk fuel r := by
  induction fuel using Nat.strongRecOn generalizing r with
  | ind fuel ih =>
    intro scopes
    rcases hwalk fuel r scopes with ⟨here, hhere, heq⟩ | ⟨k, p, rfl, heq⟩
    · obtain ⟨result, scopes', events, hact⟩ := hhere scopes
      exact ⟨result, scopes', events, fun d trace => (heq d trace).trans (hact d trace)⟩
    · obtain ⟨result, scopes', events, hact⟩ := (ih k (Nat.lt_succ_self k) p).holding p m scopes
      exact ⟨result, scopes', events, fun d trace => (heq trace).trans (hact d trace)⟩

theorem relative_getInside (fuel : Nat) (r : Ref) (t : Token) :
    Relative fun _ => getInside fuel r t := by
  refine relative_walk (m := .shared) (fun fuel r => getInside fuel r t)
    (fun fuel r scopes => ?_) fuel r
  cases hfind : (scopes.value r).find? t.lexeme with
  | some v =>
    refine .inl ⟨_, relative_done (.ok v), fun d trace => ?_⟩
    unfold getInside
    simp only [scope, hfind]
  | none =>
    cases hparent : (scopes.value r).parent with
    | none =>
      refine .inl ⟨_, relative_undefined (.undefinedVariable t)
        (.lookupUndefined t.lexeme t.line) fun _ => rfl, fun d trace => ?_⟩
      unfold getInside
      simp only [scope, hfind, hparent]
    | some p =>
      cases fuel with
      | zero =>
        refine .inl ⟨_, relative_done (.error .endless), fun d trace => ?_⟩
        simp only [getInside, scope, hfind, hparent]
      | succ fuel =>
        refine .inr ⟨fuel, p, rfl, fun trace => ?_⟩
        simp only [getInside, scope, hfind, hparent]

theorem relative_assignInside (fuel : Nat) (r : Ref) (t : Token) (v : Value) :
    Relative fun _ => assignInside fuel r t v := by
  refine relative_walk (m := .exclusive) (fun fuel r => assignInside fuel r t v)
    (fun fuel r scopes => ?_) fuel r
  cases hbinds : (scopes.value r).binds t.lexeme with
  | true =>
    refine .inl ⟨_, relative_defineInside r t.lexeme v, fun d trace => ?_⟩
    unfold assignInside
    simp only [scope, hbinds, if_true]
  | false =>
    cases hparent : (scopes.value r).parent with
    | none =>
      refine .inl ⟨_, relative_undefined (.undefinedVariable t)
        (.assignUndefined t.lexeme t.line) fun _ => rfl, fun d trace => ?_⟩
      unfold assignInside
      simp only [scope, hbinds, Bool.false_eq_true, if_false, hparent]
    | some p =>
      cases fuel with
      | zero =>
        refine .inl ⟨_, relative_done (.error .endless), fun d trace => ?_⟩
        simp only [assignInside, scope, hbinds, Bool.false_eq_true, if_false, hparent]
      | succ fuel =>
        refine .inr ⟨fuel, p, rfl, fun trace => ?_⟩
        simp only [assignInside, scope, hbinds, Bool.false_eq_true, if_false, hparent]

/-! ### Through a handle -/

theorem relative_get (r : Ref) (t : Token) : Relative fun _ => get r t :=
  fun scopes => (relative_getInside scopes.size r t).holding r .shared scopes

theorem relative_assign (r : Ref) (t : Token) (v : Value) : Relative fun _ => assign r t v :=
  fun scopes => (relative_assignInside scopes.size r t v).holding r .exclusive scopes

theorem relative_define (r : Ref) (name : String) (v : Value) : Relative fun _ => define r name v :=
  (relative_defineInside r name v).holding r .exclusive

end Arena

end ScopeChain
