import ScopeChain.Proofs.Runs
import ScopeChain.Proofs.Walks

/-!
Exactly when an access is refused. A walk takes one kind of hold of every scope that it visits, so
it is refused just if one of these scopes does not grant it. What else is held makes no difference:
an access that is not refused comes to what it comes to when nothing is held at all.
-/
namespace ScopeChain

namespace Store

variable {α : Type}

/-- The same cells, held as the function says. -/
def withHolds (s : Store α) (holds : Ref → Hold) : Store α :=
  ⟨s.cells.mapIdx fun r c => { c with hold := holds r }⟩

variable (s : Store α) (holds : Ref → Hold)

@[simp] theorem size_withHolds : (s.withHolds holds).size = s.size := by
  simp [withHolds, size]

@[simp] theorem value_withHolds [Inhabited α] (r : Ref) :
    (s.withHolds holds).value r = s.value r := by
  simp [withHolds, value, Function.comp_def]

theorem hold_withHolds {r : Ref} (hr : r < s.size) : (s.withHolds holds).hold r = holds r := by
  have hr' : r < s.cells.size := hr
  simp [withHolds, hold, hr']

theorem update_withHolds (r : Ref) (f : α → α) :
    (s.withHolds holds).update r f = (s.update r f).withHolds holds := by
  simp only [withHolds, update, mk.injEq]
  apply Array.ext_getElem?
  intro i
  simp only [Array.getElem?_modify, Array.getElem?_mapIdx]
  split <;> simp [Function.comp_def]

theorem withHolds_withHolds (holds' : Ref → Hold) :
    (s.withHolds holds).withHolds holds' = s.withHolds holds' := by
  simp [withHolds, Function.comp_def, Array.mapIdx_mapIdx]

end Store

namespace Arena

variable {α : Type} {a : Arena} {m : Mode} {r : Ref} {l : List Ref}

/-- The same scopes, held as the function says. -/
def withHolds (a : Arena) (holds : Ref → Hold) : Arena :=
  { a with scopes := a.scopes.withHolds holds }

/-- The same scopes, none of them held. -/
def unheld (a : Arena) : Arena := a.withHolds fun _ => .free

/-- The result of an attempt that was not granted a hold. -/
def Refused (result : Except Failure α) : Prop := ∃ m, result = .error (.refused m)

/-- The attempt is refused just under the condition. When it is not, it answers, does and reports
what it does when nothing is held, and leaves the holds as they are. -/
structure RefusedIff (act : Attempt α) (a : Arena) (holds : Ref → Hold) (p : Prop) : Prop where
  refused_iff : Refused (act (a.withHolds holds)).1 ↔ p
  granted : ¬ p → act (a.withHolds holds) =
    ((act a.unheld).1, (act a.unheld).2.withHolds holds)

@[simp] theorem scope_withHolds (a : Arena) (holds : Ref → Hold) (r : Ref) :
    (a.withHolds holds).scope r = a.scope r :=
  a.scopes.value_withHolds holds r

theorem grants_withHolds (hr : r < a.scopes.size) (holds : Ref → Hold) (m : Mode) :
    (a.withHolds holds).scopes.grants r m = (holds r).grants m := by
  rw [Store.grants]
  exact congrArg (·.grants m) (a.scopes.hold_withHolds holds hr)

theorem grants_unheld (hr : r < a.scopes.size) (m : Mode) :
    a.unheld.scopes.grants r m = true := by
  rw [unheld, grants_withHolds hr]
  cases m <;> simp [Hold.free, Hold.grants]

theorem withHolds_unheld (a : Arena) (holds : Ref → Hold) :
    a.unheld.withHolds holds = a.withHolds holds := by
  simp only [unheld, withHolds, Store.withHolds_withHolds]

theorem defineInside_withHolds (r : Ref) (x : String) (v : Value) (holds : Ref → Hold) :
    (a.withHolds holds).defineInside r x v = (a.defineInside r x v).withHolds holds := by
  simp [defineInside, withHolds, Store.update_withHolds]

theorem visited_withHolds (stop : Scope → Bool) (holds : Ref → Hold) (l : List Ref) :
    (a.withHolds holds).visited stop l = a.visited stop l := by
  simp only [visited, scope_withHolds]

theorem Chain.withHolds (h : a.Chain r l) (holds : Ref → Hold) : (a.withHolds holds).Chain r l :=
  h.of_parents fun q _ => by rw [scope_withHolds]

theorem grants_shared_eq_false_iff (h : Hold) : h.grants .shared = false ↔ h = .exclusive := by
  cases h <;> simp [Hold.grants]

theorem grants_exclusive_eq_false_iff (h : Hold) : h.grants .exclusive = false ↔ h ≠ .free := by
  cases h <;> simp [Hold.grants, Hold.free]

/-- What is done under the holds of a walk is never refused itself, and does not look at holds. -/
structure Oblivious (act : Attempt α) : Prop where
  blind : Blind act
  not_refused : ∀ a, ¬ Refused (act a).1
  withHolds_eq : ∀ (a : Arena) holds,
    act (a.withHolds holds) = ((act a).1, (act a).2.withHolds holds)

theorem oblivious_lookup (l : List Ref) (t : Token) : Oblivious (lookup l t) where
  blind := blind_lookup l t
  not_refused a := by
    rintro ⟨m, hm⟩
    unfold lookup at hm
    split at hm <;> simp at hm
  withHolds_eq a holds := by
    have hfound : (a.withHolds holds).found l t.lexeme = a.found l t.lexeme := by
      simp only [found, scope_withHolds]
    simp only [lookup, hfound]
    cases a.found l t.lexeme <;> rfl

theorem oblivious_defineInside (o : Ref) (x : String) (v : Value) :
    Oblivious fun a => ((.ok () : Except Failure Unit), a.defineInside o x v) where
  blind := blind_defineInside o x v
  not_refused a := by
    rintro ⟨m, hm⟩
    cases hm
  withHolds_eq a holds := by rw [defineInside_withHolds]

theorem oblivious_overwrite (l : List Ref) (t : Token) (v : Value) :
    Oblivious (overwrite l t v) where
  blind := blind_overwrite l t v
  not_refused a := by
    rintro ⟨m, hm⟩
    unfold overwrite at hm
    split at hm <;> simp at hm
  withHolds_eq a holds := by
    simp only [overwrite, scope_withHolds]
    cases l.find? fun q => (a.scope q).binds t.lexeme with
    | none => rfl
    | some o => simp only [defineInside_withHolds]

theorem oblivious_count (l : List Ref) : Oblivious (count l) where
  blind := blind_count l
  not_refused a := by
    rintro ⟨m, hm⟩
    simp [count] at hm
  withHolds_eq a holds := rfl

/-- Holds that are taken one inside the other are refused just if one of them is. -/
theorem Oblivious.refusedIff {act finish : Attempt α} (hfinish : Oblivious finish)
    (hl : l.Nodup) (hlt : ∀ q ∈ l, q < a.scopes.size)
    (hact : ∀ holds, act (a.withHolds holds) = holdingAll m l finish (a.withHolds holds))
    (holds : Ref → Hold) :
    RefusedIff act a holds (∃ q ∈ l, (holds q).grants m = false) := by
  have hgrants : (∀ q ∈ l, (a.withHolds holds).scopes.grants q m = true) ↔
      ¬ ∃ q ∈ l, (holds q).grants m = false := by
    simp only [not_exists, not_and, Bool.not_eq_false]
    exact forall₂_congr fun q hq => by rw [grants_withHolds (hlt q hq)]
  have hunheld : act a.unheld = finish a.unheld := by
    have h := hact fun _ => .free
    rw [holdingAll_eq hfinish.blind hl] at h
    exact h.trans (if_pos fun q hq => grants_unheld (hlt q hq) m)
  have hheld := hact holds
  rw [holdingAll_eq hfinish.blind hl] at hheld
  refine ⟨⟨fun hrefused => ?_, fun hp => ?_⟩, fun hp => ?_⟩
  · by_contra hp
    rw [hheld, if_pos (hgrants.mpr hp)] at hrefused
    exact hfinish.not_refused _ hrefused
  · rw [hheld, if_neg fun h => hgrants.mp h hp]
    exact ⟨m, rfl⟩
  · rw [hheld, if_pos (hgrants.mpr hp), hunheld, ← withHolds_unheld, hfinish.withHolds_eq]

section Walks

variable (h : a.Chain r l) (hlt : ∀ q ∈ l, q < a.scopes.size) (holds : Ref → Hold)
include h hlt

omit h in
theorem lt_size_of_mem_visited {stop : Scope → Bool} : ∀ q ∈ a.visited stop l, q < a.scopes.size :=
  fun q hq => hlt q ((a.visited_sublist stop l).mem hq)

theorem get_refusedIff (t : Token) : RefusedIff (get r t) a holds
    (∃ q ∈ a.visited (·.binds t.lexeme) l, holds q = .exclusive) := by
  have hact : ∀ holds, (a.withHolds holds).get r t =
      holdingAll .shared (a.visited (·.binds t.lexeme) l) (lookup l t) (a.withHolds holds) := by
    intro holds
    rw [get_eq_holdingAll (h.withHolds holds), visited_withHolds]
  have hrefused := (oblivious_lookup l t).refusedIff (h.visited_nodup _)
    (lt_size_of_mem_visited hlt) hact holds
  simpa only [grants_shared_eq_false_iff] using hrefused

theorem assign_refusedIff (t : Token) (v : Value) : RefusedIff (assign r t v) a holds
    (∃ q ∈ a.visited (·.binds t.lexeme) l, holds q ≠ .free) := by
  have hact : ∀ holds, (a.withHolds holds).assign r t v =
      holdingAll .exclusive (a.visited (·.binds t.lexeme) l) (overwrite l t v)
        (a.withHolds holds) := by
    intro holds
    rw [assign_eq_holdingAll (h.withHolds holds), visited_withHolds]
  have hrefused := (oblivious_overwrite l t v).refusedIff (h.visited_nodup _)
    (lt_size_of_mem_visited hlt) hact holds
  simpa only [grants_exclusive_eq_false_iff] using hrefused

theorem depth_refusedIff : RefusedIff (depth r) a holds (∃ q ∈ l, holds q = .exclusive) := by
  have hact : ∀ holds, (a.withHolds holds).depth r =
      holdingAll .shared l (count l) (a.withHolds holds) :=
    fun holds => depth_eq_holdingAll (h.withHolds holds)
  have hrefused := (oblivious_count l).refusedIff h.nodup hlt hact holds
  simpa only [grants_shared_eq_false_iff] using hrefused

end Walks

theorem define_refusedIff (hr : r < a.scopes.size) (holds : Ref → Hold) (x : String) (v : Value) :
    RefusedIff (define r x v) a holds (holds r ≠ .free) := by
  have hact : ∀ holds, define r x v (a.withHolds holds) =
      holdingAll .exclusive [r] (fun b => (.ok (), b.defineInside r x v)) (a.withHolds holds) :=
    fun _ => rfl
  have hrefused := (oblivious_defineInside r x v).refusedIff (List.pairwise_singleton _ r)
    (by simpa using hr) hact holds
  simpa [grants_exclusive_eq_false_iff] using hrefused

end Arena

/-! ### What takes no hold -/

namespace EnvironmentStep

/-- Another stack and handles to what is on the stack. -/
def isHoldFree : EnvironmentStep → Bool
  | .child _ | .bindGlobal _ | .capture _ => true
  | _ => false

end EnvironmentStep

namespace ScopeStep

/-- New scopes inside and other handles. -/
def isHoldFree : ScopeStep → Bool
  | .child .. | .share _ => true
  | _ => false

end ScopeStep

namespace Step

/-- The steps that only make scopes, move along a stack or compare and hand on handles. -/
def isHoldFree : Step → Bool
  | .environment _ s => s.isHoldFree
  | .scope _ s => s.isHoldFree
  | _ => true

end Step

namespace Session

variable {α : Type} {σ : Session} {f : Failure}

/-- The same session with its scopes held as the function says. -/
def withHolds (σ : Session) (holds : Ref → Hold) : Session :=
  { σ with arena := σ.arena.withHolds holds }

theorem onScope_ne_access (name : String) {act : Ref → Attempt α}
    (hact : ∀ r, (act r σ).1 ≠ .error (.access f)) :
    (onScope name act σ).1 ≠ .error (.access f) := by
  unfold onScope
  split
  · exact hact _
  · simp

theorem onEnvironment_ne_access (name : String) {act : Environment → Attempt α}
    (hact : ∀ e, (act e σ).1 ≠ .error (.access f)) :
    (onEnvironment name act σ).1 ≠ .error (.access f) := by
  unfold onEnvironment
  split
  · exact hact _
  · simp

theorem repeated_ne_access {act : Attempt Answer} (hact : ∀ σ, (act σ).1 ≠ .error (.access f))
    (n : Nat) : (repeated act n σ).1 ≠ .error (.access f) := by
  induction n generalizing σ with
  | zero => simp [repeated]
  | succ n ih =>
    have hfirst := hact σ
    rw [repeated]
    split
    · exact ih
    · next heq =>
      rw [heq] at hfirst
      exact hfirst

end Session

theorem Step.restack_ne_access (name : String) (change : Environment → Arena → Environment × Arena)
    (σ : Session) (f : Failure) : (restack name change σ).1 ≠ .error (.access f) :=
  Session.onEnvironment_ne_access name fun e => by simp

theorem Step.perform_ne_access (s : Step) (hs : s.isHoldFree = true) (σ : Session) (f : Failure) :
    (s.perform σ).1 ≠ .error (.access f) := by
  cases s with
  | environment name s =>
    refine Session.onEnvironment_ne_access name fun e => ?_
    cases s with
    | child x => simp [EnvironmentStep.perform]
    | bindGlobal x => simp [EnvironmentStep.perform]
    | capture x => simp [EnvironmentStep.perform]
    | _ => cases hs
  | scope name s =>
    refine Session.onScope_ne_access name fun r => ?_
    cases s with
    | child x times => simp [ScopeStep.perform, Session.accessThen]
    | share x => simp [ScopeStep.perform]
    | _ => cases hs
  | push name times =>
    exact Session.repeated_ne_access (fun σ => restack_ne_access name _ σ f) times
  | pushIn name parent =>
    exact Session.onScope_ne_access parent fun r => restack_ne_access name _ σ f
  | pop name times =>
    exact Session.repeated_ne_access (fun σ => restack_ne_access name _ σ f) times
  | same left right =>
    refine Session.onScope_ne_access left fun r => ?_
    exact Session.onScope_ne_access right fun q => by simp
  | _ => simp [perform]

theorem Block.enter_ne_access (b : Block) (hb : b.holdsNothing = true) (σ : Session) (f : Failure) :
    (b.enter σ).1 ≠ .error (.access f) := by
  match b with
  | .scoped name => exact Session.onEnvironment_ne_access name fun e => by simp [enterFrame]
  | .scopedIn name parent =>
    refine Session.onScope_ne_access parent fun r => ?_
    exact Session.onEnvironment_ne_access name fun e => by simp [enterFrame]
  | .holding name m inner => cases hb
  | .catching => simp [enter]

namespace Machine

open Arena (RefusedIff)

/-- However the scopes of a run are held, an access through a handle is refused just if a scope
that it visits is held in a manner that does not go with its own holds: of all scopes up to the
first that binds the name when it reads or assigns, of the whole chain when it counts, and of the
one scope that it defines in. An access that is granted comes to what it comes to when nothing is
held. What takes no hold is never refused. -/
theorem refused_iff_visited_held {c : Machine} (hc : c.Reachable) (holds : Ref → Hold) :
    (∀ s < c.session.arena.scopes.size, ∃ l, c.session.arena.Chain s l ∧
      (∀ t, RefusedIff (Arena.get s t) c.session.arena holds
        (∃ q ∈ c.session.arena.visited (·.binds t.lexeme) l, holds q = .exclusive)) ∧
      (∀ t v, RefusedIff (Arena.assign s t v) c.session.arena holds
        (∃ q ∈ c.session.arena.visited (·.binds t.lexeme) l, holds q ≠ .free)) ∧
      RefusedIff (Arena.depth s) c.session.arena holds (∃ q ∈ l, holds q = .exclusive) ∧
      ∀ x v, RefusedIff (Arena.define s x v) c.session.arena holds (holds s ≠ .free)) ∧
    (∀ s : Step, s.isHoldFree = true →
      ∀ f, (s.perform (c.session.withHolds holds)).1 ≠ .error (.access f)) ∧
    ∀ b : Block, b.holdsNothing = true →
      ∀ f, (b.enter (c.session.withHolds holds)).1 ≠ .error (.access f) := by
  refine ⟨fun s hs => ?_, fun s hfree f => s.perform_ne_access hfree _ f,
    fun b hb f => b.enter_ne_access hb _ f⟩
  obtain ⟨l, hl⟩ := hc.rooted s
  have hlt := hl.lt_size hc.sound.closed hs
  exact ⟨l, hl, Arena.get_refusedIff hl hlt holds, Arena.assign_refusedIff hl hlt holds,
    Arena.depth_refusedIff hl hlt holds, Arena.define_refusedIff hs holds⟩

/-- Two blocks inside the global scope, the outer one of which binds a name. -/
def boundBetween : Machine := start.run
  [.step (.newEnvironment "e"), .step (.push "e" 1), .step (.environment "e" (.define "x" .nil)),
    .step (.push "e" 1)]

/-- The global scope is written to while the scope inside it is read. -/
def heldOutside : Ref → Hold
  | 0 => .exclusive
  | 1 => .shared 1
  | _ => .free

/-- From the innermost scope the name can be read but not overwritten, and the chain not counted. -/
theorem refused_iff_visited_held_boundBetween :
    boundBetween.Reachable ∧ 2 < boundBetween.session.arena.scopes.size ∧
      boundBetween.session.arena.Chain 2 [2, 1, 0] ∧
      ¬ Arena.Refused ((boundBetween.session.arena.withHolds heldOutside).get 2
        (.identifier "x" 1)).1 ∧
      Arena.Refused ((boundBetween.session.arena.withHolds heldOutside).assign 2
        (.identifier "x" 1) (.bool true)).1 ∧
      Arena.Refused ((boundBetween.session.arena.withHolds heldOutside).depth 2).1 ∧
      ((Step.push "e" 1).perform (boundBetween.session.withHolds heldOutside)).1 ≠
        .error (.access (.refused .shared)) := by
  have hreach : boundBetween.Reachable := ⟨_, rfl⟩
  have hlt : 2 < boundBetween.session.arena.scopes.size := by decide +kernel
  have hchain : boundBetween.session.arena.Chain 2 [2, 1, 0] :=
    .inner (by decide +kernel) (.inner (by decide +kernel) (.root (by decide +kernel)))
  have hvisited : boundBetween.session.arena.visited (·.binds "x") [2, 1, 0] = [2, 1] := by
    decide +kernel
  obtain ⟨hwalks, hsteps, -⟩ := refused_iff_visited_held hreach heldOutside
  obtain ⟨l, hl, hget, hassign, hdepth, -⟩ := hwalks 2 hlt
  obtain rfl := hl.unique hchain
  refine ⟨hreach, hlt, hchain, ?_, ?_, hdepth.refused_iff.mpr ⟨0, by simp, rfl⟩,
    hsteps (.push "e" 1) rfl _⟩
  · rw [(hget (.identifier "x" 1)).refused_iff]
    show ¬ ∃ q ∈ boundBetween.session.arena.visited (·.binds "x") [2, 1, 0], _
    rw [hvisited]
    decide
  · rw [(hassign (.identifier "x" 1) (.bool true)).refused_iff]
    show ∃ q ∈ boundBetween.session.arena.visited (·.binds "x") [2, 1, 0], _
    rw [hvisited]
    exact ⟨1, by simp, by decide⟩

end Machine

end ScopeChain
