import Mathlib.Logic.Function.Iterate
import ScopeChain.Proofs.Contents
import ScopeChain.Proofs.Refusals

/-!
Calls that update a captured name. Such a call enters a new scope inside the captured one, reads
the name and overwrites it with what a function makes of its value. The new scope binds nothing,
so each call comes to the slot that the name has outside; what else happens does not move this
slot unless it defines the name on the way there. So no update is lost: the calls of a run read
and write one value after the other, whichever environments they come from.
-/
namespace ScopeChain

namespace Arena

/-- From the scope `r` the name is resolved in the scope `o`, which binds it to `v`. -/
structure Slot (a : Arena) (x : String) (r o : Ref) (v : Value) : Prop where
  owner : a.Owner x r o
  find?_eq : (a.scope o).find? x = some v

variable {a b : Arena} {x : String} {r s o : Ref} {v w : Value} {t : Token} {ws : List Write}

theorem Reaches.lt_size_of_ne (h : a.Reaches x r o) (hne : r ≠ o) : r < a.scopes.size := by
  obtain ⟨pre, post, hchain, -⟩ := h
  obtain ⟨outer, houter⟩ := hchain.exists_cons
  rw [houter] at hchain
  cases hchain with
  | root hp =>
    cases pre with
    | nil => exact absurd (List.cons.inj houter).1.symm hne
    | cons q pre => simp at houter
  | inner hp _ => exact lt_size_of_parent hp

theorem Owner.lt_size (h : a.Owner x r o) : r < a.scopes.size := by
  by_cases hr : r = o
  · exact hr ▸ lt_size_of_binds h.2
  · exact h.1.lt_size_of_ne hr

/-- The scopes from which a name is resolved at its owner are joined by each scope that is put
inside one of them and does not bind the name itself. -/
theorem Owner.inner (h : a.Owner x r o) (hparent : (a.scope s).parent = some r)
    (hs : (a.scope s).binds x = false) : a.Owner x s o := by
  obtain ⟨⟨pre, post, hchain, hpre⟩, hbinds⟩ := h
  refine ⟨⟨s :: pre, post, .inner hparent hchain, ?_⟩, hbinds⟩
  intro q hq
  rcases List.mem_cons.mp hq with rfl | hq
  · exact hs
  · exact hpre q hq

theorem found_of_binds {pre : List Ref} (hpre : ∀ q ∈ pre, (a.scope q).binds x = false)
    (hbinds : (a.scope o).binds x = true) (post : List Ref) :
    a.found (pre ++ o :: post) x = (a.scope o).find? x := by
  induction pre with
  | nil => exact found_cons_of_binds hbinds post
  | cons q pre ih =>
    rw [List.cons_append, found_cons_of_not_binds (hpre q (by simp))]
    exact ih fun p hp => hpre p (by simp [hp])

namespace Slot

variable (h : a.Slot x r o v)
include h

/-- Only a scope up to the owner can be in the way of reading the name. -/
theorem get (ht : t.lexeme = x) (hheld : ∀ q, a.Reaches x r q → a.scopes.hold q ≠ .exclusive) :
    a.get r t = (.ok v, a) := by
  subst ht
  obtain ⟨⟨pre, post, hchain, hpre⟩, hbinds⟩ := h.owner
  have hgrants : ∀ q ∈ a.visited (·.binds t.lexeme) (pre ++ o :: post),
      a.scopes.grants q .shared = true := by
    intro q hq
    have hne := hheld q ((hchain.reaches_iff t.lexeme q).mpr hq)
    rw [← Bool.not_eq_false]
    exact mt (grants_shared_eq_false_iff _).mp hne
  rw [get_eq_holdingAll hchain, holdingAll_eq (blind_lookup _ t) (hchain.visited_nodup _),
    if_pos hgrants, lookup, found_of_binds hpre hbinds, h.find?_eq]

theorem get_of_free (hfree : a.Free) (ht : t.lexeme = x) : a.get r t = (.ok v, a) := by
  apply h.get ht
  intro q _
  rw [hfree q]
  exact fun hheld => by cases hheld

theorem emit (e : Event) : (a.emit e).Slot x r o v := by
  obtain ⟨⟨pre, post, hchain, hpre⟩, hbinds⟩ := h.owner
  exact ⟨⟨⟨pre, post, hchain.of_parents fun _ _ => rfl, hpre⟩, hbinds⟩, h.find?_eq⟩

theorem assign_of_free (hfree : a.Free) (ht : t.lexeme = x) (w : Value) :
    a.assign r t w = (.ok (), a.defineInside o x w) := by
  subst ht
  obtain ⟨pre, post, hchain, -⟩ := h.owner.1
  rw [Arena.assign_of_free hchain hfree, overwrite, (hchain.owner_iff t.lexeme o).mp h.owner]

/-- To overwrite the name is one write, to the owner. -/
theorem accounts_write (e : Event) (w : Value) :
    Accounts a [⟨.assigned, o, x, w⟩] ((a.emit e).defineInside o x w) :=
  .of_define (lt_size_of_binds h.owner.2) (.inr h.owner.2) rfl

end Slot

/-- As long as nothing on the way to it comes to bind the name, the owner of a name stays so. -/
theorem Owner.of_accounts (howner : a.Owner x r o) (hclosed : a.Closed) (hgrows : Grows a b)
    (haccounts : Accounts a ws b)
    (hspares : ∀ w ∈ ws, w.name = x → w.binds = true → ¬ a.Reaches x r w.scope) :
    b.Owner x r o := by
  have hlt := howner.lt_size
  obtain ⟨⟨pre, post, hchain, hpre⟩, hbinds⟩ := howner
  refine ⟨⟨pre, post, hchain.of_grows hclosed hlt hgrows, ?_⟩, ?_⟩
  · intro q hq
    have hreaches : a.Reaches x r q := by
      obtain ⟨inside, outside, rfl⟩ := List.append_of_mem hq
      refine ⟨inside, outside ++ o :: post, by simpa using hchain, ?_⟩
      exact fun p hp => hpre p (by simp [hp])
    have hnone : Write.latest ws q x = none := by
      apply Write.latest_eq_none
      intro w hw
      rw [← Bool.not_eq_true]
      intro hat
      -- What is assigned to has been bound before it, by one of the writes if not in `a`.
      rcases haccounts.founded q x ⟨w, hw, hat⟩ with ⟨u, hu, hat, hu'⟩ | hbound
      · obtain ⟨rfl, rfl⟩ := Write.isAt_iff.mp hat
        exact hspares u hu rfl hu' hreaches
      · rw [hpre q hq] at hbound
        cases hbound
    rw [Scope.binds_eq_isSome, haccounts.find?_eq, hnone, Option.none_or, ← Scope.binds_eq_isSome]
    exact hpre q hq
  · rw [Scope.binds_eq_isSome, haccounts.find?_eq, Option.isSome_or, ← Scope.binds_eq_isSome,
      hbinds, Bool.or_true]

end Arena

open Arena (Slot Accounts)

/-! ### Moves that spare a slot -/

/-- The move neither assigns to the name in the scope `o`, nor defines it in a scope from `r` up to
the first that binds it. -/
def Move.SparesSlot (m : Move) (c : Machine) (x : String) (r o : Ref) : Prop :=
  ∀ w ∈ m.ledger c, w.name = x →
    (w.origin = .assigned → w.scope ≠ o) ∧
    (w.origin = .defined → ¬ c.session.arena.Reaches x r w.scope)

/-- Whatever the writes have copied is in scopes from the number `n` on. -/
def Write.CopiedFrom (n : Nat) (ws : List Write) : Prop :=
  ∀ w ∈ ws, w.origin = .copied → n ≤ w.scope

namespace Write.CopiedFrom

variable {n : Nat} {us ws : List Write} {a : Arena} {r : Ref} {v : Value}

theorem nil (n : Nat) : CopiedFrom n [] := by
  intro w hw
  cases hw

theorem append (h : CopiedFrom n us) (h' : CopiedFrom n ws) : CopiedFrom n (us ++ ws) := by
  intro w hw
  exact (List.mem_append.mp hw).elim (h w) (h' w)

theorem ifOk {ε α : Type} (h : CopiedFrom n ws) (result : Except ε α) :
    CopiedFrom n (ifOk result ws) := by
  cases result with
  | ok _ => exact h
  | error _ => exact nil n

theorem elim {α : Type} {f : α → List Write} (h : ∀ x, CopiedFrom n (f x)) (o : Option α) :
    CopiedFrom n (o.elim [] f) := by
  cases o with
  | none => exact nil n
  | some x => exact h x

theorem definition (n : Nat) (r : Ref) (x : String) (v : Value) :
    CopiedFrom n (Arena.definition r x v) := by
  intro w hw horigin
  obtain rfl := List.mem_singleton.mp hw
  cases horigin

theorem assignment (n : Nat) (a : Arena) (r : Ref) (t : Token) (v : Value) :
    CopiedFrom n (a.assignment r t v) := by
  intro w hw horigin
  obtain ⟨o, -, rfl⟩ := List.mem_map.mp hw
  cases horigin

theorem copied (a : Arena) (r : Ref) : CopiedFrom a.scopes.size (a.copied r) := by
  intro w hw _
  obtain ⟨binding, -, rfl⟩ := List.mem_map.mp hw
  exact Nat.le_refl _

end Write.CopiedFrom

open Write (CopiedFrom)

theorem EnvironmentStep.copiedFrom (s : EnvironmentStep) (n : Nat) (a : Arena) (e : Environment) :
    CopiedFrom n (s.written a e) := by
  cases s with
  | define x v => exact .definition n e.current x v
  | defineGlobal x v => exact .definition n e.global x v
  | assign t v => exact .assignment n a e.current t v
  | _ => exact .nil n

theorem ScopeStep.copiedFrom (s : ScopeStep) (a : Arena) (r : Ref) :
    CopiedFrom a.scopes.size (s.written a r) := by
  cases s with
  | define x v => exact .definition _ r x v
  | assign t v => exact .assignment _ a r t v
  | copy name => exact .copied a r
  | _ => exact .nil _

theorem Direct.copiedFrom {m : Mode} (ds : List (Direct m)) (n : Nat) (r : Ref) (a : Arena) :
    CopiedFrom n (Direct.ledger ds r a) := by
  induction ds generalizing a with
  | nil => exact .nil n
  | cons d ds ih =>
    refine .append (.ifOk ?_ _) (ih _)
    cases d with
    | define x v => exact .definition n r x v
    | assign t v => exact .assignment n a r t v
    | _ => exact .nil n

theorem Block.copiedFrom (b : Block) (n : Nat) (σ : Session) : CopiedFrom n (b.ledger σ) := by
  cases b with
  | holding name m inner => exact .ifOk (.elim (fun r => Direct.copiedFrom inner n r _) _) _
  | _ => exact .nil n

/-- A copy is always a new scope. -/
theorem Move.copiedFrom (m : Move) (c : Machine) :
    CopiedFrom c.session.arena.scopes.size (m.ledger c) := by
  cases m with
  | step s =>
    refine .ifOk ?_ _
    cases s with
    | environment name s => exact .elim (fun e => s.copiedFrom _ _ e) _
    | scope name s => exact .elim (fun r => s.copiedFrom _ r) _
    | _ => exact .nil _
  | enter b => exact b.copiedFrom _ c.session
  | leave => exact .nil _
  | record tag report => exact .nil _

namespace Machine

variable {c : Machine} {x : String} {r o : Ref} {v : Value}

/-- A move that spares a slot leaves it where it is, with the value that it has. -/
theorem Reachable.slot_perform (hc : c.Reachable) (h : c.session.arena.Slot x r o v) {m : Move}
    (hspares : m.SparesSlot c x r o) : (m.perform c).session.arena.Slot x r o v := by
  have hclosed := hc.sound.closed
  have haccounts := m.accounts hc.sound hc.rooted
  have hdefined : ∀ w ∈ m.ledger c, w.name = x → w.binds = true →
      ¬ c.session.arena.Reaches x r w.scope := by
    intro w hw hname hbinds hreaches
    cases horigin : w.origin with
    | assigned => exact Write.binds_iff.mp hbinds horigin
    | defined => exact (hspares w hw hname).2 horigin hreaches
    | copied =>
      have hle := m.copiedFrom c w hw horigin
      obtain ⟨pre, post, hchain, -⟩ := hreaches
      have hlt := hchain.lt_size hclosed h.owner.lt_size w.scope (by simp)
      exact absurd hlt (Nat.not_lt.mpr hle)
  have hspared : Write.latest (m.ledger c) o x = none := by
    apply Write.latest_eq_none
    intro w hw
    rw [← Bool.not_eq_true]
    intro hat
    obtain ⟨rfl, rfl⟩ := Write.isAt_iff.mp hat
    by_cases horigin : w.origin = .assigned
    · exact (hspares w hw rfl).1 horigin rfl
    · exact hdefined w hw rfl (Write.binds_iff.mpr horigin) h.owner.1
  constructor
  · exact h.owner.of_accounts hclosed (m.perform_grows c hc.sound).arena haccounts hdefined
  · rw [haccounts.find?_eq, hspared, Option.none_or, h.find?_eq]

end Machine

/-! ### Calls -/

/-- A call in an environment, in a new scope inside the one that the handle is to. It reads a name
and overwrites it, at two places of a program. -/
structure Call where
  environment : String
  handle : String
  source : Token
  target : Token

namespace Call

def block (k : Call) : Block := .scopedIn k.environment k.handle

/-- Read a name and overwrite it with what `f` makes of the value; answer both values. -/
def update (f : Value → Value) (k : Call) (e : Environment) : Arena.Attempt (Value × Value) :=
  fun a =>
    match e.get k.source a with
    | (.error g, a) => (.error g, a)
    | (.ok v, a) =>
      match e.assign k.target (f v) a with
      | (.error g, a) => (.error g, a)
      | (.ok (), a) => (.ok (v, f v), a)

def body (f : Value → Value) (k : Call) : Session.Attempt (Value × Value) :=
  Session.onEnvironment k.environment fun e σ =>
    let (result, arena) := k.update f e σ.arena
    (result.mapError .access, { σ with arena })

def perform (f : Value → Value) (k : Call) : Session.Attempt (Value × Value) := fun σ =>
  match k.block.enter σ with
  | (.error g, σ) => (.error g, σ)
  | (.ok (bracket, _), σ) =>
    let (result, σ) := k.body f σ
    (result, bracket.leave σ)

/-- The moves that a call comes to when it reads `v`. -/
def moves (f : Value → Value) (v : Value) (k : Call) : List Move :=
  [.enter k.block, .step (.environment k.environment (.get k.source)),
    .step (.environment k.environment (.assign k.target (f v))), .leave]

/-- Nothing is held at the call, the handle is to `r`, and the name is `x` at both places. -/
structure Ready (k : Call) (c : Machine) (x : String) (r : Ref) : Prop where
  free : c.session.arena.Free
  known : ∃ e, c.session.environments[k.environment]? = some e
  handle_eq : c.session.scopes[k.handle]? = some r
  source_eq : k.source.lexeme = x
  target_eq : k.target.lexeme = x

variable {k : Call} {c : Machine} {f : Value → Value} {x : String} {r o : Ref} {v : Value}

section Granted

variable {σ τ : Session} {e : Environment} {entry : Option Report} {b : Arena}
  (henter : k.block.enter σ = (.ok (.frame k.environment, entry), τ))
  (he : τ.environments[k.environment]? = some e)
  (hget : e.get k.source τ.arena = (.ok v, τ.arena))
  (hassign : e.assign k.target (f v) τ.arena = (.ok (), b))
include henter he hget hassign

theorem perform_eq : k.perform f σ =
    (.ok (v, f v), (Bracket.frame k.environment).leave { τ with arena := b }) := by
  have hbody : k.body f τ = (.ok (v, f v), { τ with arena := b }) := by
    simp only [body, update, Session.onEnvironment, he, hget, hassign]
    rfl
  simp only [perform, henter, hbody]

theorem run_moves (brackets : List Bracket) : Machine.run ⟨σ, brackets⟩ (k.moves f v) =
    ⟨(k.perform f σ).2, brackets⟩ := by
  have hread : ((Step.environment k.environment (.get k.source)).perform τ).2 = τ := by
    rw [Step.perform_environment he, EnvironmentStep.perform, Session.access_snd, hget]
  have hwrite : ((Step.environment k.environment (.assign k.target (f v))).perform τ).2 =
      { τ with arena := b } := by
    rw [Step.perform_environment he, EnvironmentStep.perform, Session.access_snd, hassign]
  rw [perform_eq henter he hget hassign]
  simp only [moves, Machine.run, List.foldl_cons, List.foldl_nil, Move.perform, henter, hread,
    hwrite]

end Granted

end Call

namespace Environment

variable {a : Arena} {x : String} {r o : Ref} {v : Value} {t : Token}

/-- The scope of a call binds nothing, so it comes to the slot that the captured scope leads to. -/
theorem slot_pushIn (h : a.Slot x r o v) (hclosed : a.Closed) (e : Environment) :
    (e.pushIn r a).2.Slot x (e.pushIn r a).1.current o v := by
  have hkeeps : Arena.Keeps a (e.pushIn r a).2 :=
    (Arena.keeps_newChild h.owner.lt_size).trans (.of_scopes_eq rfl)
  have hnew : (e.pushIn r a).2.scope a.scopes.size = .enclosedBy r :=
    (a.scopes.value_alloc (.enclosedBy r) _).trans (if_pos rfl)
  have howner : (e.pushIn r a).2.Owner x r o := by
    apply h.owner.of_accounts hclosed hkeeps.toGrows (e.accounts_pushIn r a)
    simp
  constructor
  · apply howner.inner
    · exact congrArg Scope.parent hnew
    · show ((e.pushIn r a).2.scope a.scopes.size).binds x = false
      rw [hnew]
      simp [Scope.enclosedBy, Scope.binds]
  · rw [hkeeps.scope_eq o (Arena.lt_size_of_binds h.owner.2), h.find?_eq]

theorem assign_of_slot {e : Environment} (h : a.Slot x e.current o v) (hfree : a.Free)
    (ht : t.lexeme = x) (w : Value) :
    e.assign t w a = (.ok (), (a.emit (.assign t.lexeme t.line)).defineInside o x w) :=
  (h.emit (.assign t.lexeme t.line)).assign_of_free hfree ht w

end Environment

namespace Call

variable {k : Call} {c : Machine} {f : Value → Value} {x : String} {r o : Ref} {v : Value}

/-- A call reads the value in the slot and writes there what `f` makes of it, and nothing else; it
is the moves that it comes to. -/
theorem Ready.updates (h : k.Ready c x r) (hc : c.session.Sound)
    (hslot : c.session.arena.Slot x r o v) :
    (k.perform f c.session).1 = .ok (v, f v) ∧
      c.run (k.moves f v) = ⟨(k.perform f c.session).2, c.brackets⟩ ∧
      Accounts c.session.arena [⟨.assigned, o, x, f v⟩] (k.perform f c.session).2.arena := by
  obtain ⟨σ, brackets⟩ := c
  obtain ⟨e, he⟩ := h.known
  have henter : k.block.enter σ = (.ok (.frame k.environment,
      some (.entered (e.pushIn r σ.arena).1.depth)), σ.restack k.environment (·.pushIn r) e) := by
    simp only [block, Block.enter, Session.onScope, h.handle_eq, Session.onEnvironment, he]
    rfl
  have hpushed := (σ.environments_restack k.environment (·.pushIn r) e k.environment).trans
    (if_pos rfl)
  have hinner := e.slot_pushIn hslot hc.closed
  have hfree : (e.pushIn r σ.arena).2.Free := by
    intro q
    have hkeeps := Arena.keeps_newChild hslot.owner.lt_size
    exact (hkeeps.hold_eq q).trans (h.free q)
  have hget := hinner.get_of_free hfree h.source_eq
  have hassign := Environment.assign_of_slot hinner hfree h.target_eq (f v)
  have hwritten := hinner.accounts_write (.assign k.target.lexeme k.target.line) (f v)
  have hperform := perform_eq henter hpushed hget hassign
  refine ⟨congrArg Prod.fst hperform, run_moves henter hpushed hget hassign brackets, ?_⟩
  have hleft := (Bracket.frame k.environment).accounts { σ.restack k.environment (·.pushIn r) e with
    arena := ((e.pushIn r σ.arena).2.emit (.assign k.target.lexeme k.target.line)).defineInside o x
      (f v) }
  rw [hperform]
  exact ((e.accounts_pushIn r σ.arena).trans hwritten).trans hleft

end Call

/-! ### Runs with calls -/

/-- What happens in a run with calls. -/
inductive Act where
  | call (k : Call)
  | move (m : Move)

namespace Act

def isCall : Act → Bool
  | .call _ => true
  | .move _ => false

def perform (f : Value → Value) (act : Act) (c : Machine) : Machine :=
  match act with
  | .call k => { c with session := (k.perform f c.session).2 }
  | .move m => m.perform c

end Act

namespace Machine

def act (f : Value → Value) (c : Machine) (acts : List Act) : Machine :=
  acts.foldl (fun c act => act.perform f c) c

/-- What the calls of a run answer, one after the other. -/
def answers (f : Value → Value) : Machine → List Act → List (Except Fault (Value × Value))
  | _, [] => []
  | c, .call k :: acts =>
    (k.perform f c.session).1 :: ((Act.call k).perform f c).answers f acts
  | c, .move m :: acts => (m.perform c).answers f acts

/-- All calls of the run go to `x` in the scope `r`, and all else in it spares the slot in `o`. -/
def Updates (f : Value → Value) (x : String) (r o : Ref) : Machine → List Act → Prop
  | _, [] => True
  | c, .call k :: acts => k.Ready c x r ∧ ((Act.call k).perform f c).Updates f x r o acts
  | c, .move m :: acts => m.SparesSlot c x r o ∧ (m.perform c).Updates f x r o acts

variable {c : Machine} {f : Value → Value} {x : String} {r o : Ref} {v : Value} {k : Call}

theorem Reachable.call (hc : c.Reachable) (h : k.Ready c x r)
    (hslot : c.session.arena.Slot x r o v) : ((Act.call k).perform f c).Reachable := by
  obtain ⟨-, hrun, -⟩ := h.updates (f := f) hc.sound hslot
  exact hc.trans ⟨k.moves f v, hrun⟩

/-- A call leaves the slot where it is, with the value that it has written. -/
theorem Reachable.slot_call (hc : c.Reachable) (h : k.Ready c x r)
    (hslot : c.session.arena.Slot x r o v) :
    ((Act.call k).perform f c).session.arena.Slot x r o (f v) := by
  obtain ⟨-, hrun, haccounts⟩ := h.updates (f := f) hc.sound hslot
  have hgrows := Leads.grows ⟨k.moves f v, hrun⟩ hc.sound
  constructor
  · apply hslot.owner.of_accounts hc.sound.closed hgrows.arena haccounts
    intro w hw _ hbinds
    obtain rfl := List.mem_singleton.mp hw
    cases hbinds
  · show ((k.perform f c.session).2.arena.scope o).find? x = some (f v)
    rw [haccounts.find?_eq]
    simp [Write.latest, Write.isAt]

/-- No update is lost. However calls from any environments and other moves follow each other, each
call reads what the call before it has written, and at the end that value is in the slot and is read
from everywhere where the name is resolved in the same scope, whether or not this scope or the
captured one is on a stack by then. -/
theorem no_update_is_lost (hc : c.Reachable) (hslot : c.session.arena.Slot x r o v)
    {acts : List Act} (hacts : c.Updates f x r o acts) :
    c.answers f acts = (List.range (acts.countP Act.isCall)).map
        (fun i => .ok (f^[i] v, f^[i + 1] v)) ∧
      (c.act f acts).session.arena.Slot x r o (f^[acts.countP Act.isCall] v) ∧
      ∀ s t, (c.act f acts).session.arena.Owner x s o → t.lexeme = x →
        (∀ q, (c.act f acts).session.arena.Reaches x s q →
          (c.act f acts).session.arena.scopes.hold q ≠ .exclusive) →
        ((c.act f acts).session.arena.get s t).1 = .ok (f^[acts.countP Act.isCall] v) := by
  induction acts generalizing c v with
  | nil =>
    refine ⟨rfl, hslot, fun s t hs ht hheld => ?_⟩
    have hread : c.session.arena.Slot x s o v := ⟨hs, hslot.find?_eq⟩
    rw [act, List.foldl_nil, hread.get ht hheld]
    rfl
  | cons act acts ih =>
    cases act with
    | call k =>
      obtain ⟨hready, hrest⟩ := hacts
      obtain ⟨hanswer, -, -⟩ := hready.updates (f := f) hc.sound hslot
      obtain ⟨hanswers, hafter⟩ := ih (hc.call hready hslot) (hc.slot_call hready hslot) hrest
      rw [List.countP_cons_of_pos rfl]
      refine ⟨?_, hafter⟩
      rw [answers, hanswer, hanswers, List.range_succ_eq_map, List.map_cons, List.map_map]
      rfl
    | move m =>
      obtain ⟨hspares, hrest⟩ := hacts
      rw [List.countP_cons_of_neg (by simp [Act.isCall])]
      exact ih (hc.trans (.move c m)) (hc.slot_perform hslot hspares) hrest

/-- The other one of two truth values. -/
def toggled : Value → Value
  | .bool b => .bool (!b)
  | v => v

/-- A scope that binds a name has been captured and is on no stack any more. -/
def captured : Machine := start.run
  [.step (.newEnvironment "e"), .step (.newEnvironment "d"), .step (.push "e" 1),
    .step (.environment "e" (.define "x" (.bool false))),
    .step (.environment "e" (.capture "c")), .step (.pop "e" 1)]

/-- Between two calls, a block of the other environment binds the same name. -/
def togglings : List Act :=
  [.call ⟨"e", "c", .identifier "x" 1, .identifier "x" 1⟩, .move (.enter (.scoped "d")),
    .move (.step (.environment "d" (.define "x" .nil))),
    .call ⟨"d", "c", .identifier "x" 2, .identifier "x" 3⟩]

/-- The scope that the block binds the name in is not on the way to the slot. -/
theorem spares_define_togglings : (Move.step (.environment "d" (.define "x" .nil))).SparesSlot
    (captured.act toggled (togglings.take 2)) "x" 2 2 := by
  have hchain : (captured.act toggled (togglings.take 2)).session.arena.Chain 2 [2, 0] :=
    .inner (by decide +kernel) (.root (by decide +kernel))
  have hledger : (Move.step (.environment "d" (.define "x" .nil))).ledger
      (captured.act toggled (togglings.take 2)) = [⟨.defined, 4, "x", .nil⟩] := by
    decide +kernel
  intro w hw _
  rw [hledger, List.mem_singleton] at hw
  subst hw
  refine ⟨by simp, fun _ => ?_⟩
  rw [hchain.reaches_iff]
  decide +kernel

theorem no_update_is_lost_togglings :
    captured.Reachable ∧ captured.session.arena.Slot "x" 2 2 (.bool false) ∧
      captured.Updates toggled "x" 2 2 togglings ∧
      captured.answers toggled togglings =
        [.ok (.bool false, .bool true), .ok (.bool true, .bool false)] ∧
      ((captured.act toggled togglings).session.arena.get 2 (.identifier "x" 4)).1 =
        .ok (.bool false) := by
  have hreach : captured.Reachable := ⟨_, rfl⟩
  have hchain : captured.session.arena.Chain 2 [2, 0] :=
    .inner (by decide +kernel) (.root (by decide +kernel))
  have hslot : captured.session.arena.Slot "x" 2 2 (.bool false) := by
    refine ⟨(hchain.owner_iff "x" 2).mpr ?_, ?_⟩ <;> decide +kernel
  have hupdates : captured.Updates toggled "x" 2 2 togglings := by
    refine ⟨⟨Arena.free_of_lt_size (by decide +kernel), ⟨_, rfl⟩, by decide +kernel, rfl, rfl⟩,
      ?_, spares_define_togglings,
      ⟨Arena.free_of_lt_size (by decide +kernel), ⟨_, rfl⟩, by decide +kernel, rfl, rfl⟩, trivial⟩
    intro w hw
    cases hw
  have hfree : (captured.act toggled togglings).session.arena.Free :=
    Arena.free_of_lt_size (by decide +kernel)
  obtain ⟨hanswers, hafter, hget⟩ := no_update_is_lost (f := toggled) hreach hslot hupdates
  refine ⟨hreach, hslot, hupdates, hanswers, hget 2 (.identifier "x" 4) hafter.owner rfl ?_⟩
  intro q _
  rw [hfree q]
  decide

end Machine

end ScopeChain
