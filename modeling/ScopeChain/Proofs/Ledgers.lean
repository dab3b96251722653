import Mathlib.Data.List.Dedup
import ScopeChain.Proofs.Lookups
import ScopeChain.Proofs.Owners
import ScopeChain.Proofs.Runs

/-!
Ledgers. Of every move in a run the ledger has what it has written and where: a definition in the
scope that it is made in, an assignment in the nearest scope that binds its name by then, a copy
once for each binding that it takes along. What fails writes nothing.
-/
namespace ScopeChain

/-- How a name has come to a value. -/
inductive Origin where
  | defined
  | assigned
  | copied
  deriving DecidableEq

/-- A value that has been written under a name of a scope. -/
structure Write where
  origin : Origin
  scope : Ref
  name : String
  value : Value
  deriving DecidableEq

namespace Write

def isAt (w : Write) (s : Ref) (x : String) : Bool := w.scope = s && w.name = x

/-- A name can only be assigned to when it is bound already. -/
def binds (w : Write) : Bool := w.origin ≠ .assigned

/-- The value that was written last under a name of a scope. -/
def latest (ws : List Write) (s : Ref) (x : String) : Option Value :=
  (ws.reverse.find? (·.isAt s x)).map (·.value)

/-- The names that have been defined in a scope or copied into it, each once. -/
def names (ws : List Write) (s : Ref) : List String :=
  ((ws.filter fun w => w.scope = s && w.binds).map (·.name)).dedup

/-- What fails writes nothing. -/
def ifOk {ε α : Type} (result : Except ε α) (ws : List Write) : List Write :=
  match result with
  | .ok _ => ws
  | .error _ => []

end Write

/-! ### What is written -/

namespace Arena

def definition (r : Ref) (x : String) (v : Value) : List Write := [⟨.defined, r, x, v⟩]

/-- An assignment through a scope goes to the owner of the name. -/
def assignment (a : Arena) (r : Ref) (t : Token) (v : Value) : List Write :=
  (a.owner? t.lexeme r).toList.map fun o => ⟨.assigned, o, t.lexeme, v⟩

/-- The copy of a scope is the next scope to be made. -/
def copied (a : Arena) (r : Ref) : List Write :=
  (a.scope r).bindings.toList.map fun (x, v) => ⟨.copied, a.scopes.size, x, v⟩

end Arena

def EnvironmentStep.written (s : EnvironmentStep) (a : Arena) (e : Environment) : List Write :=
  match s with
  | .define x v => Arena.definition e.current x v
  | .defineGlobal x v => Arena.definition e.global x v
  | .assign t v => a.assignment e.current t v
  | _ => []

def ScopeStep.written (s : ScopeStep) (a : Arena) (r : Ref) : List Write :=
  match s with
  | .define x v => Arena.definition r x v
  | .assign t v => a.assignment r t v
  | .copy _ => a.copied r
  | _ => []

/-- What the step writes if it succeeds. -/
def Step.written (s : Step) (σ : Session) : List Write :=
  match s with
  | .environment name s => σ.environments[name]?.elim [] (s.written σ.arena)
  | .scope name s => σ.scopes[name]?.elim [] (s.written σ.arena)
  | _ => []

def Step.ledger (s : Step) (σ : Session) : List Write := Write.ifOk (s.perform σ).1 (s.written σ)

def Direct.written {m : Mode} (d : Direct m) (a : Arena) (r : Ref) : List Write :=
  match d with
  | .define x v => Arena.definition r x v
  | .assign t v => a.assignment r t v
  | _ => []

/-- Each access inside a held scope starts from what those before have left. -/
def Direct.ledger {m : Mode} : List (Direct m) → Ref → Arena → List Write
  | [], _, _ => []
  | d :: ds, r, a => Write.ifOk (d.perform r a).1 (d.written a r) ++ ledger ds r (d.perform r a).2

def Block.ledger (b : Block) (σ : Session) : List Write :=
  match b with
  | .holding name m inner =>
    Write.ifOk (b.enter σ).1
      (σ.scopes[name]?.elim [] fun r => Direct.ledger inner r (σ.arena.acquire r m))
  | _ => []

def Move.ledger (m : Move) (c : Machine) : List Write :=
  match m with
  | .step s => s.ledger c.session
  | .enter b => b.ledger c.session
  | .leave | .record .. => []

/-- The writes of a run, in order. -/
def Machine.ledger : Machine → List Move → List Write
  | _, [] => []
  | c, m :: ms => m.ledger c ++ (m.perform c).ledger ms

/-! ### Lists of writes -/

namespace Write

variable {ws vs : List Write} {w : Write} {s : Ref} {x : String}

theorem isAt_iff : w.isAt s x = true ↔ w.scope = s ∧ w.name = x := by
  simp [isAt]

theorem binds_iff : w.binds = true ↔ w.origin ≠ .assigned := by
  simp [binds]

theorem latest_append (ws vs : List Write) (s : Ref) (x : String) :
    latest (ws ++ vs) s x = (latest vs s x).or (latest ws s x) := by
  simp only [latest, List.reverse_append, List.find?_append, Option.map_or]

theorem isSome_latest_iff : (latest ws s x).isSome = true ↔ ∃ w ∈ ws, w.isAt s x = true := by
  simp [latest]

/-- It does not matter which write is the last one if all of them are of one value. -/
theorem latest_eq_some {v : Value} (hmem : ∃ w ∈ ws, w.isAt s x = true)
    (hvalue : ∀ w ∈ ws, w.isAt s x = true → w.value = v) : latest ws s x = some v := by
  obtain ⟨w, hw⟩ := Option.isSome_iff_exists.mp (isSome_latest_iff.mpr hmem)
  obtain ⟨u, hu, rfl⟩ := Option.map_eq_some_iff.mp hw
  have humem : u ∈ ws := List.mem_reverse.mp (List.mem_of_find?_eq_some hu)
  have hat := List.find?_some hu
  rw [hw, hvalue u humem hat]

theorem latest_eq_none (h : ∀ w ∈ ws, w.isAt s x = false) : latest ws s x = none := by
  simpa [latest] using h

theorem mem_names_iff : x ∈ names ws s ↔ ∃ w ∈ ws, w.isAt s x = true ∧ w.binds = true := by
  simp only [names, List.mem_dedup, List.mem_map, List.mem_filter, isAt_iff, Bool.and_eq_true,
    decide_eq_true_eq]
  constructor
  · rintro ⟨w, ⟨hw, hscope, hbinds⟩, hname⟩
    exact ⟨w, hw, ⟨hscope, hname⟩, hbinds⟩
  · rintro ⟨w, hw, ⟨hscope, hname⟩, hbinds⟩
    exact ⟨w, ⟨hw, hscope, hbinds⟩, hname⟩

end Write

namespace Arena

open Write (latest)

variable {a b c : Arena} {ws vs : List Write} {r : Ref}

/-- From `a` to `b` just these writes have been made, and no name has been assigned to that was not
bound by then. -/
structure Accounts (a : Arena) (ws : List Write) (b : Arena) : Prop where
  find?_eq : ∀ s x, (b.scope s).find? x = (latest ws s x).or ((a.scope s).find? x)
  founded : ∀ s x, (∃ w ∈ ws, w.isAt s x = true) →
    (∃ w ∈ ws, w.isAt s x = true ∧ w.binds = true) ∨ (a.scope s).binds x = true

theorem Accounts.of_bindings (h : ∀ r, (b.scope r).bindings = (a.scope r).bindings) :
    Accounts a [] b where
  find?_eq s x := by simp only [latest, List.reverse_nil, List.find?_nil, Option.map_none,
    Option.none_or, Scope.find?, h]
  founded s x hw := by simp at hw

theorem Accounts.of_scopes_eq (h : b.scopes = a.scopes) : Accounts a [] b :=
  .of_bindings fun r => by rw [scope, h, scope]

theorem Accounts.refl (a : Arena) : Accounts a [] a := .of_scopes_eq rfl

theorem Accounts.trans (h : Accounts a ws b) (h' : Accounts b vs c) : Accounts a (ws ++ vs) c where
  find?_eq s x := by rw [h'.find?_eq, h.find?_eq, Write.latest_append, Option.or_assoc]
  founded s x := by
    have hlift : (∃ w ∈ ws, w.isAt s x = true) →
        (∃ w ∈ ws ++ vs, w.isAt s x = true ∧ w.binds = true) ∨ (a.scope s).binds x = true := by
      intro hw
      refine (h.founded s x hw).imp_left ?_
      rintro ⟨u, hu, hat⟩
      exact ⟨u, List.mem_append_left _ hu, hat⟩
    rintro ⟨w, hw, hat⟩
    rcases List.mem_append.mp hw with hw | hw
    · exact hlift ⟨w, hw, hat⟩
    · rcases h'.founded s x ⟨w, hw, hat⟩ with ⟨u, hu, hbinds⟩ | hbound
      · exact .inl ⟨u, List.mem_append_right _ hu, hbinds⟩
      · -- The name has been bound in `b` already, be it by one of the writes before or in `a`.
        rw [Scope.binds_eq_isSome, h.find?_eq, Option.isSome_or, Bool.or_eq_true,
          Write.isSome_latest_iff, ← Scope.binds_eq_isSome] at hbound
        exact hbound.elim hlift .inr

theorem Accounts.of_define {o : Ref} {x : String} {v : Value} {origin : Origin}
    (ho : o < a.scopes.size) (hbound : origin ≠ .assigned ∨ (a.scope o).binds x = true)
    (hb : b.scopes = (a.defineInside o x v).scopes) : Accounts a [⟨origin, o, x, v⟩] b where
  find?_eq s y := by
    have hscope : b.scope s = (a.defineInside o x v).scope s := by rw [scope, hb, scope]
    rw [hscope, scope_defineInside]
    by_cases hs : s = o
    · subst hs
      by_cases hy : y = x
      · simp [latest, Write.isAt, Scope.find?_define, ho, hy]
      · simp [latest, Write.isAt, Scope.find?_define, ho, hy, Ne.symm hy]
    · simp [latest, Write.isAt, hs, Ne.symm hs]
  founded s y := by
    rintro ⟨w, hw, hat⟩
    obtain rfl := List.mem_singleton.mp hw
    refine hbound.imp (fun h => ⟨_, hw, hat, Write.binds_iff.mpr h⟩) fun h => ?_
    obtain ⟨rfl, rfl⟩ := Write.isAt_iff.mp hat
    exact h

theorem accounts_definition {x : String} {v : Value} (hr : r < a.scopes.size)
    (hb : b.scopes = (a.defineInside r x v).scopes) : Accounts a (definition r x v) b :=
  .of_define hr (.inl (by simp)) hb

theorem Chain.accounts_assignment {l : List Ref} {o : Ref} {t : Token} {v : Value}
    (h : a.Chain r l) (ho : a.owner? t.lexeme r = some o)
    (hb : b.scopes = (a.defineInside o t.lexeme v).scopes) :
    Accounts a (a.assignment r t v) b := by
  have hbinds := ((h.owner?_eq_some_iff _ o).mp ho).2
  rw [assignment, ho]
  exact .of_define (lt_size_of_binds hbinds) (.inr hbinds) hb

theorem latest_copied (a : Arena) (r s : Ref) (x : String) :
    latest (a.copied r) s x = if s = a.scopes.size then (a.scope r).find? x else none := by
  have hmem : ∀ w ∈ a.copied r, w.isAt s x = true →
      s = a.scopes.size ∧ (a.scope r).find? x = some w.value := by
    intro w hw hat
    obtain ⟨⟨y, v⟩, hy, rfl⟩ := List.mem_map.mp hw
    obtain ⟨rfl, rfl⟩ := Write.isAt_iff.mp hat
    exact ⟨rfl, Std.ExtTreeMap.mem_toList_iff_getElem?_eq_some.mp hy⟩
  split
  · next hs =>
    cases hv : (a.scope r).find? x with
    | none =>
      refine Write.latest_eq_none fun w hw => Bool.eq_false_iff.mpr fun hat => ?_
      cases hv.symm.trans (hmem w hw hat).2
    | some v =>
      have hxv : (x, v) ∈ (a.scope r).bindings.toList :=
        Std.ExtTreeMap.mem_toList_iff_getElem?_eq_some.mpr hv
      refine Write.latest_eq_some ⟨_, List.mem_map_of_mem hxv, ?_⟩ fun w hw hat => ?_
      · exact Write.isAt_iff.mpr ⟨hs.symm, rfl⟩
      · exact Option.some.inj ((hmem w hw hat).2.symm.trans hv)
  · next hs =>
    exact Write.latest_eq_none fun w hw => Bool.eq_false_iff.mpr fun hat => hs (hmem w hw hat).1

theorem accounts_copied (a : Arena) (r : Ref) :
    Accounts a (a.copied r) (a.alloc (a.scope r)).2 where
  find?_eq s x := by
    have hscope : (a.alloc (a.scope r)).2.scope s =
        if s = a.scopes.size then a.scope r else a.scope s := a.scopes.value_alloc (a.scope r) s
    rw [hscope, latest_copied]
    by_cases hs : s = a.scopes.size
    · have hnew : (a.scope s).find? x = none := by
        rw [scope_of_size_le a (Nat.le_of_eq hs.symm)]
        simp [Scope.find?, Scope.root]
      rw [if_pos hs, if_pos hs, hnew, Option.or_none]
    · rw [if_neg hs, if_neg hs, Option.none_or]
  founded s x := by
    rintro ⟨w, hw, hat⟩
    refine .inl ⟨w, hw, hat, ?_⟩
    obtain ⟨_, _, rfl⟩ := List.mem_map.mp hw
    rfl

end Arena

end ScopeChain
