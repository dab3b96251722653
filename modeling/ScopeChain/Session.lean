import ScopeChain.Environment

/-!
A session names environments and scopes of one arena and keeps a log. An entry says what a step
answered, how things stand after it, and what was reported since the entry before.
-/
namespace ScopeChain

/-- What a step that succeeds answers. -/
inductive Answer where
  | done
  | value (v : Value)
  | binds (b : Bool)
  | depth (n : Nat)
  | size (n : Nat)
  | hasParent (b : Bool)
  | same (b : Bool)
  | text (s : String)
  | chain (scopes : List Listing)
  deriving DecidableEq, Inhabited

/-- Why a step of a session has no answer. -/
inductive Fault where
  | access (f : Failure)
  | unknownScope
  | unknownEnvironment
  /-- The text would depend on an order of names that scopes do not keep. -/
  | unordered
  deriving DecidableEq

/-- What the log says of a step, or of entering and leaving a block. -/
inductive Report where
  | answer (a : Answer)
  | fault (f : Fault)
  | entered (depth : Nat)
  | held (inner : List (Except Failure Answer))
  | left (error : Option Fault)
  | caught

/-- What an entry of the log looks at, by name. -/
inductive Subject where
  | scope (name : String)
  | environment (name : String)
  deriving DecidableEq

/-- Depth of the chain and number of own bindings of one scope; nothing if a hold is refused. -/
abbrev Extent := Option (Nat × Nat)

/-- How a subject stands; for an environment, its stack's depth and its current scope. -/
inductive Standing where
  | unknown
  | scope (extent : Extent)
  | environment (depth : Nat) (extent : Extent)
  deriving DecidableEq

/-- How a step appears in the log. -/
structure Tag where
  label : String
  subject : Subject
  deriving DecidableEq

structure Entry where
  label : String
  report : Report
  standing : Standing
  events : List Event

/-- The first `reported` events have been passed on to the log. -/
structure Session where
  arena : Arena
  environments : Std.ExtTreeMap String Environment
  scopes : Std.ExtTreeMap String Ref
  log : Array Entry
  reported : Nat

/-- Depth of a scope's chain and number of its own bindings. -/
def Arena.extent (a : Arena) (r : Ref) : Extent :=
  match a.depth r with
  | (.ok depth, a) =>
    match (a.inspect r Scope.size).1 with
    | .ok size => some (depth, size)
    | .error _ => none
  | (.error _, _) => none

namespace Session

def empty : Session := ⟨.empty, ∅, ∅, #[], 0⟩

instance : Inhabited Session := ⟨empty⟩

def bindEnvironment (name : String) (e : Environment) (σ : Session) : Session :=
  { σ with environments := σ.environments.insert name e }

def bindScope (name : String) (r : Ref) (σ : Session) : Session :=
  { σ with scopes := σ.scopes.insert name r }

def forgetScope (name : String) (σ : Session) : Session :=
  { σ with scopes := σ.scopes.erase name }

/-- A session with one environment. -/
def withEnvironment (name : String) : Session :=
  let (e, arena) := Environment.create .empty
  { empty with arena }.bindEnvironment name e

def standing (σ : Session) : Subject → Standing
  | .scope name =>
    match σ.scopes[name]? with
    | some r => .scope (σ.arena.extent r)
    | none => .unknown
  | .environment name =>
    match σ.environments[name]? with
    | some e => .environment e.depth (σ.arena.extent e.current)
    | none => .unknown

/-- Add an entry to the log. -/
def record (σ : Session) (tag : Tag) (report : Report) : Session :=
  let events := (σ.arena.trace.extract σ.reported).toList
  let entry := ⟨tag.label, report, σ.standing tag.subject, events⟩
  { σ with log := σ.log.push entry, reported := σ.arena.trace.size }

/-- What may fail, and changes the session even then. -/
abbrev Attempt (α : Type) := Session → Except Fault α × Session

/-- An access to the arena, and what the session makes of its result. -/
def accessThen {α : Type} (act : Arena.Attempt α) (finish : α → Session → Answer × Session) :
    Attempt Answer := fun σ =>
  let (result, arena) := act σ.arena
  let σ := { σ with arena }
  match result with
  | .ok v =>
    let (answer, σ) := finish v σ
    (.ok answer, σ)
  | .error f => (.error (.access f), σ)

/-- An access to the arena, with its result read as an answer. -/
def access {α : Type} (act : Arena.Attempt α) (answer : α → Answer) : Attempt Answer :=
  accessThen act fun v σ => (answer v, σ)

def onScope {α : Type} (name : String) (act : Ref → Attempt α) : Attempt α := fun σ =>
  match σ.scopes[name]? with
  | some r => act r σ
  | none => (.error .unknownScope, σ)

def onEnvironment {α : Type} (name : String) (act : Environment → Attempt α) : Attempt α :=
  fun σ =>
    match σ.environments[name]? with
    | some e => act e σ
    | none => (.error .unknownEnvironment, σ)

/-- The same attempt so many times over, up to its first error. -/
def repeated (act : Attempt Answer) : Nat → Attempt Answer
  | 0, σ => (.ok .done, σ)
  | n + 1, σ =>
    match act σ with
    | (.ok _, σ) => repeated act n σ
    | (.error f, σ) => (.error f, σ)

/-- A change of one environment's stack. -/
def restack (name : String) (change : Environment → Arena → Environment × Arena)
    (e : Environment) (σ : Session) : Session :=
  let (e, arena) := change e σ.arena
  { σ with arena }.bindEnvironment name e

/-- A text made from the outline of a scope, which must not depend on an order of names. -/
def inspect (r : Ref) (write : Outline → Option Doc) (layout : Layout) : Attempt Answer := fun σ =>
  match σ.arena.outline r with
  | .error f => (.error (.access f), σ)
  | .ok o =>
    if o.isOrderFree then
      match write o with
      | some doc => (.ok (.text (doc layout)), σ)
      | none => (.error (.access (.refused .shared)), σ)
    else (.error .unordered, σ)

end Session

end ScopeChain
