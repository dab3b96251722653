import ScopeChain.Event
import ScopeChain.RuntimeError
import ScopeChain.Scope

/-!
Scopes that enclose one another, and the walks from a scope outward that resolve a name. A walk
holds every scope it visits until it is over: shared to read, exclusively to assign. So it is
refused where a scope on its way is held in another manner, and leaves all holds as it found them.

Each access comes by two routes: through a handle, which takes the hold of the scope itself, and
inside a scope that the caller holds already.
-/
namespace ScopeChain

/-- Why an access to a scope has no answer. -/
inductive Failure where
  | undefined (error : RuntimeError)
  | refused (m : Mode)
  /-- The walk passed more parents than there are scopes, so its chain has no root. -/
  | endless
  deriving DecidableEq

/-- The scopes made so far and the events reported so far. -/
structure Arena where
  scopes : Store Scope
  trace : Array Event

namespace Arena

def empty : Arena := ⟨.empty, #[]⟩

instance : Inhabited Arena := ⟨empty⟩

/-- What may fail, and changes the arena even then. -/
abbrev Attempt (α : Type) := Arena → Except Failure α × Arena

def scope (a : Arena) (r : Ref) : Scope := a.scopes.value r

def emit (e : Event) (a : Arena) : Arena := { a with trace := a.trace.push e }

/-- Make a scope; nothing refers to it yet. -/
def alloc (s : Scope) (a : Arena) : Ref × Arena :=
  let (r, scopes) := a.scopes.alloc s
  (r, { a with scopes })

def newRoot (a : Arena) : Ref × Arena := a.alloc .root

def newChild (parent : Ref) (a : Arena) : Ref × Arena := a.alloc (.enclosedBy parent)

/-- The innermost of a number of new scopes, each around the next, the first enclosed by `r`. -/
def nest : Nat → Ref → Arena → Ref × Arena
  | 0, r, a => (r, a)
  | n + 1, r, a =>
    let (child, a) := a.newChild r
    a.nest n child

def acquire (a : Arena) (r : Ref) (m : Mode) : Arena :=
  { a with scopes := a.scopes.acquire r m }

def release (a : Arena) (r : Ref) (m : Mode) : Arena :=
  { a with scopes := a.scopes.release r m }

@[simp] theorem scopes_emit (e : Event) (a : Arena) : (a.emit e).scopes = a.scopes := rfl

@[simp] theorem scope_emit (e : Event) (a : Arena) (r : Ref) : (a.emit e).scope r = a.scope r := rfl

@[simp] theorem scope_acquire (a : Arena) (r : Ref) (m : Mode) (q : Ref) :
    (a.acquire r m).scope q = a.scope q :=
  a.scopes.value_acquire r m q

@[simp] theorem scope_release (a : Arena) (r : Ref) (m : Mode) (q : Ref) :
    (a.release r m).scope q = a.scope q :=
  a.scopes.value_release r m q

theorem release_acquire (a : Arena) (r : Ref) (m : Mode) (granted : a.scopes.grants r m = true) :
    (a.acquire r m).release r m = a := by
  simp [acquire, release, a.scopes.release_acquire r m granted]

/-- Hold a scope while something is attempted, and give it back however that ends. -/
def holding {α : Type} (r : Ref) (m : Mode) (act : Attempt α) : Attempt α := fun a =>
  if a.scopes.grants r m then
    let (result, a) := act (a.acquire r m)
    (result, a.release r m)
  else (.error (.refused m), a)

/-- Bind a name in a scope that is held exclusively, whether or not it was bound. -/
def defineInside (r : Ref) (name : String) (v : Value) (a : Arena) : Arena :=
  { a with scopes := a.scopes.update r fun s => s.define name v }

theorem scope_defineInside (r : Ref) (name : String) (v : Value) (a : Arena) (q : Ref) :
    (a.defineInside r name v).scope q =
      if q = r ∧ r < a.scopes.size then (a.scope r).define name v else a.scope q :=
  a.scopes.value_update r _ q

@[simp] theorem parent_defineInside (r : Ref) (name : String) (v : Value) (a : Arena) (q : Ref) :
    ((a.defineInside r name v).scope q).parent = (a.scope q).parent := by
  rw [scope_defineInside]
  split
  · next h => simp [h.1]
  · rfl

@[simp] theorem size_defineInside (r : Ref) (name : String) (v : Value) (a : Arena) :
    (a.defineInside r name v).scopes.size = a.scopes.size :=
  a.scopes.size_update r _

@[simp] theorem hold_defineInside (r : Ref) (name : String) (v : Value) (a : Arena) (q : Ref) :
    (a.defineInside r name v).scopes.hold q = a.scopes.hold q :=
  a.scopes.hold_update r _ q

theorem defineInside_acquire (r : Ref) (m : Mode) (q : Ref) (name : String) (v : Value)
    (a : Arena) :
    (a.acquire r m).defineInside q name v = (a.defineInside q name v).acquire r m := by
  simp [defineInside, acquire, Store.update_acquire]

/-- The nearest binding of a token's lexeme, from a held scope outward. -/
def getInside : Nat → Ref → Token → Attempt Value
  | fuel, r, t, a =>
    match (a.scope r).find? t.lexeme with
    | some v => (.ok v, a)
    | none =>
      match (a.scope r).parent with
      | none =>
        (.error (.undefined (.undefinedVariable t)), a.emit (.lookupUndefined t.lexeme t.line))
      | some parent =>
        match fuel with
        | 0 => (.error .endless, a)
        | fuel + 1 => holding parent .shared (getInside fuel parent t) a

/-- Overwrite the nearest binding of a token's lexeme, from an exclusively held scope outward. -/
def assignInside : Nat → Ref → Token → Value → Attempt Unit
  | fuel, r, t, v, a =>
    if (a.scope r).binds t.lexeme then (.ok (), a.defineInside r t.lexeme v)
    else
      match (a.scope r).parent with
      | none =>
        (.error (.undefined (.undefinedVariable t)), a.emit (.assignUndefined t.lexeme t.line))
      | some parent =>
        match fuel with
        | 0 => (.error .endless, a)
        | fuel + 1 => holding parent .exclusive (assignInside fuel parent t v) a

/-- The largest count that a machine word holds. -/
def maxCount : Nat := 0xFFFFFFFFFFFFFFFF

/-- How many scopes there are from a held scope to its root, both counted; the count stops at the
largest one. -/
def depthInside : Nat → Ref → Attempt Nat
  | fuel, r, a =>
    match (a.scope r).parent with
    | none => (.ok 1, a)
    | some parent =>
      match fuel with
      | 0 => (.error .endless, a)
      | fuel + 1 =>
        let (depth, a) := holding parent .shared (depthInside fuel parent) a
        (depth.map fun n => min (n + 1) maxCount, a)

/-- A chain with a root has no more scopes than the arena. -/
def fuel (a : Arena) : Nat := a.scopes.size

def get (r : Ref) (t : Token) : Attempt Value := fun a =>
  holding r .shared (getInside a.fuel r t) a

def assign (r : Ref) (t : Token) (v : Value) : Attempt Unit := fun a =>
  holding r .exclusive (assignInside a.fuel r t v) a

def depth (r : Ref) : Attempt Nat := fun a => holding r .shared (depthInside a.fuel r) a

def define (r : Ref) (name : String) (v : Value) : Attempt Unit :=
  holding r .exclusive fun a => (.ok (), a.defineInside r name v)

/-- Something about one scope, without a walk. -/
def inspect {α : Type} (r : Ref) (f : Scope → α) : Attempt α :=
  holding r .shared fun a => (.ok (f (a.scope r)), a)

/-- A new scope with the same bindings and the same parent. -/
def copy (r : Ref) : Attempt Ref := fun a =>
  match a.inspect r id with
  | (.ok s, a) =>
    let (c, a) := a.alloc s
    (.ok c, a)
  | (.error f, a) => (.error f, a)

end Arena

end ScopeChain
