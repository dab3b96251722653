import ScopeChain.Outline

/-!
A stack of scopes over a global one. The scope pushed last is the current one; a block scope is
enclosed by the current scope, a call scope by a scope that was captured earlier.
-/
namespace ScopeChain

/-- The stack has the current scope first and the global scope last. -/
structure Environment where
  global : Ref
  stack : List Ref
  deriving DecidableEq, Inhabited

namespace Environment

/-- The environment that has nothing but a global scope. -/
def ofGlobal (global : Ref) : Environment := ⟨global, [global]⟩

/-- An environment with a global scope of its own. -/
def create (a : Arena) : Environment × Arena :=
  let (global, a) := a.newRoot
  (ofGlobal global, a)

/-- Another stack over the same global scope. -/
def child (e : Environment) : Environment := ofGlobal e.global

def depth (e : Environment) : Nat := e.stack.length

def current (e : Environment) : Ref := e.stack.headD e.global

/-- Enter a block. -/
def push (e : Environment) (a : Arena) : Environment × Arena :=
  let (r, a) := a.newChild e.current
  let e := { e with stack := r :: e.stack }
  (e, a.emit (.pushScope e.depth))

/-- Enter a call whose scope is enclosed by `parent`. -/
def pushIn (e : Environment) (parent : Ref) (a : Arena) : Environment × Arena :=
  let (r, a) := a.newChild parent
  let e := { e with stack := r :: e.stack }
  (e, a.emit (.pushCallScope e.depth))

/-- Leave the current scope; the last one stays. -/
def pop (e : Environment) (a : Arena) : Environment × Arena :=
  if 1 < e.depth then
    let e := { e with stack := e.stack.tail }
    (e, a.emit (.popScope e.depth))
  else (e, a)

/-- Bind a name in the current scope. -/
def define (e : Environment) (name : String) (v : Value) : Arena.Attempt Unit := fun a =>
  (a.emit (.define name e.depth)).define e.current name v

/-- Bind a name in the global scope. -/
def defineGlobal (e : Environment) (name : String) (v : Value) : Arena.Attempt Unit :=
  Arena.define e.global name v

def get (e : Environment) (t : Token) : Arena.Attempt Value := Arena.get e.current t

def assign (e : Environment) (t : Token) (v : Value) : Arena.Attempt Unit := fun a =>
  (a.emit (.assign t.lexeme t.line)).assign e.current t v

/-- The depth of the stack and the outline from the current scope outward. -/
def doc (e : Environment) (o : Outline) : Doc :=
  .record "Environment" [("depth", .text e.depth.repr), ("current", o.doc)]

end Environment

end ScopeChain
