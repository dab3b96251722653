import ScopeChain.Session

/-!
The single steps of a session: on an environment, on a scope, and on the names themselves.
-/
namespace ScopeChain

/-- What is done with one environment; none of it changes the environment's stack. -/
inductive EnvironmentStep where
  | child (name : String)
  | define (name : String) (v : Value)
  | defineGlobal (name : String) (v : Value)
  | get (t : Token)
  | assign (t : Token) (v : Value)
  | bindGlobal (name : String)
  | capture (name : String)
  | inspect (layout : Layout)
  | list (names : List String)

/-- What is done to one scope through a handle. -/
inductive ScopeStep where
  | child (name : String) (times : Nat)
  | share (name : String)
  | copy (name : String)
  | define (name : String) (v : Value)
  | get (t : Token)
  | assign (t : Token) (v : Value)
  | binds (name : String)
  | depth
  | size
  | parent (name : Option String)
  | inspect (layout : Layout)
  | inspectInner (layout : Layout)
  | list (names : List String)

/-- What is done to a session. -/
inductive Step where
  | environment (name : String) (s : EnvironmentStep)
  | scope (name : String) (s : ScopeStep)
  /-- Enter so many blocks, one in the other; to enter none, no environment is needed. -/
  | push (environment : String) (times : Nat)
  | pushIn (environment parent : String)
  /-- Leave so many scopes; to leave none, no environment is needed. -/
  | pop (environment : String) (times : Nat)
  | newEnvironment (name : String)
  | newScope (name : String)
  | forget (name : String)
  | same (left right : String)
  /-- Nothing at all. -/
  | pass

namespace EnvironmentStep

open Session (access)

def perform (s : EnvironmentStep) (e : Environment) : Session.Attempt Answer :=
  match s with
  | .child name => fun σ => (.ok .done, σ.bindEnvironment name e.child)
  | .define name v => access (e.define name v) fun _ => .done
  | .defineGlobal name v => access (e.defineGlobal name v) fun _ => .done
  | .get t => access (e.get t) .value
  | .assign t v => access (e.assign t v) fun _ => .done
  | .bindGlobal name => fun σ => (.ok .done, σ.bindScope name e.global)
  | .capture name => fun σ => (.ok .done, σ.bindScope name e.current)
  | .inspect layout => Session.inspect e.current (fun o => some (e.doc o)) layout
  | .list names => access (Arena.list e.current names) .chain

end EnvironmentStep

namespace ScopeStep

open Session (access accessThen)

def perform (s : ScopeStep) (r : Ref) : Session.Attempt Answer :=
  match s with
  | .child name times =>
    accessThen (fun a => let (c, a) := a.nest times r; (.ok c, a)) fun c σ =>
      (.done, σ.bindScope name c)
  | .share name => fun σ => (.ok .done, σ.bindScope name r)
  | .copy name => accessThen (Arena.copy r) fun c σ => (.done, σ.bindScope name c)
  | .define name v => access (Arena.define r name v) fun _ => .done
  | .get t => access (Arena.get r t) .value
  | .assign t v => access (Arena.assign r t v) fun _ => .done
  | .binds name => access (Arena.inspect r fun s => s.binds name) .binds
  | .depth => access (Arena.depth r) .depth
  | .size => access (Arena.inspect r Scope.size) .size
  | .parent name =>
    accessThen (Arena.inspect r Scope.parent) fun parent σ =>
      match parent, name with
      | some p, some name => (.hasParent true, σ.bindScope name p)
      | _, _ => (.hasParent parent.isSome, σ)
  | .inspect layout => Session.inspect r (fun o => some o.doc) layout
  | .inspectInner layout => Session.inspect r Outline.inner layout
  | .list names => access (Arena.list r names) .chain

end ScopeStep

namespace Step

open Session (onScope onEnvironment repeated)

/-- The stack of the environment `name` is changed. -/
def restack (name : String) (change : Environment → Arena → Environment × Arena) :
    Session.Attempt Answer :=
  onEnvironment name fun e σ => (.ok .done, σ.restack name change e)

/-- Names are looked up first, and those of scopes before that of an environment. -/
def perform (s : Step) : Session.Attempt Answer := fun σ =>
  match s with
  | .environment name s => onEnvironment name (fun e => s.perform e) σ
  | .scope name s => onScope name (fun r => s.perform r) σ
  | .push name times => repeated (restack name Environment.push) times σ
  | .pushIn name parent => onScope parent (fun r => restack name fun e => e.pushIn r) σ
  | .pop name times => repeated (restack name Environment.pop) times σ
  | .newEnvironment name =>
    let (e, arena) := Environment.create σ.arena
    (.ok .done, { σ with arena }.bindEnvironment name e)
  | .newScope name =>
    let (r, arena) := σ.arena.newRoot
    (.ok .done, { σ with arena }.bindScope name r)
  | .forget name => (.ok .done, σ.forgetScope name)
  | .same left right => onScope left (fun r => onScope right fun t σ => (.ok (.same (r = t)), σ)) σ
  | .pass => (.ok .done, σ)

end Step

end ScopeChain
