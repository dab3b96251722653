import ScopeChain.Step

/-!
Blocks. A block opens something, a scope on a stack or a hold on a scope, and closes it again when
control leaves it, in whatever way.
-/
namespace ScopeChain

/-- An access inside a scope that the caller holds in mode `m`. -/
inductive Direct : Mode → Type where
  | get {m : Mode} (t : Token) : Direct m
  | binds {m : Mode} (name : String) : Direct m
  | depth {m : Mode} : Direct m
  | size {m : Mode} : Direct m
  | define (name : String) (v : Value) : Direct .exclusive
  | assign (t : Token) (v : Value) : Direct .exclusive

/-- Only the ancestors of the held scope are held further. -/
def Direct.perform {m : Mode} (d : Direct m) (r : Ref) : Arena.Attempt Answer := fun a =>
  match d with
  | .get t =>
    let (result, a) := a.getInside a.fuel r t
    (result.map .value, a)
  | .binds name => (.ok (.binds ((a.scope r).binds name)), a)
  | .depth =>
    let (result, a) := a.depthInside a.fuel r
    (result.map .depth, a)
  | .size => (.ok (.size (a.scope r).size), a)
  | .define name v => (.ok .done, a.defineInside r name v)
  | .assign t v =>
    let (result, a) := a.assignInside a.fuel r t v
    (result.map fun _ => .done, a)

/-- All accesses in order, whatever becomes of each. -/
def Direct.performAll {m : Mode} :
    List (Direct m) → Ref → Arena → List (Except Failure Answer) × Arena
  | [], _, a => ([], a)
  | d :: ds, r, a =>
    let (result, a) := d.perform r a
    let (results, a) := performAll ds r a
    (result :: results, a)

/-- A scope on top of an environment's stack, or a hold with accesses inside the held scope. -/
inductive Block where
  | scoped (environment : String)
  | scopedIn (environment parent : String)
  | holding (scope : String) (m : Mode) (inner : List (Direct m))
  /-- Opens nothing; an abort inside ends here. -/
  | catching

/-- What there is to close when control leaves a block. -/
inductive Bracket where
  | frame (environment : String)
  | hold (r : Ref) (m : Mode)
  | nothing

namespace Block

def catches : Block → Bool
  | .catching => true
  | _ => false

/-- The environment `name` has become `e`, with a scope more on its stack. -/
def enterFrame (name : String) (e : Environment) (σ : Session) :
    Except Fault (Bracket × Option Report) × Session :=
  (.ok (.frame name, some (.entered e.depth)), σ.bindEnvironment name e)

/-- Open what the block opens; the results are what there is to close and what the log says of
entering. -/
def enter (b : Block) : Session.Attempt (Bracket × Option Report) :=
  match b with
  | .scoped name =>
    Session.onEnvironment name fun e σ =>
      let (e, arena) := e.push σ.arena
      enterFrame name e { σ with arena }
  | .scopedIn name parent =>
    Session.onScope parent fun r => Session.onEnvironment name fun e σ =>
      let (e, arena) := e.pushIn r σ.arena
      enterFrame name e { σ with arena }
  | .holding name m inner =>
    Session.onScope name fun r σ =>
      if σ.arena.scopes.grants r m then
        let (results, arena) := Direct.performAll inner r (σ.arena.acquire r m)
        (.ok (.hold r m, some (.held results)), { σ with arena })
      else (.error (.access (.refused m)), σ)
  | .catching => fun σ => (.ok (.nothing, none), σ)

end Block

/-- A frame is closed by one pop, whatever scope is on top by then. -/
def Bracket.leave (b : Bracket) (σ : Session) : Session :=
  match b with
  | .frame name =>
    match σ.environments[name]? with
    | some e => σ.restack name Environment.pop e
    | none => σ
  | .hold r m => { σ with arena := σ.arena.release r m }
  | .nothing => σ

end ScopeChain
