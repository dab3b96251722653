import ScopeChain.Store

/-!
Scripts that share integer cells through numbered handles, and the answers they give. A hold stays
in force while the steps under it run, and is then given back.
-/
namespace ScopeChain

/-- One step; handles are numbered from zero in the order of their making. -/
inductive CellStep where
  | new (n : Int)
  | share (i : Nat)
  | read (i : Nat)
  | write (i : Nat) (n : Int)
  | replace (i : Nat) (n : Int)
  | tryHold (i : Nat) (m : Mode)
  | same (i k : Nat)
  | inspect (i : Nat) (layout : Layout)

/-- Steps in order, some of them under a hold of a cell. -/
inductive CellScript where
  | done
  | step (s : CellStep) (rest : CellScript)
  | hold (i : Nat) (m : Mode) (body rest : CellScript)

inductive CellAnswer where
  | handles (count : Nat)
  | number (n : Int)
  | written
  | refused (m : Mode)
  | holds (b : Bool)
  | text (s : String)
  | released
  deriving DecidableEq

/-- The cells, the handles to them, and the answers given so far. -/
structure CellSession where
  store : Store Int
  handles : Array Ref
  log : Array CellAnswer

namespace CellSession

def empty : CellSession := ⟨.empty, #[], #[]⟩

def ref (σ : CellSession) (i : Nat) : Ref := σ.handles.getD i 0

def record (σ : CellSession) (a : CellAnswer) : CellSession := { σ with log := σ.log.push a }

/-- One more handle; the answer is how many there are now. -/
def addHandle (σ : CellSession) (r : Ref) : CellAnswer × CellSession :=
  (.handles (σ.handles.size + 1), { σ with handles := σ.handles.push r })

/-- Put a number into a cell and answer from the one that was there. -/
def put (σ : CellSession) (i : Nat) (n : Int) (answer : Int → CellAnswer) :
    CellAnswer × CellSession :=
  match σ.store.replace? (σ.ref i) n with
  | some (old, store) => (answer old, { σ with store })
  | none => (.refused .exclusive, σ)

end CellSession

def CellStep.perform (s : CellStep) (σ : CellSession) : CellAnswer × CellSession :=
  match s with
  | .new n =>
    let (r, store) := σ.store.alloc n
    { σ with store }.addHandle r
  | .share i => σ.addHandle (σ.ref i)
  | .read i =>
    match σ.store.read? (σ.ref i) with
    | some n => (.number n, σ)
    | none => (.refused .shared, σ)
  | .write i n => σ.put i n fun _ => .written
  | .replace i n => σ.put i n .number
  | .tryHold i m => (.holds (σ.store.grants (σ.ref i) m), σ)
  | .same i k => (.holds (σ.ref i = σ.ref k), σ)
  | .inspect i layout => (.text (σ.store.doc (fun n => .text (toString n)) (σ.ref i) layout), σ)

/-- A refused hold skips the steps under it. -/
def CellScript.run : CellScript → CellSession → CellSession
  | .done, σ => σ
  | .step s rest, σ =>
    let (answer, σ) := s.perform σ
    rest.run (σ.record answer)
  | .hold i m body rest, σ =>
    let r := σ.ref i
    if σ.store.grants r m then
      let σ := body.run { σ with store := σ.store.acquire r m }
      rest.run ({ σ with store := σ.store.release r m }.record .released)
    else
      rest.run (σ.record (.refused m))

/-- The answers of a script that starts without handles. -/
def CellScript.answers (s : CellScript) : Array CellAnswer := (s.run .empty).log

end ScopeChain
