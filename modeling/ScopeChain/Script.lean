import ScopeChain.Block

/-!
Scripts of steps and blocks, and the ways in which control leaves them: at their end, at an error
that ends a strict body, and by an abort, which unwinds every block up to one that catches it.
-/
namespace ScopeChain

/-- Steps and blocks in order. A strict body ends at its first error, which is then the block's. -/
inductive Script where
  | done
  | step (tag : Tag) (s : Step) (rest : Script)
  | abort (tag : Tag) (rest : Script)
  | block (tag : Tag) (b : Block) (strict : Bool) (body rest : Script)

/-- How control leaves a script. -/
inductive Exit where
  | finished
  | failed (f : Fault)
  | aborted

namespace Script

/-- Run a script; an error is only logged unless the script is strict. -/
def run : Bool → Script → Session → Exit × Session
  | _, .done, σ => (.finished, σ)
  | strict, .step tag s rest, σ =>
    match s.perform σ with
    | (.ok answer, σ) => rest.run strict (σ.record tag (.answer answer))
    | (.error f, σ) => continueAfter strict f (rest.run strict) (σ.record tag (.fault f))
  | _, .abort tag _, σ => (.aborted, σ.record tag (.answer .done))
  | strict, .block tag b inner body rest, σ =>
    match b.enter σ with
    | (.error f, σ) => continueAfter strict f (rest.run strict) (σ.record tag (.fault f))
    | (.ok (bracket, entry), σ) =>
      let (exit, σ) := body.run inner (entry.elim σ (σ.record tag))
      let σ := bracket.leave σ
      match exit with
      | .finished => rest.run strict (σ.record tag (.left none))
      | .failed f => continueAfter strict f (rest.run strict) (σ.record tag (.left (some f)))
      | .aborted =>
        if b.catches then rest.run strict (σ.record tag .caught) else (.aborted, σ)
where
  /-- A strict script ends at an error. -/
  continueAfter (strict : Bool) (f : Fault) (next : Session → Exit × Session) (σ : Session) :
      Exit × Session :=
    if strict then (.failed f, σ) else next σ

end Script

namespace Session

/-- Run scripts one after another. An abort that nothing catches ends its script and leaves an entry
of its own. -/
def play (σ : Session) (uncaught : Tag) : List Script → Session
  | [] => σ
  | s :: rest =>
    match s.run false σ with
    | (.aborted, σ) => (σ.record uncaught (.answer .done)).play uncaught rest
    | (_, σ) => σ.play uncaught rest

end Session

end ScopeChain
