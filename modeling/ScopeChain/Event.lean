/-!
What an arena of scopes and its environments report while they work.
-/
namespace ScopeChain

inductive Level where
  | debug
  | trace
  deriving DecidableEq

/-- A depth is that of an environment's stack once the event is over. -/
inductive Event where
  | pushScope (depth : Nat)
  | pushCallScope (depth : Nat)
  | popScope (depth : Nat)
  | define (name : String) (depth : Nat)
  | assign (name : String) (line : UInt32)
  | lookupUndefined (name : String) (line : UInt32)
  | assignUndefined (name : String) (line : UInt32)
  deriving DecidableEq

namespace Event

def level : Event → Level
  | .define .. | .assign .. => .trace
  | _ => .debug

def message : Event → String
  | .pushScope _ => "push scope"
  | .pushCallScope _ => "push call scope"
  | .popScope _ => "pop scope"
  | .define .. => "define"
  | .assign .. => "assign"
  | .lookupUndefined .. => "lookup of undefined variable"
  | .assignUndefined .. => "assignment to undefined variable"

end Event

end ScopeChain
