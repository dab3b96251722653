import ScopeChain.Layout
import ScopeChain.NumberText
import ScopeChain.Quoted

/-!
What a name can be bound to, with the equality that programs see and the texts of a value.
-/
namespace ScopeChain

/-- Identity of values is finer than their equality: it tells the two zeros apart. -/
inductive Value where
  | nil
  | bool (b : Bool)
  | number (x : Binary64)
  | string (s : String)
  deriving DecidableEq, Inhabited

namespace Value

/-- Numbers are equal by value, all else by identity, and no value equals one of another type. -/
def equals : Value → Value → Bool
  | .number x, .number y => x.equals y
  | v, w => v = w

def typeName : Value → String
  | .nil => "nil"
  | .bool _ => "bool"
  | .number _ => "number"
  | .string _ => "string"

/-- Only `nil` and `false` count as false. -/
def isTruthy : Value → Bool
  | .nil | .bool false => false
  | _ => true

/-- The text that a program prints. -/
def text : Value → String
  | .nil => "nil"
  | .bool b => toString b
  | .number x => x.text
  | .string s => s

/-- The text that names the type and quotes a string. -/
def doc : Value → Doc
  | .nil => .text "Nil"
  | .bool b => .tuple "Bool" [.text (toString b)]
  | .number x => .tuple "Number" [.text x.inspect]
  | .string s => .tuple "Str" [.text (quoted s)]

end Value

end ScopeChain
