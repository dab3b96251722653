import ScopeChain.Source

/-!
Errors of a running program: what went wrong, and the line and place of the token that caused it.
-/
namespace ScopeChain

inductive RuntimeErrorKind where
  | undefinedVariable (name : String)
  | custom (message : String)
  deriving DecidableEq, Inhabited

namespace RuntimeErrorKind

def message : RuntimeErrorKind → String
  | .undefinedVariable name => "Undefined variable '" ++ name ++ "'."
  | .custom message => message

def doc : RuntimeErrorKind → Doc
  | .undefinedVariable name => .record "UndefinedVariable" [("name", .text (quoted name))]
  | .custom message => .record "Custom" [("message", .text (quoted message))]

end RuntimeErrorKind

/-- An error and where it happened. -/
structure RuntimeError where
  kind : RuntimeErrorKind
  line : UInt32
  span : Span
  deriving DecidableEq, Inhabited

namespace RuntimeError

/-- An error at the place of a token. -/
def located (kind : RuntimeErrorKind) (t : Token) : RuntimeError := ⟨kind, t.line, t.span⟩

/-- An error outside the known kinds. -/
def custom (t : Token) (message : String) : RuntimeError := located (.custom message) t

/-- No scope within reach binds the token's lexeme. -/
def undefinedVariable (t : Token) : RuntimeError := located (.undefinedVariable t.lexeme) t

/-- What went wrong, and its line in brackets on a line of its own. -/
def message (e : RuntimeError) : String :=
  e.kind.message ++ "\n[line " ++ e.line.toNat.repr ++ "]"

def doc (e : RuntimeError) : Doc :=
  .record "EvalError"
    [("kind", e.kind.doc), ("line", .text e.line.toNat.repr), ("span", .text e.span.text)]

end RuntimeError

end ScopeChain
