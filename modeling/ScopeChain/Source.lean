import ScopeChain.Layout
import ScopeChain.Quoted

/-!
Byte ranges of the source text and the identifiers that stand there.
-/
namespace ScopeChain

/-- A byte range, the end not included. -/
structure Span where
  start : UInt32
  stop : UInt32
  deriving DecidableEq, Inhabited

namespace Span

/-- The range of a token that no source text contains. -/
def dummy : Span := ⟨0, 0⟩

def text (s : Span) : String := s.start.toNat.repr ++ ".." ++ s.stop.toNat.repr

end Span

/-- An identifier as written, with its line and its place. -/
structure Token where
  lexeme : String
  line : UInt32
  span : Span
  deriving DecidableEq, Inhabited

namespace Token

/-- An identifier that has a line but no place. -/
def identifier (lexeme : String) (line : UInt32) : Token := ⟨lexeme, line, .dummy⟩

/-- The quoted lexeme with line and place, on one line in either layout. -/
def doc (t : Token) : Doc :=
  .text (quoted t.lexeme ++ " @ line " ++ t.line.toNat.repr ++ " (" ++ t.span.text ++ ")")

end Token

/-- How many different members a list has. -/
def distinctCount {α : Type} [DecidableEq α] (xs : List α) : Nat := xs.eraseDups.length

end ScopeChain
