import ScopeChain.Unprintable

/-!
Text in double quotes. A quote, a backslash and the common controls have two-character forms, other
characters that cannot be shown are written by their number in hexadecimal, and all else stands
for itself.
-/
namespace ScopeChain.Quoted

/-- ASCII from the space to the tilde is shown, and beyond it whatever the table leaves out. -/
def isShown (c : Char) : Bool := ' ' ≤ c && !Unprintable.covers c.toNat

/-- The number of a character in lower-case hexadecimal, without leading zeros. -/
def numbered (c : Char) : List Char :=
  '\\' :: 'u' :: '\x7b' :: (Nat.toDigits 16 c.toNat ++ ['\x7d'])

def escape (c : Char) : List Char :=
  match c with
  | '\x00' => ['\\', '0']
  | '\t' => ['\\', 't']
  | '\r' => ['\\', 'r']
  | '\n' => ['\\', 'n']
  | '"' => ['\\', '"']
  | '\\' => ['\\', '\\']
  | c => if isShown c then [c] else numbered c

def encode (cs : List Char) : List Char := '"' :: (cs.flatMap escape ++ ['"'])

end ScopeChain.Quoted

namespace ScopeChain

/-- The quoted form of a string. -/
def quoted (s : String) : String := String.ofList (Quoted.encode s.toList)

end ScopeChain
