/-!
Texts that can be written on one line or spread over indented lines, and the three shapes of
grouped text: a tuple, a record and a map.
-/
namespace ScopeChain

/-- One line, or one line for every part, at some depth of nesting. -/
inductive Layout where
  | compact
  | indented (depth : Nat)
  deriving DecidableEq

/-- A text for either layout. -/
abbrev Doc := Layout → String

namespace Doc

/-- The blanks at the start of a line: four for each level. -/
def margin (depth : Nat) : String := String.ofList (List.replicate (4 * depth) ' ')

/-- The same text in both layouts. -/
def text (s : String) : Doc := fun _ => s

/-- One line of an indented group. -/
def line (depth : Nat) (part : Doc) : String :=
  margin depth ++ part (.indented depth) ++ ",\n"

/-- On one line the parts stand between commas; indented, each has a line and a comma after it. -/
def group (opening gap closing : String) (parts : List Doc) : Doc
  | .compact =>
    let inner := String.intercalate ", " (parts.map fun part => part .compact)
    opening ++ gap ++ inner ++ gap ++ closing
  | .indented depth =>
    opening ++ "\n" ++ String.join (parts.map (line (depth + 1))) ++ margin depth ++ closing

def labelled (label : String) (part : Doc) : Doc := fun layout => label ++ ": " ++ part layout

def tuple (name : String) (parts : List Doc) : Doc := group (name ++ "(") "" ")" parts

def record (name : String) (fields : List (String × Doc)) : Doc :=
  group (name ++ " \x7b") " " "\x7d" (fields.map fun (label, part) => labelled label part)

/-- A map without entries is the bare pair of braces in both layouts. -/
def map (entries : List (String × Doc)) : Doc :=
  if entries.isEmpty then text "\x7b\x7d"
  else group "\x7b" "" "\x7d" (entries.map fun (key, part) => labelled key part)

end Doc

end ScopeChain
