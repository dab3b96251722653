import ScopeChain.Arena

/-!
What can be seen of a chain without taking a hold: its scopes from one outward, up to a root or up
to the first scope that is held exclusively. Texts of scopes and listings of their bindings are
read off the outline alone.
-/
namespace ScopeChain

abbrev Bindings := Std.ExtTreeMap String Value

/-- The bindings of each scope, from the innermost one outward. -/
inductive Outline where
  | hidden
  | root (bindings : Bindings)
  | enclosed (bindings : Bindings) (outer : Outline)

/-- One scope of a listing: how many names it binds, and which of the wanted ones to what. -/
structure Listing where
  size : Nat
  found : List (String × Value)
  deriving DecidableEq

namespace Outline

/-- The texts of the outline do not depend on an order of names. -/
def isOrderFree : Outline → Bool
  | .hidden => true
  | .root bindings => bindings.size ≤ 1
  | .enclosed bindings outer => bindings.size ≤ 1 && outer.isOrderFree

def bindingsDoc (bindings : Bindings) : Doc :=
  .map (bindings.toList.map fun (name, v) => (quoted name, v.doc))

def scopeDoc (bindings : Bindings) (parent : Doc) : Doc :=
  .record "Scope" [("bindings", bindingsDoc bindings), ("parent", parent)]

/-- The innermost scope itself, if it can be seen. -/
def inner : Outline → Option Doc
  | .hidden => none
  | .root bindings => some (scopeDoc bindings (.text "None"))
  | .enclosed bindings outer => some (scopeDoc bindings (.tuple "Some" [.handle outer.inner]))

/-- A handle to the innermost scope. -/
def doc (o : Outline) : Doc := .handle o.inner

/-- The bindings of all scopes, if none of them is hidden. -/
def bindings? : Outline → Option (List Bindings)
  | .hidden => none
  | .root bindings => some [bindings]
  | .enclosed bindings outer => outer.bindings?.map (bindings :: ·)

/-- The wanted names that a scope itself binds, in the order wanted. -/
def listing (names : List String) (bindings : Bindings) : Listing where
  size := bindings.size
  found := names.filterMap fun name => bindings[name]?.map (name, ·)

end Outline

namespace Arena

/-- The outline from a scope outward, if the chain ends within so many parents. -/
def outlineWithin (a : Arena) : Nat → Ref → Option Outline
  | fuel, r =>
    match a.scopes.hold r with
    | .exclusive => some .hidden
    | .shared _ =>
      match (a.scope r).parent with
      | none => some (.root (a.scope r).bindings)
      | some parent =>
        match fuel with
        | 0 => none
        | fuel + 1 => (a.outlineWithin fuel parent).map (.enclosed (a.scope r).bindings)

def outline (a : Arena) (r : Ref) : Except Failure Outline :=
  match a.outlineWithin a.fuel r with
  | some o => .ok o
  | none => .error .endless

/-- The listing of every scope from one outward; none may be held exclusively. -/
def list (r : Ref) (names : List String) : Attempt (List Listing) := fun a =>
  match a.outline r with
  | .error f => (.error f, a)
  | .ok o =>
    match o.bindings? with
    | some bindings => (.ok (bindings.map (Outline.listing names)), a)
    | none => (.error (.refused .shared), a)

end Arena

end ScopeChain
