import Std.Data.ExtTreeMap
import ScopeChain.Store
import ScopeChain.Value

/-!
One lexical region: the names it binds, and the region around it.
-/
namespace ScopeChain

/-- A scope without a parent is a root. -/
structure Scope where
  bindings : Std.ExtTreeMap String Value
  parent : Option Ref

namespace Scope

def root : Scope := ⟨∅, none⟩

instance : Inhabited Scope := ⟨root⟩

def enclosedBy (parent : Ref) : Scope := ⟨∅, some parent⟩

/-- What the scope itself binds a name to, not looking at its parent. -/
def find? (s : Scope) (name : String) : Option Value := s.bindings[name]?

def binds (s : Scope) (name : String) : Bool := s.bindings.contains name

def define (s : Scope) (name : String) (v : Value) : Scope :=
  { s with bindings := s.bindings.insert name v }

/-- How many names the scope itself binds. -/
def size (s : Scope) : Nat := s.bindings.size

@[simp] theorem parent_define (s : Scope) (name : String) (v : Value) :
    (s.define name v).parent = s.parent := rfl

theorem binds_eq_isSome (s : Scope) (name : String) : s.binds name = (s.find? name).isSome :=
  Std.ExtTreeMap.contains_eq_isSome_getElem?

theorem find?_define (s : Scope) (name : String) (v : Value) (x : String) :
    (s.define name v).find? x = if x = name then some v else s.find? x := by
  simp only [define, find?, Std.ExtTreeMap.getElem?_insert, Std.LawfulEqCmp.compare_eq_iff_eq]
  simp only [eq_comm]

theorem binds_define (s : Scope) (name : String) (v : Value) (x : String) :
    (s.define name v).binds x = (x = name || s.binds x) := by
  rw [binds_eq_isSome, binds_eq_isSome, find?_define]
  by_cases h : x = name <;> simp [h]

end Scope

end ScopeChain
