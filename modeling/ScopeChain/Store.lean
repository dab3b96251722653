import ScopeChain.Layout

/-!
Cells that several handles share. A cell is free, held by any number of readers, or held by one
writer; a hold that does not fit with those in force is refused.
-/
namespace ScopeChain

/-- The identity of a cell: two handles are to the same cell iff they are equal. -/
abbrev Ref := Nat

/-- A shared hold is for reading, an exclusive one for writing. -/
inductive Mode where
  | shared
  | exclusive
  deriving DecidableEq, Inhabited

/-- The holds in force on a cell; without any it is shared by none. -/
inductive Hold where
  | shared (readers : Nat)
  | exclusive
  deriving DecidableEq

namespace Hold

def free : Hold := .shared 0

instance : Inhabited Hold := ⟨free⟩

/-- Readers may join readers; a writer needs the cell for itself. -/
def grants : Hold → Mode → Bool
  | .shared _, .shared => true
  | .shared readers, .exclusive => readers = 0
  | .exclusive, _ => false

/-- One more hold, which the cell has granted. -/
def acquire : Hold → Mode → Hold
  | .shared readers, .shared => .shared (readers + 1)
  | .exclusive, .shared => .exclusive
  | _, .exclusive => .exclusive

/-- One hold less. -/
def release : Hold → Mode → Hold
  | .shared readers, .shared => .shared (readers - 1)
  | .exclusive, .exclusive => free
  | h, _ => h

theorem release_acquire {h : Hold} {m : Mode} (granted : h.grants m = true) :
    (h.acquire m).release m = h := by
  cases h <;> cases m <;> simp_all [grants, acquire, release, free]

end Hold

structure Cell (α : Type) where
  value : α
  hold : Hold := .free
  deriving Inhabited

/-- A text for a handle; the value of a cell that is being written cannot be shown. -/
def Doc.handle (shown : Option Doc) : Doc :=
  .tuple "LocalScope" [.record "RefCell" [("value", shown.getD (.text "<borrowed>"))]]

/-- All cells made so far, in order of their making; none is ever removed. -/
structure Store (α : Type) where
  cells : Array (Cell α)

namespace Store

variable {α : Type}

def empty : Store α := ⟨#[]⟩

instance : Inhabited (Store α) := ⟨empty⟩

def size (s : Store α) : Nat := s.cells.size

def hold (s : Store α) (r : Ref) : Hold := (s.cells[r]?.map Cell.hold).getD .free

/-- What a cell contains, whoever holds it. -/
def value [Inhabited α] (s : Store α) (r : Ref) : α := (s.cells[r]?.map Cell.value).getD default

/-- Make a cell of its own for a value. -/
def alloc (s : Store α) (v : α) : Ref × Store α := (s.size, ⟨s.cells.push { value := v }⟩)

/-- Change what a cell contains, whoever holds it. -/
def update (s : Store α) (r : Ref) (f : α → α) : Store α :=
  ⟨s.cells.modify r fun c => { c with value := f c.value }⟩

def grants (s : Store α) (r : Ref) (m : Mode) : Bool := (s.hold r).grants m

def acquire (s : Store α) (r : Ref) (m : Mode) : Store α :=
  ⟨s.cells.modify r fun c => { c with hold := c.hold.acquire m }⟩

def release (s : Store α) (r : Ref) (m : Mode) : Store α :=
  ⟨s.cells.modify r fun c => { c with hold := c.hold.release m }⟩

/-- The value of a cell, if a shared hold is granted. -/
def read? [Inhabited α] (s : Store α) (r : Ref) : Option α :=
  if s.grants r .shared then some (s.value r) else none

/-- Put another value into a cell, if an exclusive hold is granted; the old value comes out. -/
def replace? [Inhabited α] (s : Store α) (r : Ref) (v : α) : Option (α × Store α) :=
  if s.grants r .exclusive then some (s.value r, s.update r fun _ => v) else none

/-- The text of a handle, whose value is shown unless it is being written. -/
def doc [Inhabited α] (s : Store α) (write : α → Doc) (r : Ref) : Doc :=
  .handle ((s.read? r).map write)

@[simp] theorem size_alloc (s : Store α) (v : α) : (s.alloc v).2.size = s.size + 1 := by
  simp [alloc, size]

@[simp] theorem size_update (s : Store α) (r : Ref) (f : α → α) : (s.update r f).size = s.size := by
  simp [update, size]

@[simp] theorem size_acquire (s : Store α) (r : Ref) (m : Mode) :
    (s.acquire r m).size = s.size := by
  simp [acquire, size]

@[simp] theorem size_release (s : Store α) (r : Ref) (m : Mode) :
    (s.release r m).size = s.size := by
  simp [release, size]

theorem value_alloc [Inhabited α] (s : Store α) (v : α) (r : Ref) :
    (s.alloc v).2.value r = if r = s.size then v else s.value r := by
  by_cases h : r = s.cells.size <;> simp [alloc, value, size, Array.getElem?_push, h]

theorem hold_alloc (s : Store α) (v : α) (r : Ref) : (s.alloc v).2.hold r = s.hold r := by
  simp only [alloc, hold, size, Array.getElem?_push]
  split
  · next h => simp [h, Hold.free]
  · rfl

theorem value_update [Inhabited α] (s : Store α) (r : Ref) (f : α → α) (p : Ref) :
    (s.update r f).value p = if p = r ∧ r < s.size then f (s.value r) else s.value p := by
  simp only [update, value, size, Array.getElem?_modify]
  by_cases h : r = p
  · subst h
    by_cases hr : r < s.cells.size <;> simp [hr]
  · simp [h, Ne.symm h]

@[simp] theorem hold_update (s : Store α) (r : Ref) (f : α → α) (p : Ref) :
    (s.update r f).hold p = s.hold p := by
  simp only [update, hold, Array.getElem?_modify]
  split <;> simp [Function.comp_def]

@[simp] theorem value_acquire [Inhabited α] (s : Store α) (r : Ref) (m : Mode) (p : Ref) :
    (s.acquire r m).value p = s.value p := by
  simp only [acquire, value, Array.getElem?_modify]
  split <;> simp [Function.comp_def]

@[simp] theorem value_release [Inhabited α] (s : Store α) (r : Ref) (m : Mode) (p : Ref) :
    (s.release r m).value p = s.value p := by
  simp only [release, value, Array.getElem?_modify]
  split <;> simp [Function.comp_def]

theorem hold_acquire (s : Store α) (r : Ref) (m : Mode) (p : Ref) :
    (s.acquire r m).hold p = if p = r ∧ r < s.size then (s.hold r).acquire m else s.hold p := by
  simp only [acquire, hold, size, Array.getElem?_modify]
  by_cases h : r = p
  · subst h
    by_cases hr : r < s.cells.size <;> simp [hr]
  · simp [h, Ne.symm h]

theorem hold_release (s : Store α) (r : Ref) (m : Mode) (p : Ref) :
    (s.release r m).hold p = if p = r ∧ r < s.size then (s.hold r).release m else s.hold p := by
  simp only [release, hold, size, Array.getElem?_modify]
  by_cases h : r = p
  · subst h
    by_cases hr : r < s.cells.size <;> simp [hr]
  · simp [h, Ne.symm h]

theorem value_of_size_le [Inhabited α] (s : Store α) {r : Ref} (h : s.size ≤ r) :
    s.value r = default := by
  simp only [size] at h
  simp [value, Array.getElem?_eq_none h]

theorem hold_of_size_le (s : Store α) {r : Ref} (h : s.size ≤ r) : s.hold r = .free := by
  simp only [size] at h
  simp [hold, Array.getElem?_eq_none h]

/-- Values and holds are apart, so it does not matter which of them changes first. -/
theorem update_acquire (s : Store α) (r : Ref) (m : Mode) (p : Ref) (f : α → α) :
    (s.acquire r m).update p f = (s.update p f).acquire r m := by
  simp only [acquire, update, mk.injEq]
  apply Array.ext_getElem?
  intro i
  simp only [Array.getElem?_modify]
  split <;> split <;> simp [Function.comp_def]

@[simp] theorem grants_update (s : Store α) (p : Ref) (f : α → α) (r : Ref) (m : Mode) :
    (s.update p f).grants r m = s.grants r m := by
  simp [grants]

/-- Giving back a granted hold leaves the cells as they were. -/
theorem release_acquire (s : Store α) (r : Ref) (m : Mode) (granted : s.grants r m = true) :
    (s.acquire r m).release r m = s := by
  cases s with
  | mk cells =>
    simp only [acquire, release, mk.injEq]
    apply Array.ext_getElem?
    intro i
    simp only [Array.getElem?_modify]
    by_cases h : r = i
    · subst h
      cases hc : cells[r]? with
      | none => simp
      | some c =>
        have hg : c.hold.grants m = true := by simpa [grants, hold, hc] using granted
        simp [Hold.release_acquire hg]
    · simp [h]

end Store

end ScopeChain
