import Mathlib.Data.List.Basic
import ScopeChain.CellScript

/-!
Cells and their history. A handle comes from the one that its cell was made with, by sharing, and of
a cell nothing counts but what has been put into it last through any handle that comes from there.
Whether a step is granted is a matter of the holds around it that have been granted themselves, and
of these only of the ones on the same cell. From the history alone every answer of a script can be
told, without a cell.
-/
namespace ScopeChain

/-- What a step has done. One that reads or is refused has done nothing. -/
inductive CellEvent where
  | made (n : Int)
  | shared (i : Nat)
  | put (i : Nat) (n : Int)

/-- What has been done so far, the last of it first. -/
abbrev CellHistory := List CellEvent

namespace CellHistory

/-- How many handles there are. -/
def handles : CellHistory → Nat
  | [] => 0
  | .made _ :: past | .shared _ :: past => handles past + 1
  | .put .. :: past => handles past

/-- The handle that another one comes from by sharing, once or over and over. -/
def origin : CellHistory → Nat → Nat
  | [], i => i
  | .shared k :: past, i => if i = handles past then origin past k else origin past i
  | .made _ :: past, i | .put .. :: past, i => origin past i

/-- The number that has been put last through any handle of one origin; the one that the cell was
made with if there is no other. -/
def latest : CellHistory → Nat → Int
  | [], _ => 0
  | .made n :: past, o => if o = handles past then n else latest past o
  | .put i n :: past, o => if origin past i = o then n else latest past o
  | .shared _ :: past, o => latest past o

/-- Among the holds around a step there is one of the same cell that does not go with the one asked
for: only two shared holds go together. -/
def refuses (past : CellHistory) (around : List (Nat × Mode)) (i : Nat) (m : Mode) : Bool :=
  around.any fun (k, held) =>
    origin past k = origin past i && (held = .exclusive || m = .exclusive)

/-- A handle that has not been made yet comes from no other. -/
theorem origin_of_handles_le (past : CellHistory) {i : Nat} (h : past.handles ≤ i) :
    past.origin i = i := by
  induction past with
  | nil => rfl
  | cons e past ih =>
    cases e with
    | made n => exact ih (Nat.le_of_succ_le h)
    | put k n => exact ih h
    | shared k =>
      have hne : i ≠ handles past := Nat.ne_of_gt h
      rw [origin, if_neg hne]
      exact ih (Nat.le_of_succ_le h)

end CellHistory

/-- What a step answers that puts a number into a cell, and what it has done. -/
def CellHistory.expectedPut (past : CellHistory) (around : List (Nat × Mode)) (i : Nat) (n : Int)
    (answer : Int → CellAnswer) : CellAnswer × Option CellEvent :=
  if past.refuses around i .exclusive then (.refused .exclusive, none)
  else (answer (past.latest (past.origin i)), some (.put i n))

/-- What a step answers and what it has done, by the granted holds around it and the history. -/
def CellStep.expected (s : CellStep) (around : List (Nat × Mode)) (past : CellHistory) :
    CellAnswer × Option CellEvent :=
  match s with
  | .new n => (.handles (past.handles + 1), some (.made n))
  | .share i => (.handles (past.handles + 1), some (.shared i))
  | .read i =>
    if past.refuses around i .shared then (.refused .shared, none)
    else (.number (past.latest (past.origin i)), none)
  | .write i n => past.expectedPut around i n fun _ => .written
  | .replace i n => past.expectedPut around i n .number
  | .tryHold i m => (.holds (!past.refuses around i m), none)
  | .same i k => (.holds (past.origin i = past.origin k), none)
  | .inspect i layout =>
    let shown := if past.refuses around i .shared then none
      else some (Doc.text (toString (past.latest (past.origin i))))
    (.text (Doc.handle shown layout), none)

/-- The history after a step. -/
def CellStep.next (s : CellStep) (around : List (Nat × Mode)) (past : CellHistory) : CellHistory :=
  (s.expected around past).2.toList ++ past

/-- What a script answers and the history after it. The steps under a refused hold are skipped;
those under a granted one have it among the holds around them. -/
def CellScript.expected :
    CellScript → List (Nat × Mode) → CellHistory → List CellAnswer × CellHistory
  | .done, _, past => ([], past)
  | .step s rest, around, past =>
    let (answers, later) := rest.expected around (s.next around past)
    ((s.expected around past).1 :: answers, later)
  | .hold i m body rest, around, past =>
    if past.refuses around i m then
      let (answers, later) := rest.expected around past
      (.refused m :: answers, later)
    else
      let (inner, between) := body.expected ((i, m) :: around) past
      let (answers, later) := rest.expected around between
      (inner ++ .released :: answers, later)

/-- The handles that a step is to use. -/
def CellStep.uses : CellStep → List Nat
  | .new _ => []
  | .share i | .read i | .write i _ | .replace i _ | .tryHold i _ | .inspect i _ => [i]
  | .same i k => [i, k]

/-- Each handle that is used has been made by then. -/
def CellScript.handlesMade : CellScript → List (Nat × Mode) → CellHistory → Bool
  | .done, _, _ => true
  | .step s rest, around, past =>
    s.uses.all (· < past.handles) && rest.handlesMade around (s.next around past)
  | .hold i m body rest, around, past =>
    i < past.handles &&
      if past.refuses around i m then rest.handlesMade around past
      else
        body.handlesMade ((i, m) :: around) past &&
          rest.handlesMade around (body.expected ((i, m) :: around) past).2

/-- The hold that some holds amount to, of which the first has been taken last. -/
def Hold.ofModes (ms : List Mode) : Hold := ms.foldr (fun m h => h.acquire m) .free

theorem Hold.ofModes_eq (ms : List Mode) :
    ofModes ms = if ms.any (· = .exclusive) then .exclusive else .shared ms.length := by
  induction ms with
  | nil => rfl
  | cons m ms ih =>
    have hcons : ofModes (m :: ms) = (ofModes ms).acquire m := rfl
    rw [hcons, ih]
    cases m <;> cases h : ms.any (· = .exclusive) <;> simp [acquire, h]

/-- A hold is granted beside others just if they are shared like it, unless there are none. -/
theorem Hold.grants_ofModes (ms : List Mode) (m : Mode) :
    (ofModes ms).grants m = !ms.any fun held => held = .exclusive || m = .exclusive := by
  rw [ofModes_eq]
  cases m with
  | shared => cases h : ms.any (· = .exclusive) <;> simp_all [grants]
  | exclusive =>
    cases ms with
    | nil => rfl
    | cons m ms => cases h : (m :: ms).any (· = .exclusive) <;> simp [grants]

namespace CellSession

/-- The modes of those holds that are on a cell. -/
def modesOn (σ : CellSession) (r : Ref) (around : List (Nat × Mode)) : List Mode :=
  (around.filter fun p => σ.ref p.1 = r).map (·.2)

/-- The cells are as the history says, and held as the holds around say. -/
structure Recalls (σ : CellSession) (around : List (Nat × Mode)) (past : CellHistory) : Prop where
  handles_eq : σ.handles.size = past.handles
  lt_size : ∀ i < past.handles, σ.ref i < σ.store.size
  origin_lt : ∀ i < past.handles, past.origin i < past.handles
  /-- Two handles are to one cell just if they have one origin. -/
  ref_eq_iff : ∀ i < past.handles, ∀ k < past.handles,
    σ.ref i = σ.ref k ↔ past.origin i = past.origin k
  value_eq : ∀ i < past.handles, σ.store.value (σ.ref i) = past.latest (past.origin i)
  around_lt : ∀ p ∈ around, p.1 < past.handles
  hold_eq : ∀ r, σ.store.hold r = Hold.ofModes (σ.modesOn r around)

variable {σ τ υ : CellSession} {around : List (Nat × Mode)} {past : CellHistory} {i k : Nat}
  {m : Mode}
  {n : Int}

theorem recalls_empty : empty.Recalls [] [] where
  handles_eq := rfl
  lt_size i hi := absurd hi (Nat.not_lt_zero i)
  origin_lt i hi := absurd hi (Nat.not_lt_zero i)
  ref_eq_iff i hi := absurd hi (Nat.not_lt_zero i)
  value_eq i hi := absurd hi (Nat.not_lt_zero i)
  around_lt _ hp := absurd hp List.not_mem_nil
  hold_eq r := Store.hold_of_size_le _ (Nat.zero_le r)

theorem Recalls.record (h : σ.Recalls around past) (a : CellAnswer) :
    (σ.record a).Recalls around past :=
  ⟨h.handles_eq, h.lt_size, h.origin_lt, h.ref_eq_iff, h.value_eq, h.around_lt, h.hold_eq⟩

/-- A hold is granted just if the history does not say that it is refused. -/
theorem Recalls.grants_eq (h : σ.Recalls around past) (hi : i < past.handles) (m : Mode) :
    σ.store.grants (σ.ref i) m = !past.refuses around i m := by
  rw [Store.grants, h.hold_eq, Hold.grants_ofModes, modesOn, List.any_map, List.any_filter,
    CellHistory.refuses]
  congr 1
  rw [Bool.eq_iff_iff, List.any_eq_true, List.any_eq_true]
  refine exists_congr fun p => and_congr_right fun hp => ?_
  simp [h.ref_eq_iff p.1 (h.around_lt p hp) i hi]

/-! ### Steps -/

theorem modesOn_congr (h : ∀ p ∈ around, τ.ref p.1 = σ.ref p.1) (r : Ref) :
    τ.modesOn r around = σ.modesOn r around := by
  rw [modesOn, modesOn, List.filter_congr fun p hp => by rw [h p hp]]

theorem ref_addHandle (σ : CellSession) (r : Ref) (i : Nat) :
    (σ.addHandle r).2.ref i = if i = σ.handles.size then r else σ.ref i := by
  simp only [addHandle, ref, Array.getD_eq_getD_getElem?, Array.getElem?_push]
  split <;> rfl

/-- What holds of the handles there are and of the one that is made next holds of all after that. -/
theorem forall_lt_handles_succ {p : Nat → Prop} (hnext : p past.handles)
    (h : ∀ i < past.handles, p i) : ∀ i < past.handles + 1, p i := by
  intro i hi
  rcases Nat.lt_succ_iff_lt_or_eq.mp hi with hi | rfl
  · exact h i hi
  · exact hnext

/-- One more handle, to the cell `r`, whatever event it is that has made it. -/
theorem Recalls.addHandle (h : σ.Recalls around past) {e : CellEvent} {store : Store Int} {r : Ref}
    (hhandles : CellHistory.handles (e :: past) = past.handles + 1)
    (hsize : σ.store.size ≤ store.size) (hr : r < store.size)
    (hhold : ∀ q, store.hold q = σ.store.hold q)
    (horigin : ∀ k < past.handles, CellHistory.origin (e :: past) k = past.origin k)
    (hnext : CellHistory.origin (e :: past) past.handles < past.handles + 1)
    (hsame : ∀ k < past.handles,
      r = σ.ref k ↔ CellHistory.origin (e :: past) past.handles = past.origin k)
    (hvalue : store.value r =
      CellHistory.latest (e :: past) (CellHistory.origin (e :: past) past.handles))
    (hvalues : ∀ k < past.handles,
      store.value (σ.ref k) = CellHistory.latest (e :: past) (past.origin k)) :
    ({ σ with store }.addHandle r).2.Recalls around (e :: past) := by
  have href : ({ σ with store }.addHandle r).2.ref past.handles = r := by
    rw [ref_addHandle, if_pos h.handles_eq.symm]
  have hrefs : ∀ k < past.handles, ({ σ with store }.addHandle r).2.ref k = σ.ref k := by
    intro k hk
    have hne : k ≠ σ.handles.size := by
      rw [h.handles_eq]
      exact Nat.ne_of_lt hk
    rw [ref_addHandle, if_neg hne]
    rfl
  constructor
  case handles_eq =>
    simp [CellSession.addHandle, hhandles, h.handles_eq]
  case lt_size =>
    rw [hhandles]
    refine forall_lt_handles_succ (by rwa [href]) fun k hk => ?_
    rw [hrefs k hk]
    exact Nat.lt_of_lt_of_le (h.lt_size k hk) hsize
  case origin_lt =>
    rw [hhandles]
    refine forall_lt_handles_succ hnext fun k hk => ?_
    rw [horigin k hk]
    exact Nat.lt_succ_of_lt (h.origin_lt k hk)
  case ref_eq_iff =>
    rw [hhandles]
    refine forall_lt_handles_succ ?_ fun j hj => ?_
    · refine forall_lt_handles_succ (by simp) fun k hk => ?_
      rw [href, hrefs k hk, horigin k hk]
      exact hsame k hk
    · rw [hrefs j hj, horigin j hj]
      refine forall_lt_handles_succ ?_ fun k hk => ?_
      · rw [href, eq_comm, hsame j hj, eq_comm]
      · rw [hrefs k hk, horigin k hk]
        exact h.ref_eq_iff j hj k hk
  case value_eq =>
    rw [hhandles]
    refine forall_lt_handles_succ (by rw [href]; exact hvalue) fun k hk => ?_
    rw [hrefs k hk, horigin k hk]
    exact hvalues k hk
  case around_lt =>
    rw [hhandles]
    exact fun p hp => Nat.lt_succ_of_lt (h.around_lt p hp)
  case hold_eq =>
    intro q
    rw [modesOn_congr fun p hp => hrefs p.1 (h.around_lt p hp)]
    exact (hhold q).trans (h.hold_eq q)

/-- A new cell has a handle that comes from no other. -/
theorem Recalls.made (h : σ.Recalls around past) (n : Int) :
    ({ σ with store := (σ.store.alloc n).2 }.addHandle (σ.store.alloc n).1).2.Recalls around
      (.made n :: past) := by
  have hnext : past.origin past.handles = past.handles := past.origin_of_handles_le (Nat.le_refl _)
  refine h.addHandle rfl ?_ ?_ (fun q => σ.store.hold_alloc n q) (fun k _ => rfl) ?_ ?_ ?_ ?_
  · rw [Store.size_alloc]
    exact Nat.le_succ _
  · rw [Store.size_alloc]
    exact Nat.lt_succ_self _
  · exact hnext.symm ▸ Nat.lt_succ_self _
  · intro k hk
    have href : (σ.store.alloc n).1 ≠ σ.ref k := Nat.ne_of_gt (h.lt_size k hk)
    have horigin : past.handles ≠ past.origin k := Nat.ne_of_gt (h.origin_lt k hk)
    exact iff_of_false href fun heq => horigin (hnext.symm.trans heq)
  · have hlatest : CellHistory.latest (.made n :: past) (past.origin past.handles) = n := by
      rw [hnext, CellHistory.latest, if_pos rfl]
    exact ((σ.store.value_alloc n _).trans (if_pos rfl)).trans hlatest.symm
  · intro k hk
    rw [Store.value_alloc, if_neg (Nat.ne_of_lt (h.lt_size k hk)), CellHistory.latest,
      if_neg (Nat.ne_of_lt (h.origin_lt k hk))]
    exact h.value_eq k hk

/-- A handle to a cell that there is already comes from the one that it is shared from. -/
theorem Recalls.shared (h : σ.Recalls around past) (hi : i < past.handles) :
    (σ.addHandle (σ.ref i)).2.Recalls around (.shared i :: past) := by
  have hnext : CellHistory.origin (.shared i :: past) past.handles = past.origin i := by
    rw [CellHistory.origin, if_pos rfl]
  refine h.addHandle rfl (Nat.le_refl _) (h.lt_size i hi) (fun q => rfl) ?_ ?_ ?_ ?_ h.value_eq
  · intro k hk
    rw [CellHistory.origin, if_neg (Nat.ne_of_lt hk)]
  · rw [hnext]
    exact Nat.lt_succ_of_lt (h.origin_lt i hi)
  · intro k hk
    rw [hnext]
    exact h.ref_eq_iff i hi k hk
  · rw [hnext]
    exact h.value_eq i hi

/-- What is put through a handle is in the cell of all handles with its origin. -/
theorem Recalls.put (h : σ.Recalls around past) (hi : i < past.handles) (n : Int) :
    ({ σ with store := σ.store.update (σ.ref i) fun _ => n } : CellSession).Recalls around
      (.put i n :: past) where
  handles_eq := h.handles_eq
  lt_size k hk := by
    rw [Store.size_update]
    exact h.lt_size k hk
  origin_lt := h.origin_lt
  ref_eq_iff := h.ref_eq_iff
  value_eq k hk := by
    have hsame := h.ref_eq_iff i hi k hk
    show (σ.store.update (σ.ref i) fun _ => n).value (σ.ref k) =
      if past.origin i = past.origin k then n else past.latest (past.origin k)
    rw [Store.value_update, ← h.value_eq k hk]
    simp only [h.lt_size i hi, and_true, ← hsame, eq_comm]
  around_lt := h.around_lt
  hold_eq r := by
    rw [Store.hold_update]
    exact h.hold_eq r

/-! ### Holds -/

/-- Under one more hold, its mode is the last one on its cell and on no other. -/
theorem Recalls.acquire (h : σ.Recalls around past) (hi : i < past.handles) (m : Mode) :
    ({ σ with store := σ.store.acquire (σ.ref i) m } : CellSession).Recalls ((i, m) :: around)
      past where
  handles_eq := h.handles_eq
  lt_size k hk := by
    rw [Store.size_acquire]
    exact h.lt_size k hk
  origin_lt := h.origin_lt
  ref_eq_iff := h.ref_eq_iff
  value_eq k hk := by
    rw [Store.value_acquire]
    exact h.value_eq k hk
  around_lt p hp := by
    rcases List.mem_cons.mp hp with rfl | hp
    · exact hi
    · exact h.around_lt p hp
  hold_eq r := by
    show (σ.store.acquire (σ.ref i) m).hold r = Hold.ofModes (σ.modesOn r ((i, m) :: around))
    rw [Store.hold_acquire, h.hold_eq, h.hold_eq]
    by_cases hr : σ.ref i = r
    · subst hr
      simp [modesOn, h.lt_size i hi, Hold.ofModes]
    · simp [modesOn, hr, Ne.symm hr]

/-- What has been granted is given back as it was taken. -/
theorem Recalls.release (h : σ.Recalls ((i, m) :: around) past)
    (hgranted : (Hold.ofModes (σ.modesOn (σ.ref i) around)).grants m = true) :
    ({ σ with store := σ.store.release (σ.ref i) m } : CellSession).Recalls around past where
  handles_eq := h.handles_eq
  lt_size k hk := by
    rw [Store.size_release]
    exact h.lt_size k hk
  origin_lt := h.origin_lt
  ref_eq_iff := h.ref_eq_iff
  value_eq k hk := by
    rw [Store.value_release]
    exact h.value_eq k hk
  around_lt p hp := h.around_lt p (List.mem_cons_of_mem _ hp)
  hold_eq r := by
    have hi : i < past.handles := h.around_lt (i, m) List.mem_cons_self
    show (σ.store.release (σ.ref i) m).hold r = Hold.ofModes (σ.modesOn r around)
    rw [Store.hold_release, h.hold_eq, h.hold_eq]
    by_cases hr : σ.ref i = r
    · subst hr
      have htaken : Hold.ofModes (σ.modesOn (σ.ref i) ((i, m) :: around)) =
          (Hold.ofModes (σ.modesOn (σ.ref i) around)).acquire m := by
        simp [modesOn, Hold.ofModes]
      rw [if_pos ⟨rfl, h.lt_size i hi⟩, htaken, Hold.release_acquire hgranted]
    · simp [modesOn, hr, Ne.symm hr]

/-! ### Answers -/

/-- To read or to put through a handle comes to what the history says, be it a refusal. -/
theorem Recalls.read?_eq (h : σ.Recalls around past) (hi : i < past.handles) :
    σ.store.read? (σ.ref i) =
      if past.refuses around i .shared then none else some (past.latest (past.origin i)) := by
  rw [Store.read?, h.grants_eq hi, h.value_eq i hi]
  cases past.refuses around i .shared <;> rfl

theorem Recalls.perform_put (h : σ.Recalls around past) (hi : i < past.handles) (n : Int)
    (answer : Int → CellAnswer) :
    (σ.put i n answer).1 = (past.expectedPut around i n answer).1 ∧
      (σ.put i n answer).2.Recalls around
        ((past.expectedPut around i n answer).2.toList ++ past) := by
  rw [CellSession.put, Store.replace?, h.grants_eq hi, h.value_eq i hi, CellHistory.expectedPut]
  cases past.refuses around i .exclusive with
  | true => exact ⟨rfl, h⟩
  | false => exact ⟨rfl, h.put hi n⟩

/-- A step answers what the history says, which it leaves true. -/
theorem Recalls.perform (h : σ.Recalls around past) (s : CellStep)
    (hs : ∀ i ∈ s.uses, i < past.handles) :
    (s.perform σ).1 = (s.expected around past).1 ∧
      (s.perform σ).2.Recalls around (s.next around past) := by
  cases s with
  | new n =>
    have hcount : (σ.handles.size + 1) = past.handles + 1 := by rw [h.handles_eq]
    exact ⟨congrArg CellAnswer.handles hcount, h.made n⟩
  | share i =>
    have hcount : (σ.handles.size + 1) = past.handles + 1 := by rw [h.handles_eq]
    exact ⟨congrArg CellAnswer.handles hcount, h.shared (hs i (by simp [CellStep.uses]))⟩
  | read i =>
    have hread := h.read?_eq (hs i (by simp [CellStep.uses]))
    simp only [CellStep.perform, CellStep.next, CellStep.expected, hread]
    cases past.refuses around i .shared with
    | true => exact ⟨rfl, h⟩
    | false => exact ⟨rfl, h⟩
  | write i n => exact h.perform_put (hs i (by simp [CellStep.uses])) n _
  | replace i n => exact h.perform_put (hs i (by simp [CellStep.uses])) n _
  | tryHold i m =>
    have hgrants := h.grants_eq (hs i (by simp [CellStep.uses])) m
    exact ⟨congrArg CellAnswer.holds hgrants, h⟩
  | same i k =>
    have hsame := h.ref_eq_iff i (hs i (by simp [CellStep.uses])) k (hs k (by simp [CellStep.uses]))
    exact ⟨congrArg CellAnswer.holds (decide_eq_decide.mpr hsame), h⟩
  | inspect i layout =>
    have hread := h.read?_eq (hs i (by simp [CellStep.uses]))
    refine ⟨?_, h⟩
    simp only [CellStep.perform, CellStep.expected, Store.doc, hread]
    cases past.refuses around i .shared <;> rfl

/-! ### Scripts -/

theorem perform_read_snd (i : Nat) (σ : CellSession) : ((CellStep.read i).perform σ).2 = σ := by
  unfold CellStep.perform
  dsimp only
  split <;> rfl

/-- To put a number into a cell changes no more than the cells. -/
theorem exists_put_snd (σ : CellSession) (i : Nat) (n : Int) (answer : Int → CellAnswer) :
    ∃ store, (σ.put i n answer).2 = { σ with store } := by
  unfold CellSession.put
  split
  · exact ⟨_, rfl⟩
  · exact ⟨σ.store, rfl⟩

/-- From `σ` to `τ` no handle has been lost, and none is to another cell. -/
structure HandlesKept (σ τ : CellSession) : Prop where
  size_le : σ.handles.size ≤ τ.handles.size
  ref_eq : ∀ i < σ.handles.size, τ.ref i = σ.ref i

theorem HandlesKept.of_handles_eq (h : τ.handles = σ.handles) : σ.HandlesKept τ where
  size_le := Nat.le_of_eq (congrArg Array.size h.symm)
  ref_eq i _ := by rw [ref, ref, h]

theorem HandlesKept.trans (h : σ.HandlesKept τ) (h' : τ.HandlesKept υ) : σ.HandlesKept υ where
  size_le := Nat.le_trans h.size_le h'.size_le
  ref_eq i hi := (h'.ref_eq i (Nat.lt_of_lt_of_le hi h.size_le)).trans (h.ref_eq i hi)

theorem handlesKept_addHandle (σ : CellSession) (r : Ref) : σ.HandlesKept (σ.addHandle r).2 where
  size_le := by simp [CellSession.addHandle]
  ref_eq i hi := by rw [ref_addHandle, if_neg (Nat.ne_of_lt hi)]

theorem handlesKept_put (σ : CellSession) (i : Nat) (n : Int) (answer : Int → CellAnswer) :
    σ.HandlesKept (σ.put i n answer).2 := by
  obtain ⟨store, hput⟩ := exists_put_snd σ i n answer
  rw [hput]
  exact .of_handles_eq rfl

theorem handlesKept_perform (s : CellStep) (σ : CellSession) : σ.HandlesKept (s.perform σ).2 := by
  cases s with
  | new n =>
    have hstore : σ.HandlesKept { σ with store := (σ.store.alloc n).2 } := .of_handles_eq rfl
    exact hstore.trans (handlesKept_addHandle _ _)
  | share i => exact handlesKept_addHandle σ _
  | read i =>
    rw [perform_read_snd]
    exact .of_handles_eq rfl
  | write i n => exact handlesKept_put σ i n _
  | replace i n => exact handlesKept_put σ i n _
  | _ => exact .of_handles_eq rfl

theorem handlesKept_run (s : CellScript) (σ : CellSession) : σ.HandlesKept (s.run σ) := by
  induction s generalizing σ with
  | done => exact .of_handles_eq rfl
  | step s rest ih =>
    have hrecord : (s.perform σ).2.HandlesKept ((s.perform σ).2.record (s.perform σ).1) :=
      .of_handles_eq rfl
    exact ((handlesKept_perform s σ).trans hrecord).trans (ih _)
  | hold i m body rest ihbody ihrest =>
    unfold CellScript.run
    dsimp only
    split
    · have hacquire : σ.HandlesKept { σ with store := σ.store.acquire (σ.ref i) m } :=
        .of_handles_eq rfl
      have hrelease : ∀ τ : CellSession, τ.HandlesKept
          ({ τ with store := τ.store.release (σ.ref i) m }.record .released) :=
        fun τ => .of_handles_eq rfl
      exact ((hacquire.trans (ihbody _)).trans (hrelease _)).trans (ihrest _)
    · have hrecord : σ.HandlesKept (σ.record (.refused m)) := .of_handles_eq rfl
      exact hrecord.trans (ihrest _)

/-- The answer of a step is not recorded by the step itself. -/
theorem log_perform (s : CellStep) (σ : CellSession) : (s.perform σ).2.log = σ.log := by
  have hput (i : Nat) (n : Int) (answer : Int → CellAnswer) : (σ.put i n answer).2.log = σ.log := by
    obtain ⟨store, hput⟩ := exists_put_snd σ i n answer
    rw [hput]
  cases s with
  | read i => rw [perform_read_snd]
  | write i n => exact hput i n _
  | replace i n => exact hput i n _
  | _ => rfl

/-- A script answers what the history says, step by step, and leaves the cells as it says. -/
theorem Recalls.run (s : CellScript) (h : σ.Recalls around past)
    (hs : s.handlesMade around past = true) :
    (s.run σ).log.toList = σ.log.toList ++ (s.expected around past).1 ∧
      (s.run σ).Recalls around (s.expected around past).2 := by
  induction s generalizing σ around past with
  | done => exact ⟨(List.append_nil _).symm, h⟩
  | step s rest ih =>
    simp only [CellScript.handlesMade, Bool.and_eq_true, List.all_eq_true, decide_eq_true_eq] at hs
    obtain ⟨huses, hrest⟩ := hs
    obtain ⟨hanswer, hnext⟩ := h.perform s huses
    obtain ⟨hlog, hlater⟩ := ih (hnext.record (s.perform σ).1) hrest
    refine ⟨?_, hlater⟩
    have hstep := log_perform s σ
    simp only [CellScript.run, CellScript.expected, hlog]
    simp [CellSession.record, hstep, hanswer]
  | hold i m body rest ihbody ihrest =>
    simp only [CellScript.handlesMade, Bool.and_eq_true, decide_eq_true_eq] at hs
    obtain ⟨hi, hs⟩ := hs
    have hgrants := h.grants_eq hi m
    cases hrefuses : past.refuses around i m with
    | true =>
      simp only [hrefuses, if_true] at hs
      obtain ⟨hlog, hlater⟩ := ihrest (h.record (.refused m)) hs
      simp only [CellScript.run, CellScript.expected, hgrants, hrefuses, Bool.not_true,
        Bool.false_eq_true, if_false, if_true]
      refine ⟨?_, hlater⟩
      rw [hlog]
      simp [CellSession.record]
    | false =>
      simp only [hrefuses, Bool.false_eq_true, if_false, Bool.and_eq_true] at hs
      obtain ⟨hbody, hrest⟩ := hs
      have hinner := ihbody (h.acquire hi m) hbody
      have hkept := handlesKept_run body { σ with store := σ.store.acquire (σ.ref i) m }
      simp only [CellScript.run, CellScript.expected, hgrants, hrefuses, Bool.not_false,
        Bool.false_eq_true, if_false, if_true]
      generalize hτ : body.run { σ with store := σ.store.acquire (σ.ref i) m } = τ at hinner hkept ⊢
      obtain ⟨hlog, hbetween⟩ := hinner
      -- The handles of the holds around are still to the cells that they were to before the body.
      have href : ∀ k < past.handles, τ.ref k = σ.ref k := by
        intro k hk
        exact hkept.ref_eq k (h.handles_eq.symm ▸ hk)
      have hmodes : τ.modesOn (σ.ref i) around = σ.modesOn (σ.ref i) around :=
        modesOn_congr (fun p hp => href p.1 (h.around_lt p hp)) _
      have hgranted : (Hold.ofModes (τ.modesOn (τ.ref i) around)).grants m = true := by
        rw [href i hi, hmodes, ← h.hold_eq]
        exact hgrants.trans (by rw [hrefuses]; rfl)
      have hreleased := hbetween.release hgranted
      rw [href i hi] at hreleased
      obtain ⟨hafter, hlater⟩ := ihrest (hreleased.record .released) hrest
      refine ⟨?_, hlater⟩
      rw [hafter]
      simp [CellSession.record, hlog]

/-! ### Handles, refusals and other cells -/

/-- Whoever is refused has not done anything. -/
theorem perform_of_refused (s : CellStep) (hrefused : (s.perform σ).1 = .refused m) :
    (s.perform σ).2 = σ := by
  have hput (i : Nat) (n : Int) {answer : Int → CellAnswer} (hanswer : ∀ n, answer n ≠ .refused m)
      (h : (σ.put i n answer).1 = .refused m) : (σ.put i n answer).2 = σ := by
    unfold CellSession.put at h ⊢
    split at h
    · exact absurd h (hanswer _)
    · rfl
  cases s with
  | read i => exact perform_read_snd i σ
  | write i n => exact hput i n (fun _ h => by cases h) hrefused
  | replace i n => exact hput i n (fun _ h => by cases h) hrefused
  | new n => cases hrefused
  | share i => cases hrefused
  | _ => rfl

/-- A hold of one cell makes no difference to another one, neither taken nor given back. -/
theorem grants_other {s : Store Int} {q r : Ref} (hne : q ≠ r) (held asked : Mode) :
    (s.acquire r held).grants q asked = s.grants q asked ∧
      (s.release r held).grants q asked = s.grants q asked := by
  simp [Store.grants, Store.hold_acquire, Store.hold_release, hne]

/-- To be found the same is to have one reference, so it is an equivalence of handles. -/
theorem same_equivalence (σ : CellSession) :
    Equivalence fun i k => ((CellStep.same i k).perform σ).1 = .holds true := by
  have hsame : ∀ i k, ((CellStep.same i k).perform σ).1 = .holds true ↔ σ.ref i = σ.ref k := by
    simp [CellStep.perform]
  simp only [hsame]
  exact ⟨fun i => rfl, Eq.symm, Eq.trans⟩

/-- Handles share one cell if they come from one origin, and only then. Every answer of a script is
told by what has been done before and by the granted holds around its step; the cells are left as
the history says, and none of them held. A refused step does nothing, and a refused hold skips what
is under it, whatever that is; a hold of one cell makes no difference to another cell. -/
theorem handles_share_one_cell (s : CellScript) (hs : s.handlesMade [] [] = true) :
    s.answers.toList = (s.expected [] []).1 ∧
      (s.run .empty).Recalls [] (s.expected [] []).2 ∧
      (∀ r, (s.run .empty).store.hold r = .free) ∧
      (∀ σ : CellSession, Equivalence fun i k => ((CellStep.same i k).perform σ).1 = .holds true) ∧
      (∀ (σ : CellSession) (step : CellStep) m, (step.perform σ).1 = .refused m →
        (step.perform σ).2 = σ) ∧
      (∀ (σ : CellSession) i m body, σ.store.grants (σ.ref i) m = false →
        (CellScript.hold i m body .done).run σ = σ.record (.refused m)) ∧
      ∀ (store : Store Int) q r held asked, q ≠ r →
        (store.acquire r held).grants q asked = store.grants q asked ∧
          (store.release r held).grants q asked = store.grants q asked := by
  obtain ⟨hlog, hrecalls⟩ := recalls_empty.run s hs
  refine ⟨hlog, hrecalls, hrecalls.hold_eq, same_equivalence,
    fun σ step m => perform_of_refused step, ?_, ?_⟩
  · intro σ i m body hgrants
    simp [CellScript.run, hgrants]
  · exact fun store q r held asked hne => grants_other hne held asked

/-- Two handles to one cell, and a third to another. -/
def sharedPair : CellScript :=
  .step (.new 1) <| .step (.share 0) <|
  .hold 0 .shared
    (.step (.read 1) <| .step (.write 1 5) <|
      .hold 1 .exclusive (.step (.new 9) .done) <|
      .hold 1 .shared (.step (.tryHold 0 .shared) .done) .done) <|
  .step (.replace 1 7) <| .step (.read 0) <| .step (.new 3) <|
  .hold 2 .exclusive (.step (.read 2) <| .step (.write 0 8) .done) <|
  .step (.same 0 1) <| .step (.same 1 2) <| .step (.read 1) .done

/-- The cell that two handles share is held for reading twice over, and neither written nor held
for writing under that; the third handle is to a cell of its own. -/
theorem handles_share_one_cell_sharedPair :
    sharedPair.handlesMade [] [] = true ∧
      sharedPair.answers.toList =
        [.handles 1, .handles 2, .number 1, .refused .exclusive, .refused .exclusive, .holds true,
          .released, .released, .number 1, .number 7, .handles 3, .refused .shared, .written,
          .released, .holds true, .holds false, .number 8] ∧
      ∀ r, (sharedPair.run .empty).store.hold r = .free := by
  have hmade : sharedPair.handlesMade [] [] = true := by decide +kernel
  obtain ⟨hanswers, -, hfree, -⟩ := handles_share_one_cell sharedPair hmade
  exact ⟨hmade, hanswers.trans (by decide +kernel), hfree⟩

end CellSession

end ScopeChain
