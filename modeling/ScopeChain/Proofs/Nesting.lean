import ScopeChain.Proofs.Flattening

/-!
Which blocks control is in. The turns of a script leave no bracket but the innermost one that is
open, and by the end they have left all that they have opened. So the brackets that are open at some
point of a run are those of the blocks around it, in whatever way other blocks have been left
before, and the turns up to there are moves of a machine that has these brackets open.
-/
namespace ScopeChain

namespace Turn

/-- The brackets that are open after a turn, innermost first, `bs` being open before it. -/
def brackets (t : Turn) (bs : List Bracket) : List Bracket :=
  match t with
  | .enter _ bracket => bracket :: bs
  | .leave _ => bs.tail
  | .step .. | .refuse .. => bs

/-- To be left, a bracket has to be the innermost one that is open. -/
def Fits (t : Turn) (bs : List Bracket) : Prop :=
  match t with
  | .leave bracket => bs.head? = some bracket
  | .step .. | .refuse .. | .enter .. => True

def move : Turn → Move
  | .step s _ => .step s
  | .refuse b _ | .enter b _ => .enter b
  | .leave _ => .leave

/-- The brackets that are open after some turns. -/
def opened (bs : List Bracket) (ts : List Turn) : List Bracket :=
  ts.foldl (fun bs t => t.brackets bs) bs

/-- One after the other, the turns leave innermost brackets only. -/
def Nested : List Bracket → List Turn → Prop
  | _, [] => True
  | bs, t :: ts => t.Fits bs ∧ Nested (t.brackets bs) ts

variable {σ : Session} {t : Turn} {ts us : List Turn} {bs : List Bracket}

theorem opened_append (bs : List Bracket) (ts us : List Turn) :
    opened bs (ts ++ us) = opened (opened bs ts) us :=
  List.foldl_append

theorem nested_append : Nested bs (ts ++ us) ↔ Nested bs ts ∧ Nested (opened bs ts) us := by
  induction ts generalizing bs with
  | nil => simp [Nested, opened]
  | cons t ts ih => simp [Nested, opened, ih, and_assoc]

/-- The turns of a block have its bracket open as long as they are in the body, and
then close it. -/
theorem opened_block (b : Block) (bracket : Bracket) (hus : ∀ bs, opened bs us = bs)
    (bs : List Bracket) : opened bs (.enter b bracket :: (us ++ [.leave bracket])) = bs := by
  have hbody : opened (bracket :: bs) us = bracket :: bs := hus _
  show opened (bracket :: bs) (us ++ [.leave bracket]) = bs
  rw [opened_append, hbody]
  rfl

theorem perform_move (ht : t.Holds σ) (hfits : t.Fits bs) :
    t.move.perform ⟨σ, bs⟩ = ⟨t.perform σ, t.brackets bs⟩ := by
  cases t with
  | step s result => rfl
  | refuse b f =>
    have henter : b.enter σ = (.error f, (b.enter σ).2) := Prod.ext ht rfl
    simp only [move, Move.perform, perform, brackets]
    rw [henter]
  | enter b bracket =>
    obtain ⟨entry, hentry⟩ := ht
    have henter : b.enter σ = (.ok (bracket, entry), (b.enter σ).2) := Prod.ext hentry rfl
    simp only [move, Move.perform, perform, brackets]
    rw [henter]
  | leave bracket =>
    obtain ⟨outer, rfl⟩ := List.head?_eq_some_iff.mp hfits
    rfl

end Turn

open Turn (Nested opened)

variable {strict : Bool} {s rest : Script} {ts : List Turn} {x : Exit}

/-- What is asked of the turns of a script, whatever is open around it. -/
def Turn.Closed (ts : List Turn) : Prop := ∀ bs, Nested bs ts ∧ opened bs ts = bs

theorem Turn.Closed.append {us : List Turn} (hts : Closed ts) (hus : Closed us) :
    Closed (ts ++ us) := by
  intro bs
  obtain ⟨hnested, hopened⟩ := hts bs
  rw [nested_append, opened_append, hopened]
  exact ⟨⟨hnested, (hus bs).1⟩, (hus bs).2⟩

theorem Turn.Closed.block {us : List Turn} (hus : Closed us) (b : Block) (bracket : Bracket) :
    Closed (.enter b bracket :: (us ++ [.leave bracket])) := by
  intro bs
  obtain ⟨hnested, hopened⟩ := hus (bracket :: bs)
  refine ⟨⟨trivial, nested_append.mpr ⟨hnested, ?_⟩⟩,
    opened_block b bracket (fun bs => (hus bs).2) bs⟩
  show Nested (opened (bracket :: bs) us) [.leave bracket]
  rw [hopened]
  exact ⟨rfl, trivial⟩

namespace Script

theorem Continues.closed {ends : Option Exit}
    (ih : ∀ {ts x}, rest.Unrolls strict ts x → Turn.Closed ts)
    (h : rest.Continues strict ends ts x) : Turn.Closed ts := by
  cases h with
  | ended => exact fun _ => ⟨trivial, rfl⟩
  | rest h => exact ih h

/-- However control leaves a script, the brackets that the script has opened are closed by then. -/
theorem Unrolls.closed (h : s.Unrolls strict ts x) : Turn.Closed ts := by
  induction s generalizing strict ts x with
  | done =>
    cases h
    exact fun _ => ⟨trivial, rfl⟩
  | abort tag rest _ =>
    cases h
    exact fun _ => ⟨trivial, rfl⟩
  | step tag s rest ih =>
    cases h with
    | step hrest =>
      intro bs
      exact ⟨⟨trivial, (hrest.closed ih bs).1⟩, (hrest.closed ih bs).2⟩
  | block tag b inner body rest ihbody ihrest =>
    cases h with
    | refused hrest =>
      intro bs
      exact ⟨⟨trivial, (hrest.closed ihrest bs).1⟩, (hrest.closed ihrest bs).2⟩
    | @block _ _ _ _ _ _ bracket us ts _ _ hbody hrest =>
      have hclosed := ((ihbody hbody).block b bracket).append (hrest.closed ihrest)
      simpa using hclosed

end Script

theorem Session.Ways.closed {scripts : List Script} {tss : List (List Turn)}
    (h : Session.Ways scripts tss) : Turn.Closed tss.flatten := by
  induction h with
  | nil => exact fun _ => ⟨trivial, rfl⟩
  | cons hfirst _ ih =>
    obtain ⟨x, hx⟩ := hfirst
    exact hx.closed.append ih

namespace Machine

variable {σ : Session} {bs : List Bracket}

/-- Turns are moves of a machine that has the same brackets open. -/
theorem leads_take (hts : σ.Takes ts) (hnested : Nested bs ts) :
    Leads ⟨σ, bs⟩ ⟨σ.take ts, opened bs ts⟩ := by
  induction ts generalizing σ bs with
  | nil => exact .refl _
  | cons t ts ih =>
    obtain ⟨ht, hts⟩ := hts
    obtain ⟨hfits, hnested⟩ := hnested
    have hmove : Leads ⟨σ, bs⟩ (t.move.perform ⟨σ, bs⟩) := .move _ _
    rw [t.perform_move ht hfits] at hmove
    exact hmove.trans (ih hts hnested)

/-- At any point of played scripts, the machine has the brackets open that are not closed yet. -/
theorem Reachable.take {c : Machine} (hc : c.Reachable) {scripts : List Script}
    {tss : List (List Turn)} (hways : Session.Ways scripts tss)
    (hts : c.session.Takes tss.flatten) {pre post : List Turn} (heq : tss.flatten = pre ++ post) :
    Reachable ⟨c.session.take pre, opened c.brackets pre⟩ := by
  obtain ⟨hnested, -⟩ := hways.closed c.brackets
  rw [heq] at hts hnested
  exact hc.trans (leads_take (Session.takes_append.mp hts).1 (Turn.nested_append.mp hnested).1)

end Machine

end ScopeChain
