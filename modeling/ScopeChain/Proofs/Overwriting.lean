import Mathlib.Data.List.Induction
import ScopeChain.Proofs.Runs

/-!
Overwriting whole scopes. A handle lets its holder put any scope in the place of the one it is to,
and a scope can be made with any handle for its parent. So the parent of a scope does change, and a
scope overwritten by one whose parent it encloses becomes its own ancestor; there is no other way
for a chain to lose its root.
-/
namespace ScopeChain

namespace Arena

/-- Put a scope in the place of another. -/
def put (a : Arena) (r : Ref) (s : Scope) : Arena :=
  { a with scopes := a.scopes.update r fun _ => s }

/-- The scope `r` is on the chain of the parent that `s` has. -/
def Closes (a : Arena) (r : Ref) (s : Scope) : Prop :=
  ∃ p l, s.parent = some p ∧ a.Chain p l ∧ r ∈ l

variable {a b : Arena} {r p q : Ref} {s : Scope} {l pre post : List Ref}

theorem scope_put (hr : r < a.scopes.size) (s : Scope) (q : Ref) :
    (a.put r s).scope q = if q = r then s else a.scope q := by
  have hvalue := a.scopes.value_update r (fun _ => s) q
  rw [scope, put, hvalue]
  simp [hr, scope]

theorem scope_put_of_ne (hr : r < a.scopes.size) (s : Scope) (hq : q ≠ r) :
    (a.put r s).scope q = a.scope q := by
  rw [scope_put hr, if_neg hq]

@[simp] theorem size_put (a : Arena) (r : Ref) (s : Scope) :
    (a.put r s).scopes.size = a.scopes.size :=
  a.scopes.size_update r _

theorem Closed.put (h : a.Closed) (hr : r < a.scopes.size)
    (hs : ∀ p, s.parent = some p → p < a.scopes.size) : (a.put r s).Closed := by
  intro q p hp
  rw [size_put]
  by_cases hq : q = r
  · rw [scope_put hr, if_pos hq] at hp
    exact hs p hp
  · rw [scope_put_of_ne hr s hq] at hp
    exact h q p hp

theorem Chain.put_of_not_mem (h : a.Chain q l) (hr : r < a.scopes.size) (hmem : r ∉ l) :
    (a.put r s).Chain q l := by
  refine h.of_parents fun o ho => ?_
  have hne : o ≠ r := fun heq => hmem (heq ▸ ho)
  rw [scope_put_of_ne hr s hne]

/-- Whatever is enclosed by the overwritten scope continues the chain that this one has by then. -/
theorem Chain.put_of_chain (h : a.Chain q l) (hr : r < a.scopes.size)
    (hchain : ∃ l', (a.put r s).Chain r l') : ∃ l', (a.put r s).Chain q l' := by
  induction h with
  | @root q hp =>
    by_cases hq : q = r
    · exact hq ▸ hchain
    · exact ⟨[q], .root (by rw [scope_put_of_ne hr s hq, hp])⟩
  | @inner q p l hp outer ih =>
    by_cases hq : q = r
    · exact hq ▸ hchain
    · obtain ⟨l', hl'⟩ := ih
      exact ⟨q :: l', .inner (by rw [scope_put_of_ne hr s hq, hp]) hl'⟩

theorem Rooted.put (h : a.Rooted) (hr : r < a.scopes.size) (hopen : ¬ a.Closes r s) :
    (a.put r s).Rooted := by
  have hself : (a.put r s).scope r = s := by rw [scope_put hr, if_pos rfl]
  have hchain : ∃ l, (a.put r s).Chain r l := by
    cases hp : s.parent with
    | none => exact ⟨[r], .root (by rw [hself, hp])⟩
    | some p =>
      obtain ⟨l, hl⟩ := h p
      have hmem : r ∉ l := fun hmem => hopen ⟨p, l, hp, hl, hmem⟩
      exact ⟨r :: l, .inner (by rw [hself, hp]) (hl.put_of_not_mem hr hmem)⟩
  intro q
  obtain ⟨l, hl⟩ := h q
  exact hl.put_of_chain hr hchain

/-- The way outward to a member of a chain. -/
theorem Chain.ancestor_of_parents (h : a.Chain p (pre ++ r :: post))
    (hq : (b.scope q).parent = some p)
    (hpre : ∀ o ∈ pre, (b.scope o).parent = (a.scope o).parent) : b.Ancestor q r := by
  induction pre generalizing p q with
  | nil =>
    obtain ⟨outer, heq⟩ := h.exists_cons
    obtain ⟨rfl, -⟩ : r = p ∧ post = outer := by simpa using heq
    exact .single hq
  | cons c pre ih =>
    generalize hl : c :: pre ++ r :: post = l at h
    cases h with
    | root _ => simp at hl
    | inner hc outer =>
      obtain ⟨rfl, rfl⟩ : c = p ∧ pre ++ r :: post = _ := by simpa using hl
      have hparent := (hpre c (by simp)).trans hc
      exact .head hq (ih outer hparent fun o ho => hpre o (by simp [ho]))

theorem Closes.ancestor_self (h : a.Closes r s) (hr : r < a.scopes.size) :
    (a.put r s).Ancestor r r := by
  obtain ⟨p, l, hp, hl, hmem⟩ := h
  obtain ⟨pre, post, rfl⟩ := List.append_of_mem hmem
  have hself : ((a.put r s).scope r).parent = some p := by rw [scope_put hr, if_pos rfl, hp]
  refine hl.ancestor_of_parents hself fun o ho => ?_
  have hne : o ≠ r := by
    rintro rfl
    exact (List.nodup_append.mp hl.nodup).2.2 o ho o (by simp) rfl
  rw [scope_put_of_ne hr s hne]

/-- To overwrite a scope leaves a scope without a root iff the two become a loop. -/
theorem Rooted.put_iff (h : a.Rooted) (hr : r < a.scopes.size) :
    (a.put r s).Rooted ↔ ¬ a.Closes r s := by
  refine ⟨fun hrooted hcloses => ?_, h.put hr⟩
  obtain ⟨l, hl⟩ := hrooted r
  exact hl.not_ancestor_self (hcloses.ancestor_self hr)

end Arena

/-! ### Deeds -/

/-- A scope before it has a place: what it binds, and the handle that it is enclosed by. -/
structure Draft where
  bindings : Bindings
  parent : Option String

/-- There is no scope to a draft whose handle is not at hand. -/
def Draft.scope? (d : Draft) (σ : Session) : Option Scope :=
  match d.parent with
  | none => some ⟨d.bindings, none⟩
  | some name => σ.scopes[name]?.map fun p => ⟨d.bindings, some p⟩

/-- What may be done with scopes and handles: a move, or to overwrite the scope behind a handle. -/
inductive Deed where
  | move (m : Move)
  | overwrite (name : String) (d : Draft)

/-- A bracket is open that holds the scope to write. -/
def Machine.writes (c : Machine) (r : Ref) : Bool :=
  c.brackets.any fun b =>
    match b with
    | .hold q .exclusive => q = r
    | _ => false

def Machine.put (c : Machine) (r : Ref) (s : Scope) : Machine :=
  { c with session := { c.session with arena := c.session.arena.put r s } }

namespace Deed

/-- A scope is overwritten under a hold of its own, or else under one that is open. -/
def perform (d : Deed) (c : Machine) : Machine :=
  match d with
  | .move m => m.perform c
  | .overwrite name d =>
    match c.session.scopes[name]?, d.scope? c.session with
    | some r, some s =>
      match c.session.arena.scopes.replace? r s with
      | some (_, scopes) =>
        { c with session := { c.session with arena := { c.session.arena with scopes } } }
      | none => if c.writes r then c.put r s else c
    | _, _ => c

/-- The deed puts the scope `s` in the place of `r`. -/
def Overwrites (d : Deed) (c : Machine) (r : Ref) (s : Scope) : Prop :=
  match d with
  | .move _ => False
  | .overwrite name d =>
    c.session.scopes[name]? = some r ∧ d.scope? c.session = some s ∧
      (c.session.arena.scopes.grants r .exclusive = true ∨ c.writes r = true)

variable {c : Machine} {d : Deed} {r : Ref} {s : Scope}

theorem Overwrites.perform_eq (h : d.Overwrites c r s) : d.perform c = c.put r s := by
  cases d with
  | move m => cases h
  | overwrite name d =>
    obtain ⟨hr, hs, hwrites⟩ := h
    unfold perform Store.replace?
    simp only [hr, hs]
    by_cases hgrant : c.session.arena.scopes.grants r .exclusive = true
    · simp only [hgrant, if_true]
      rfl
    · have hheld : c.writes r = true := hwrites.resolve_left hgrant
      simp [hgrant, hheld]

/-- A deed that overwrites nothing and is no move does nothing. -/
theorem perform_of_not_overwrites {name : String} {d : Draft}
    (h : ∀ r s, ¬ (overwrite name d).Overwrites c r s) : (overwrite name d).perform c = c := by
  rw [perform]
  split
  · next r s hr hs =>
    have hwrites := mt (fun hw => (⟨hr, hs, hw⟩ : (overwrite name d).Overwrites c r s)) (h r s)
    rw [not_or] at hwrites
    simp [Store.replace?, hwrites]
  · rfl

theorem perform_cases (d : Deed) (c : Machine) :
    (∃ m, d = .move m) ∨ (∃ r s, d.Overwrites c r s) ∨
      ((∀ r s, ¬ d.Overwrites c r s) ∧ d.perform c = c) := by
  cases d with
  | move m => exact .inl ⟨m, rfl⟩
  | overwrite name d =>
    right
    by_cases h : ∃ r s, (overwrite name d).Overwrites c r s
    · exact .inl h
    · have hnone : ∀ r s, ¬ (overwrite name d).Overwrites c r s :=
        fun r s hrs => h ⟨r, s, hrs⟩
      exact .inr ⟨hnone, perform_of_not_overwrites hnone⟩

theorem Overwrites.lt_size (h : d.Overwrites c r s) (hc : c.session.Sound) :
    r < c.session.arena.scopes.size := by
  cases d with
  | move m => cases h
  | overwrite name d => exact hc.scope_lt name r h.1

theorem Overwrites.parent_lt (h : d.Overwrites c r s) (hc : c.session.Sound) :
    ∀ p, s.parent = some p → p < c.session.arena.scopes.size := by
  cases d with
  | move m => cases h
  | overwrite name d =>
    obtain ⟨-, hs, -⟩ := h
    intro p hp
    cases hparent : d.parent with
    | none =>
      obtain rfl : (⟨d.bindings, none⟩ : Scope) = s := by simpa [Draft.scope?, hparent] using hs
      cases hp
    | some handle =>
      obtain ⟨q, hq, rfl⟩ : ∃ q, c.session.scopes[handle]? = some q ∧
          (⟨d.bindings, some q⟩ : Scope) = s := by simpa [Draft.scope?, hparent] using hs
      obtain rfl : q = p := Option.some.inj hp
      exact hc.scope_lt handle q hq

theorem sound_put (hc : c.session.Sound) (hr : r < c.session.arena.scopes.size)
    (hs : ∀ p, s.parent = some p → p < c.session.arena.scopes.size) :
    (c.put r s).session.Sound where
  closed := hc.closed.put hr hs
  scope_lt name q hq := by
    show q < (c.session.arena.put r s).scopes.size
    rw [Arena.size_put]
    exact hc.scope_lt name q hq
  environment_within name e he q hq := by
    show q < (c.session.arena.put r s).scopes.size
    rw [Arena.size_put]
    exact hc.environment_within name e he q hq

theorem perform_sound (d : Deed) (hc : c.session.Sound) : (d.perform c).session.Sound := by
  rcases d.perform_cases c with ⟨m, rfl⟩ | ⟨r, s, hrs⟩ | ⟨-, hsame⟩
  · exact (m.perform_grows c hc).sound
  · rw [hrs.perform_eq]
    exact sound_put hc (hrs.lt_size hc) (hrs.parent_lt hc)
  · rwa [hsame]

/-- All chains still end after a deed, unless it closes a loop. -/
theorem perform_rooted_iff (d : Deed) (hc : c.session.Sound) (hrooted : c.session.arena.Rooted) :
    (d.perform c).session.arena.Rooted ↔
      ∀ r s, d.Overwrites c r s → ¬ c.session.arena.Closes r s := by
  constructor
  · intro hnext r s hrs
    rw [hrs.perform_eq] at hnext
    exact (hrooted.put_iff (hrs.lt_size hc)).mp hnext
  · intro hopen
    rcases d.perform_cases c with ⟨m, rfl⟩ | ⟨r, s, hrs⟩ | ⟨-, hsame⟩
    · exact hrooted.of_grows hc.closed (m.perform_grows c hc).arena
    · rw [hrs.perform_eq]
      exact (hrooted.put_iff (hrs.lt_size hc)).mpr (hopen r s hrs)
    · rwa [hsame]

/-- A scope gets another parent only with a whole scope in its place. -/
theorem perform_parent_ne_iff (d : Deed) (hc : c.session.Sound)
    (hr : r < c.session.arena.scopes.size) :
    ((d.perform c).session.arena.scope r).parent ≠ (c.session.arena.scope r).parent ↔
      ∃ s, d.Overwrites c r s ∧ s.parent ≠ (c.session.arena.scope r).parent := by
  constructor
  · intro hne
    rcases d.perform_cases c with ⟨m, rfl⟩ | ⟨q, s, hqs⟩ | ⟨-, hsame⟩
    · exact absurd ((m.perform_grows c hc).arena.parent_eq r hr) hne
    · have hscope := Arena.scope_put (hqs.lt_size hc) s r
      rw [hqs.perform_eq] at hne
      by_cases hrq : r = q
      · subst hrq
        rw [if_pos rfl] at hscope
        exact ⟨s, hqs, fun heq => hne ((congrArg Scope.parent hscope).trans heq)⟩
      · rw [if_neg hrq] at hscope
        exact absurd (congrArg Scope.parent hscope) hne
    · rw [hsame] at hne
      exact absurd rfl hne
  · rintro ⟨s, hrs, hne⟩
    have hscope := Arena.scope_put (hrs.lt_size hc) s r
    rw [if_pos rfl] at hscope
    rw [hrs.perform_eq]
    exact fun heq => hne ((congrArg Scope.parent hscope).symm.trans heq)

end Deed

namespace Machine

/-- Where a list of deeds leads from nothing. -/
def after (ds : List Deed) : Machine := ds.foldl (fun c d => d.perform c) start

theorem after_concat (ds : List Deed) (d : Deed) : after (ds ++ [d]) = d.perform (after ds) := by
  simp [after]

theorem after_sound (ds : List Deed) : (after ds).session.Sound := by
  induction ds using List.reverseRecOn with
  | nil => exact Session.sound_empty
  | append_singleton ds d ih =>
    rw [after_concat]
    exact d.perform_sound ih

/-- The chains of a run all end, and no scope is its own ancestor, for just as long as no scope is
overwritten by one whose chain leads back to it. A scope that there is gets another parent just when
a scope with that parent is put in its place. -/
theorem chains_end_iff_no_loop_closes (ds : List Deed) :
    ((∀ pre post, ds = pre ++ post → (after pre).session.arena.Rooted ∧
        ∀ r, ¬ (after pre).session.arena.Ancestor r r) ↔
      ∀ pre d post, ds = pre ++ d :: post → ∀ r s, d.Overwrites (after pre) r s →
        ¬ (after pre).session.arena.Closes r s) ∧
    ∀ pre d post, ds = pre ++ d :: post → ∀ r < (after pre).session.arena.scopes.size,
      (((after (pre ++ [d])).session.arena.scope r).parent ≠
          ((after pre).session.arena.scope r).parent ↔
        ∃ s, d.Overwrites (after pre) r s ∧
          s.parent ≠ ((after pre).session.arena.scope r).parent) := by
  refine ⟨⟨?_, ?_⟩, ?_⟩
  · intro hends pre d post heq
    have hbefore := (hends pre (d :: post) heq).1
    have hafter := (hends (pre ++ [d]) post (by simp [heq])).1
    rw [after_concat] at hafter
    exact (d.perform_rooted_iff (after_sound pre) hbefore).mp hafter
  · intro hopen pre post heq
    have hrooted : (after pre).session.arena.Rooted := by
      induction pre using List.reverseRecOn generalizing post with
      | nil => exact Reachable.rooted (.refl start)
      | append_singleton pre d ih =>
        have hpre : ds = pre ++ d :: post := by simpa using heq
        rw [after_concat]
        exact (d.perform_rooted_iff (after_sound pre) (ih (d :: post) hpre)).mpr
          (hopen pre d post hpre)
    refine ⟨hrooted, fun r hr => ?_⟩
    obtain ⟨l, hl⟩ := hrooted r
    exact hl.not_ancestor_self hr
  · intro pre d post _ r hr
    rw [after_concat]
    exact d.perform_parent_ne_iff (after_sound pre) hr

/-- A root scope, overwritten by a scope that a handle to the root encloses. -/
def rootInItself : List Deed :=
  [.move (.step (.newScope "s")), .overwrite "s" ⟨∅, some "s"⟩]

theorem rootInItself_has_no_root :
    ((after (rootInItself.take 1)).session.arena.scope 0).parent = none ∧
      ((after rootInItself).session.arena.scope 0).parent = some 0 ∧
      (after rootInItself).session.arena.Ancestor 0 0 ∧
      (∀ l, ¬ (after rootInItself).session.arena.Chain 0 l) ∧
      (∀ t, ((after rootInItself).session.arena.get 0 t).1 = .error .endless) ∧
      ((after rootInItself).session.arena.depth 0).1 = .error .endless ∧
      ∀ t v,
        ((after rootInItself).session.arena.assign 0 t v).1 = .error (.refused .exclusive) := by
  have hparent : ((after rootInItself).session.arena.scope 0).parent = some 0 := by
    decide +kernel
  have hself : (after rootInItself).session.arena.Ancestor 0 0 := .single hparent
  refine ⟨by decide +kernel, hparent, hself, fun l hl => hl.not_ancestor_self hself, ?_, ?_, ?_⟩
  · intro t
    rfl
  · rfl
  · intro t v
    rfl

end Machine

end ScopeChain
