import ScopeChain.Proofs.Shifts

/-!
How high a stack is while turns are taken. The shifts of the turns say how many scopes there are
above the one that was on top before them, and whether that one is still there: it is on top again
just if they have popped what they have pushed and no more, for a scope that is gone from a stack
never comes back to it.
-/
namespace ScopeChain

variable {σ : Session} {name : String} {e : Environment}

/-- The height above a scope that is not to be popped itself. -/
def Shift.apply : Shift → Nat → Option Nat
  | .up n, h => some (h + n)
  | .down n, h => if n ≤ h then some (h - n) else none
  | .anew, _ => none

theorem Shift.le_of_apply_down {n h k : Nat} (hk : (Shift.down n).apply h = some k) : n ≤ h := by
  by_contra hlt
  simp [apply, hlt] at hk

/-- How many scopes the turns leave on the stack of `name` above the one that was on top, `h` being
there to begin with; none if that one has been popped itself. To enter a block and to leave it
counts as a push and a pop. -/
def level (name : String) : List Turn → Nat → Option Nat
  | [], h => some h
  | t :: ts, h => ((t.shift name).apply h).bind (level name ts)

/-- By the time control leaves the script, the scopes that it has pushed are popped again, and no
other scope has been. -/
def Script.Balanced (s : Script) (strict : Bool) (name : String) (σ : Session) : Prop :=
  ∃ ts x, s.Unrolls strict ts x ∧ σ.Takes ts ∧ level name ts 0 = some 0

/-! ### Levels -/

section Topped

variable {m : List Ref} {h : Nat} {t : Turn} {ts : List Turn}

/-- As long as no more than the scopes `m` is popped, what lies below them stays as it is. -/
theorem Turn.topped_of_apply (ht : t.Holds σ) (hbase : e.stack ≠ [])
    (he : σ.environments[name]? = some (e.topped m))
    (hh : (t.shift name).apply m.length = some h) :
    ∃ m', (t.perform σ).environments[name]? = some (e.topped m') ∧ m'.length = h ∧
      ∀ r ∈ m', r ∈ m ∨ σ.arena.scopes.size ≤ r := by
  have hrel := t.relates ht name
  rw [he] at hrel
  generalize hsh : t.shift name = sh at hrel hh
  generalize hafter : (t.perform σ).environments[name]? = after at hrel
  cases hrel with
  | @up _ rs hnew =>
    refine ⟨rs ++ m, by simp [Environment.topped], ?_, ?_⟩
    · simp only [Shift.apply, Option.some.injEq] at hh
      rw [List.length_append]
      omega
    · intro r hr
      rcases List.mem_append.mp hr with hr | hr
      · exact .inr (hnew r hr)
      · exact .inl hr
  | @down _ n =>
    have hle : n ≤ m.length := Shift.le_of_apply_down hh
    have hpos : 0 < e.stack.length := List.length_pos_iff.mpr hbase
    have hmin : min n ((e.topped m).stack.length - 1) = n := by
      simp only [Environment.topped, List.length_append]
      omega
    rw [hmin]
    refine ⟨m.drop n, ?_, ?_, fun r hr => .inl (List.mem_of_mem_drop hr)⟩
    · simp only [Environment.topped, List.drop_append_of_le_length hle]
    · simp only [Shift.apply, hle, if_true, Option.some.injEq] at hh
      rw [List.length_drop, hh]
  | anew hg => simp [Shift.apply] at hh

theorem Session.take_topped (hσ : σ.Sound) (hts : σ.Takes ts) (hbase : e.stack ≠ [])
    (he : σ.environments[name]? = some (e.topped m)) (hh : level name ts m.length = some h) :
    ∃ m', (σ.take ts).environments[name]? = some (e.topped m') ∧ m'.length = h ∧
      ∀ r ∈ m', r ∈ m ∨ σ.arena.scopes.size ≤ r := by
  induction ts generalizing σ m with
  | nil =>
    obtain rfl : m.length = h := Option.some.inj hh
    exact ⟨m, he, rfl, fun r hr => .inl hr⟩
  | cons t ts ih =>
    obtain ⟨ht, hts⟩ := hts
    obtain ⟨k, happly, hrest⟩ := Option.bind_eq_some_iff.mp hh
    obtain ⟨m₁, he₁, rfl, hm₁⟩ := t.topped_of_apply ht hbase he happly
    have hgrows := t.perform_grows hσ
    obtain ⟨m₂, he₂, hlen, hm₂⟩ := ih hgrows.sound hts he₁ hrest
    refine ⟨m₂, he₂, hlen, fun r hr => ?_⟩
    rcases hm₂ r hr with hr | hr
    · exact hm₁ r hr
    · exact .inr (Nat.le_trans hgrows.arena.size_le hr)

end Topped

/-! ### Scopes that are gone -/

/-- The scope `g` is not on the stack of `name`, nor is it one that an environment starts from. -/
structure Session.Lost (σ : Session) (name : String) (g : Ref) : Prop where
  made : g < σ.arena.scopes.size
  global_ne : ∀ (n : String) (e : Environment), σ.environments[n]? = some e → e.global ≠ g
  not_mem : ∀ e, σ.environments[name]? = some e → g ∉ e.stack

section Lost

variable {g : Ref} {m : List Ref} {t : Turn} {ts : List Turn}

theorem Turn.global_ne (ht : t.Holds σ) (hmade : g < σ.arena.scopes.size)
    (hglobal : ∀ (n : String) (e : Environment), σ.environments[n]? = some e → e.global ≠ g)
    (n : String) (e : Environment) (he : (t.perform σ).environments[n]? = some e) :
    e.global ≠ g := by
  have hrel := t.relates ht n
  rw [he] at hrel
  generalize t.shift n = sh at hrel
  generalize hbefore : σ.environments[n]? = before at hrel
  cases hrel with
  | @up f hnew => exact hglobal n f hbefore
  | @down f n => exact hglobal _ f hbefore
  | anew hg =>
    rcases hg with hnew | ⟨k, f, hf, rfl⟩
    · exact (Nat.ne_of_lt (Nat.lt_of_lt_of_le hmade hnew)).symm
    · exact hglobal k f hf

theorem Session.Lost.perform (h : σ.Lost name g) (ht : t.Holds σ) (hσ : σ.Sound) :
    (t.perform σ).Lost name g where
  made := Nat.lt_of_lt_of_le h.made (t.perform_grows hσ).arena.size_le
  global_ne := t.global_ne ht h.made h.global_ne
  not_mem e he hmem := by
    have hglobal := t.global_ne ht h.made h.global_ne name e he
    have hrel := t.relates ht name
    rw [he] at hrel
    generalize t.shift name = sh at hrel
    generalize hbefore : σ.environments[name]? = before at hrel
    cases hrel with
    | @up f rs hnew =>
      rcases List.mem_append.mp hmem with hmem | hmem
      · exact absurd h.made (Nat.not_lt.mpr (hnew g hmem))
      · exact h.not_mem f hbefore hmem
    | @down f n => exact h.not_mem f hbefore (List.mem_of_mem_drop hmem)
    | anew hg => exact hglobal (List.mem_singleton.mp hmem).symm

theorem Session.Lost.take (h : σ.Lost name g) (hts : σ.Takes ts) (hσ : σ.Sound) :
    (σ.take ts).Lost name g := by
  induction ts generalizing σ with
  | nil => exact h
  | cons t ts ih =>
    obtain ⟨ht, hts⟩ := hts
    exact ih (h.perform ht hσ) hts (t.perform_grows hσ).sound

/-- `g` is on top of the stack of `e`, and nowhere else where it could come from. -/
structure Session.Fresh (σ : Session) (e : Environment) (g : Ref) : Prop where
  made : g < σ.arena.scopes.size
  global_ne : ∀ (n : String) (e : Environment), σ.environments[n]? = some e → e.global ≠ g
  not_mem : g ∉ e.stack
  nonempty : e.stack ≠ []

theorem Session.Fresh.perform (h : σ.Fresh e g) (ht : t.Holds σ) (hσ : σ.Sound) :
    (t.perform σ).Fresh e g where
  made := Nat.lt_of_lt_of_le h.made (t.perform_grows hσ).arena.size_le
  global_ne := t.global_ne ht h.made h.global_ne
  not_mem := h.not_mem
  nonempty := h.nonempty

/-- Once more is popped than the scopes above it, a scope is gone. -/
theorem Turn.lost_of_apply (ht : t.Holds σ) (hσ : σ.Sound) (hg : σ.Fresh e g)
    (he : σ.environments[name]? = some ((e.topped [g]).topped m))
    (hh : (t.shift name).apply m.length = none) : (t.perform σ).Lost name g := by
  have hafter := hg.perform ht hσ
  refine ⟨hafter.made, hafter.global_ne, fun f hf hmem => ?_⟩
  have hglobal := hafter.global_ne name f hf
  have hrel := t.relates ht name
  rw [he, hf] at hrel
  generalize hsh : t.shift name = sh at hrel hh
  cases hrel with
  | up rs hnew => simp [Shift.apply] at hh
  | @down _ n =>
    have hlt : m.length < n := by
      by_contra hle
      simp [Shift.apply, Nat.le_of_not_lt hle] at hh
    have hpos : 0 < e.stack.length := List.length_pos_iff.mpr hg.nonempty
    have hstack : ((e.topped [g]).topped m).stack = (m ++ [g]) ++ e.stack := by
      simp [Environment.topped]
    have hdrop : (m ++ [g]).length ≤ min n (((m ++ [g]) ++ e.stack).length - 1) := by
      simp only [List.length_append, List.length_singleton]
      omega
    rw [hstack, List.drop_append, List.drop_eq_nil_of_le hdrop, List.nil_append] at hmem
    exact hg.not_mem (List.mem_of_mem_drop hmem)
  | anew hnew => exact hglobal (List.mem_singleton.mp hmem).symm

theorem Session.lost_of_level (hσ : σ.Sound) (hts : σ.Takes ts) (hg : σ.Fresh e g)
    (he : σ.environments[name]? = some ((e.topped [g]).topped m))
    (hh : level name ts m.length = none) : (σ.take ts).Lost name g := by
  induction ts generalizing σ m with
  | nil => cases hh
  | cons t ts ih =>
    obtain ⟨ht, hts⟩ := hts
    have hsound := (t.perform_grows hσ).sound
    cases happly : (t.shift name).apply m.length with
    | none => exact (t.lost_of_apply ht hσ hg he happly).take hts hsound
    | some k =>
      obtain ⟨m₁, he₁, rfl, -⟩ := t.topped_of_apply ht (by simp [Environment.topped]) he happly
      have hrest : level name ts m₁.length = none := by simpa [level, happly] using hh
      exact ih hsound hts (hg.perform ht hσ) he₁ hrest

/-- A scope is found on top where it was put just if the turns in between have popped what they
have pushed, and no more. -/
theorem Session.take_top_iff (hσ : σ.Sound) (hts : σ.Takes ts) (hg : σ.Fresh e g)
    (he : σ.environments[name]? = some (e.topped [g])) :
    (σ.take ts).environments[name]? = some (e.topped [g]) ↔ level name ts 0 = some 0 := by
  have hbase : (e.topped [g]).stack ≠ [] := by simp [Environment.topped]
  constructor
  · intro htop
    cases hh : level name ts 0 with
    -- The scope has been popped itself at some turn, and a scope that is gone stays away.
    | none =>
      have hlost := lost_of_level (m := []) hσ hts hg he hh
      exact absurd (by simp [Environment.topped]) (hlost.not_mem _ htop)
    | some h =>
      obtain ⟨m, hm, rfl, -⟩ := take_topped (m := []) hσ hts hbase he hh
      have hlen := congrArg (fun f => f.stack.length) (Option.some.inj (hm.symm.trans htop))
      simp only [Environment.topped, List.length_append] at hlen
      rw [Option.some.injEq]
      omega
  · intro hh
    obtain ⟨m, hm, hlen, -⟩ := take_topped (m := []) hσ hts hbase he hh
    rw [hm, List.length_eq_zero_iff.mp hlen]
    rfl

end Lost

/-! ### The bottom of a stack -/

/-- The last scope of a stack is the global one, which is never popped. -/
def Session.Grounded (σ : Session) : Prop :=
  ∀ (n : String) (e : Environment), σ.environments[n]? = some e → e.stack.getLast? = some e.global

theorem Session.Grounded.stack_ne_nil (h : σ.Grounded) (he : σ.environments[name]? = some e) :
    e.stack ≠ [] := by
  intro hnil
  have hlast := h name e he
  rw [hnil] at hlast
  cases hlast

theorem Turn.grounded {t : Turn} (ht : t.Holds σ) (h : σ.Grounded) : (t.perform σ).Grounded := by
  intro n e he
  have hrel := t.relates ht n
  rw [he] at hrel
  generalize t.shift n = sh at hrel
  generalize hbefore : σ.environments[n]? = before at hrel
  cases hrel with
  | @up f rs hnew =>
    have hlast := h n f hbefore
    show (rs ++ f.stack).getLast? = some f.global
    rw [List.getLast?_append, hlast, Option.some_or]
  | @down f k =>
    have hlast := h n f hbefore
    have hpos : 0 < f.stack.length := List.length_pos_iff.mpr (h.stack_ne_nil hbefore)
    show (f.stack.drop (min k (f.stack.length - 1))).getLast? = some f.global
    rw [List.getLast?_drop, if_neg (by omega), hlast]
  | anew hg => rfl

/-- Except for the log, a move is a turn. -/
theorem Move.exists_turn (m : Move) (c : Machine) :
    ∃ t : Turn, t.Holds c.session ∧ (t.perform c.session).Alike (m.perform c).session := by
  cases m with
  | step s => exact ⟨.step s _, rfl, .refl _⟩
  | enter b =>
    rw [session_enter]
    rcases henter : b.enter c.session with ⟨f | ⟨bracket, entry⟩, σ⟩
    · refine ⟨.refuse b f, congrArg Prod.fst henter, ?_⟩
      rw [Turn.perform, henter]
      exact .refl σ
    · refine ⟨.enter b bracket, ⟨entry, congrArg Prod.fst henter⟩, ?_⟩
      rw [Turn.perform, henter]
      exact .refl σ
  | leave =>
    rw [perform]
    split
    · exact ⟨.leave .nothing, trivial, .refl _⟩
    · next b brackets _ => exact ⟨.leave b, trivial, .refl _⟩
  | record tag report => exact ⟨.leave .nothing, trivial, Session.alike_record _ tag report⟩

theorem Machine.Reachable.grounded {c : Machine} (hc : c.Reachable) : c.session.Grounded := by
  refine Machine.Leads.induction (P := fun c => c.session.Grounded) (fun c m h => ?_) hc ?_
  · obtain ⟨t, ht, halike⟩ := m.exists_turn c
    intro n e he
    rw [halike.environments_eq] at he
    exact t.grounded ht h n e he
  · intro n e he
    simp [Machine.start, Session.empty] at he

/-- No scope encloses a global one. -/
def Session.Outermost (σ : Session) : Prop :=
  ∀ (n : String) (e : Environment), σ.environments[n]? = some e →
    (σ.arena.scope e.global).parent = none

theorem Shift.anew_of_ite {p : Prop} [Decidable p] {sh : Shift}
    (h : (if p then sh else .up 0) = .anew) : p ∧ sh = .anew := by
  split at h
  · next hp => exact ⟨hp, h⟩
  · cases h

theorem Turn.anew_cases {t : Turn} (h : t.shift n = .anew) :
    (∃ result, t = .step (.newEnvironment n) result) ∨
      ∃ k result, t = .step (.environment k (.child n)) result := by
  cases t with
  | step s result =>
    cases result with
    | error f => cases h
    | ok answer =>
      cases s with
      | environment k s =>
        cases s with
        | child x =>
          obtain ⟨rfl, -⟩ := Shift.anew_of_ite h
          exact .inr ⟨k, _, rfl⟩
        | _ => cases h
      | newEnvironment x =>
        obtain ⟨rfl, -⟩ := Shift.anew_of_ite h
        exact .inl ⟨_, rfl⟩
      | push x times => cases (Shift.anew_of_ite h).2
      | pushIn x parent => cases (Shift.anew_of_ite h).2
      | pop x times => cases (Shift.anew_of_ite h).2
      | _ => cases h
  | refuse b f => cases h
  | enter b bracket =>
    match b with
    | .scoped x | .scopedIn x parent => cases (Shift.anew_of_ite h).2
    | .holding .. | .catching => cases h
  | leave bracket =>
    cases bracket with
    | frame x => cases (Shift.anew_of_ite h).2
    | _ => cases h

/-- A global scope that has just been made is a root, and the others have been there before. -/
theorem Turn.outermost {t : Turn} (ht : t.Holds σ) (hσ : σ.Sound) (h : σ.Outermost) :
    (t.perform σ).Outermost := by
  intro n e he
  by_cases hmade : e.global < σ.arena.scopes.size
  · rw [(t.perform_grows hσ).arena.parent_eq _ hmade]
    by_contra hparent
    refine t.global_ne ht hmade (fun k f hf heq => hparent ?_) n e he rfl
    rw [← heq]
    exact h k f hf
  · have hrel := t.relates ht n
    rw [he] at hrel
    generalize hsh : t.shift n = sh at hrel
    generalize hbefore : σ.environments[n]? = before at hrel
    have hwithin := fun (f : Environment) (hf : before = some f) =>
      (hσ.environment_within n f (hbefore.trans hf)).global_lt
    cases hrel with
    | up rs hnew => exact absurd (hwithin _ rfl) hmade
    | down => exact absurd (hwithin _ rfl) hmade
    | @anew _ g hg =>
      rcases Turn.anew_cases hsh with ⟨result, rfl⟩ | ⟨k, result, rfl⟩
      · have hbound : some (Environment.ofGlobal σ.arena.scopes.size) = some (.ofGlobal g) :=
          (Std.ExtTreeMap.getElem?_insert_self.symm).trans he
        obtain rfl : σ.arena.scopes.size = g :=
          congrArg Environment.global (Option.some.inj hbound)
        show ((σ.arena.scopes.alloc .root).2.value σ.arena.scopes.size).parent = none
        rw [Store.value_alloc, if_pos rfl]
        rfl
      · -- A child is made of an environment that is known, and has the global scope of that one.
        cases hk : σ.environments[k]? with
        | none =>
          rw [perform, Step.perform, Session.onEnvironment, hk] at he
          exact absurd (hwithin _ (hbefore.symm.trans he)) hmade
        | some f =>
          rw [perform, Step.perform_environment hk] at he
          have hbound : some f.child = some (.ofGlobal g) :=
            (Std.ExtTreeMap.getElem?_insert_self.symm).trans he
          have hglobal : f.global = g := congrArg Environment.global (Option.some.inj hbound)
          exact absurd (hglobal ▸ (hσ.environment_within k f hk).global_lt) hmade

theorem Machine.Reachable.outermost {c : Machine} (hc : c.Reachable) : c.session.Outermost := by
  refine (Machine.Leads.induction (P := fun c => c.session.Sound ∧ c.session.Outermost)
    (fun c m h => ?_) hc ⟨Session.sound_empty, fun n e he => ?_⟩).2
  · obtain ⟨t, ht, halike⟩ := m.exists_turn c
    refine ⟨(m.perform_grows c h.1).sound, fun n e he => ?_⟩
    rw [halike.environments_eq] at he
    rw [halike.arena_eq]
    exact t.outermost ht h.1 h.2 n e he
  · simp [Machine.start, Session.empty] at he

end ScopeChain
