import ScopeChain.Proofs.Chains

/-!
What the walks do, told without their recursion. A walk holds the scopes of a chain one inside the
other, from the innermost outward and as far as it has to go, and then reads off the chain or
writes to it. No scope comes twice, so the holds of a walk never stand in its own way.
-/
namespace ScopeChain.Arena

variable {α : Type} {a b : Arena} {m : Mode} {r : Ref} {l : List Ref}

/-- No scope is held in any manner. -/
def Free (a : Arena) : Prop := ∀ r, a.scopes.hold r = .free

/-- Hold some scopes one inside the other, the first one outermost. -/
def holdingAll (m : Mode) : List Ref → Attempt α → Attempt α
  | [], act => act
  | r :: rs, act => holding r m (holdingAll m rs act)

/-- The first binding of a name in a list of scopes. -/
def found (a : Arena) (l : List Ref) (name : String) : Option Value :=
  l.findSome? fun q => (a.scope q).find? name

/-- Read the first binding of a token's lexeme in a list of scopes. -/
def lookup (l : List Ref) (t : Token) : Attempt Value := fun a =>
  match a.found l t.lexeme with
  | some v => (.ok v, a)
  | none => (.error (.undefined (.undefinedVariable t)), a.emit (.lookupUndefined t.lexeme t.line))

/-- Overwrite the first binding of a token's lexeme in a list of scopes. -/
def overwrite (l : List Ref) (t : Token) (v : Value) : Attempt Unit := fun a =>
  match l.find? fun q => (a.scope q).binds t.lexeme with
  | some o => (.ok (), a.defineInside o t.lexeme v)
  | none => (.error (.undefined (.undefinedVariable t)), a.emit (.assignUndefined t.lexeme t.line))

/-- The number of scopes in a list, as far as it can be counted. -/
def count (l : List Ref) : Attempt Nat := fun a => (.ok (min l.length maxCount), a)

/-- Another granted hold around the attempt makes no difference to it. -/
def Blind (act : Attempt α) : Prop :=
  ∀ r m a, a.scopes.grants r m = true → holding r m act a = act a

theorem free_of_lt_size (h : ∀ r < a.scopes.size, a.scopes.hold r = .free) : a.Free := by
  intro r
  by_cases hr : r < a.scopes.size
  · exact h r hr
  · exact a.scopes.hold_of_size_le (Nat.le_of_not_lt hr)

theorem grants_of_free (h : a.Free) (r : Ref) (m : Mode) : a.scopes.grants r m = true := by
  cases m <;> simp [Store.grants, h r, Hold.free, Hold.grants]

theorem grants_acquire_of_ne {q : Ref} (h : q ≠ r) (k : Mode) :
    (a.acquire r m).scopes.grants q k = a.scopes.grants q k := by
  simp [acquire, Store.grants, Store.hold_acquire, h]

theorem holding_congr {act act' : Attempt α} (h : act (a.acquire r m) = act' (a.acquire r m)) :
    holding r m act a = holding r m act' a := by
  simp only [holding, h]

theorem holdingAll_congr {act act' : Attempt α}
    (h : ∀ c : Arena, (∀ q, c.scope q = a.scope q) → act c = act' c) :
    holdingAll m l act a = holdingAll m l act' a := by
  induction l generalizing a with
  | nil => exact h a fun _ => rfl
  | cons r rs ih =>
    apply holding_congr
    apply ih
    intro c hc
    exact h c fun q => (hc q).trans (scope_acquire a r m q)

/-- Either all holds are granted and leave no mark, or the first one that is not ends the attempt
before it has begun. -/
theorem holdingAll_eq {act : Attempt α} (hact : Blind act) (hl : l.Nodup) (a : Arena) :
    holdingAll m l act a =
      if ∀ q ∈ l, a.scopes.grants q m = true then act a else (.error (.refused m), a) := by
  induction l generalizing a with
  | nil => simp [holdingAll]
  | cons r rs ih =>
    obtain ⟨hr, hrs⟩ := List.nodup_cons.mp hl
    by_cases hgrant : a.scopes.grants r m = true
    · have hrest : (∀ q ∈ rs, (a.acquire r m).scopes.grants q m = true) ↔
          ∀ q ∈ rs, a.scopes.grants q m = true := by
        refine forall₂_congr fun q hq => ?_
        rw [grants_acquire_of_ne fun heq : q = r => hr (heq ▸ hq)]
      by_cases hall : ∀ q ∈ rs, a.scopes.grants q m = true
      · have hinner : holdingAll m rs act (a.acquire r m) = act (a.acquire r m) := by
          rw [ih hrs, if_pos (hrest.mpr hall)]
        have hcons : ∀ q ∈ r :: rs, a.scopes.grants q m = true := by
          simpa [hgrant] using hall
        rw [holdingAll, holding_congr hinner, hact r m a hgrant, if_pos hcons]
      · have hinner : holdingAll m rs act (a.acquire r m) =
            (.error (.refused m), a.acquire r m) := by
          rw [ih hrs, if_neg (mt hrest.mp hall)]
        simp [holdingAll, holding, hinner, hgrant, release_acquire a r m hgrant, hall]
    · simp [holdingAll, holding, hgrant]

theorem holdingAll_of_free {act : Attempt α} (hact : Blind act) (hl : l.Nodup) (hfree : a.Free) :
    holdingAll m l act a = act a := by
  rw [holdingAll_eq hact hl, if_pos fun q _ => grants_of_free hfree q m]

theorem blind_lookup (l : List Ref) (t : Token) : Blind (lookup l t) := by
  intro r m a hgrant
  have hfound : (a.acquire r m).found l t.lexeme = a.found l t.lexeme := by
    simp only [found, scope_acquire]
  simp only [holding, hgrant, if_true, lookup, hfound]
  cases a.found l t.lexeme with
  | none =>
    have h := release_acquire (a.emit (.lookupUndefined t.lexeme t.line)) r m hgrant
    exact congrArg (Prod.mk _) h
  | some v => simp [release_acquire a r m hgrant]

theorem blind_defineInside (o : Ref) (name : String) (v : Value) :
    Blind fun a => ((.ok () : Except Failure Unit), a.defineInside o name v) := by
  intro r m a hgrant
  have hwritten : (a.defineInside o name v).scopes.grants r m = true := by
    simpa [defineInside] using hgrant
  simp [holding, hgrant, defineInside_acquire, release_acquire _ r m hwritten]

theorem blind_overwrite (l : List Ref) (t : Token) (v : Value) : Blind (overwrite l t v) := by
  intro r m a hgrant
  cases ho : l.find? fun q => (a.scope q).binds t.lexeme with
  | none =>
    have h := release_acquire (a.emit (.assignUndefined t.lexeme t.line)) r m hgrant
    simp only [holding, hgrant, if_true, overwrite, scope_acquire, ho]
    exact congrArg (Prod.mk _) h
  | some o =>
    have h := blind_defineInside o t.lexeme v r m a hgrant
    simpa only [holding, hgrant, if_true, overwrite, scope_acquire, ho] using h

theorem blind_count (l : List Ref) : Blind (count l) := by
  intro r m a hgrant
  simp [holding, hgrant, count, release_acquire a r m hgrant]

/-- A recursion that goes outward from scope to scope until one of them says to stop, and does
what `finish` does with the whole chain. -/
structure Walk (m : Mode) (stop : Scope → Bool) (walk : Nat → Ref → Attempt α)
    (finish : List Ref → Attempt α) : Prop where
  outward : ∀ fuel r p a, stop (a.scope r) = false → (a.scope r).parent = some p →
    walk (fuel + 1) r a = holding p m (walk fuel p) a
  here : ∀ fuel r l a, stop (a.scope r) = true → walk fuel r a = finish (r :: l) a
  root : ∀ fuel r a, (a.scope r).parent = none → walk fuel r a = finish [r] a
  skip : ∀ r l a, stop (a.scope r) = false → finish (r :: l) a = finish l a

theorem Walk.eq_holdingAll {stop : Scope → Bool} {walk : Nat → Ref → Attempt α}
    {finish : List Ref → Attempt α} (w : Walk m stop walk finish) (h : a.Chain r l) {fuel : Nat}
    (hfuel : l.length ≤ fuel + 1) (hb : ∀ q, b.scope q = a.scope q) :
    walk fuel r b = holdingAll m (a.visited stop l).tail (finish l) b := by
  induction h generalizing fuel b with
  | @root r hp =>
    have htail : (a.visited stop [r]).tail = [] := by
      cases hr : stop (a.scope r) <;> simp [visited, upTo, hr]
    rw [htail]
    exact w.root fuel r b (by rw [hb, hp])
  | @inner r p l hp outer ih =>
    cases hr : stop (a.scope r) with
    | true =>
      rw [w.here fuel r l b (by rw [hb, hr]), visited_cons_of_true hr]
      rfl
    | false =>
      obtain ⟨rest, rfl⟩ := outer.exists_cons
      obtain ⟨fuel, rfl⟩ : ∃ k, fuel = k + 1 :=
        Nat.exists_eq_succ_of_ne_zero (by simp only [List.length_cons] at hfuel; omega)
      have hfinish : ∀ c : Arena, (∀ q, c.scope q = (b.acquire p m).scope q) →
          finish (p :: rest) c = finish (r :: p :: rest) c := by
        intro c hc
        exact (w.skip r (p :: rest) c (by rw [hc, scope_acquire, hb, hr])).symm
      have hinner : walk fuel p (b.acquire p m) = _ :=
        ih (by simpa using hfuel) (by simpa using hb)
      rw [w.outward fuel r p b (by rw [hb, hr]) (by rw [hb, hp]),
        holding_congr (hinner.trans (holdingAll_congr hfinish)), visited_cons_of_false hr,
        List.tail_cons, visited_cons_eq_cons_tail]
      rfl

theorem walk_getInside (t : Token) :
    Walk .shared (·.binds t.lexeme) (fun fuel r => getInside fuel r t) (lookup · t) where
  outward fuel r p a hstop hp := by
    rw [Scope.binds_eq_isSome, Option.isSome_eq_false_iff, Option.isNone_iff_eq_none] at hstop
    unfold getInside
    simp only [hstop, hp]
  here fuel r l a hstop := by
    rw [Scope.binds_eq_isSome] at hstop
    obtain ⟨v, hv⟩ := Option.isSome_iff_exists.mp hstop
    unfold getInside
    simp [hv, lookup, found]
  root fuel r a hp := by
    unfold getInside
    cases hv : (a.scope r).find? t.lexeme <;> simp [hp, hv, lookup, found]
  skip r l a hstop := by
    rw [Scope.binds_eq_isSome, Option.isSome_eq_false_iff, Option.isNone_iff_eq_none] at hstop
    simp [lookup, found, hstop]

theorem walk_assignInside (t : Token) (v : Value) :
    Walk .exclusive (·.binds t.lexeme) (fun fuel r => assignInside fuel r t v)
      (overwrite · t v) where
  outward fuel r p a hstop hp := by
    unfold assignInside
    simp [hstop, hp]
  here fuel r l a hstop := by
    unfold assignInside
    simp [hstop, overwrite]
  root fuel r a hp := by
    unfold assignInside
    by_cases hr : (a.scope r).binds t.lexeme <;> simp [hp, hr, overwrite]
  skip r l a hstop := by
    simp [overwrite, hstop]

/-- An attempt with its answer seen through a function. -/
def mapAnswer {β : Type} (f : α → β) (act : Attempt α) : Attempt β := fun a =>
  ((act a).1.map f, (act a).2)

theorem mapAnswer_holding {β : Type} (f : α → β) (act : Attempt α) (a : Arena) :
    mapAnswer f (holding r m act) a = holding r m (mapAnswer f act) a := by
  cases hgrant : a.scopes.grants r m <;> simp [mapAnswer, holding, hgrant, Except.map]

theorem mapAnswer_holdingAll {β : Type} (f : α → β) (act : Attempt α) (a : Arena) :
    mapAnswer f (holdingAll m l act) a = holdingAll m l (mapAnswer f act) a := by
  induction l generalizing a with
  | nil => rfl
  | cons r rs ih => exact (mapAnswer_holding f _ a).trans (holding_congr (ih _))

theorem mapAnswer_count (r : Ref) (l : List Ref) :
    mapAnswer (fun n => min (n + 1) maxCount) (count l) = count (r :: l) := by
  funext a
  simp only [mapAnswer, count, Except.map, List.length_cons, Prod.mk.injEq, Except.ok.injEq,
    and_true]
  omega

theorem depthInside_eq_holdingAll (h : a.Chain r l) {fuel : Nat} (hfuel : l.length ≤ fuel + 1)
    (hb : ∀ q, b.scope q = a.scope q) :
    depthInside fuel r b = holdingAll .shared l.tail (count l) b := by
  induction h generalizing fuel b with
  | root hp =>
    unfold depthInside
    simp [hb, hp, holdingAll, count, maxCount]
  | @inner r p l hp outer ih =>
    obtain ⟨rest, rfl⟩ := outer.exists_cons
    obtain ⟨fuel, rfl⟩ : ∃ k, fuel = k + 1 :=
      Nat.exists_eq_succ_of_ne_zero (by simp only [List.length_cons] at hfuel; omega)
    have hinner : depthInside fuel p (b.acquire p .shared) = _ :=
      ih (by simpa using hfuel) (by simpa using hb)
    have hstep : depthInside (fuel + 1) r b =
        mapAnswer (fun n => min (n + 1) maxCount) (holding p .shared (depthInside fuel p)) b := by
      unfold depthInside
      simp only [hb, hp]
      rfl
    calc depthInside (fuel + 1) r b
        = mapAnswer _ (holding p .shared (depthInside fuel p)) b := hstep
      _ = mapAnswer _ (holdingAll .shared (p :: rest) (count (p :: rest))) b := by
          rw [mapAnswer, holding_congr hinner]
          rfl
      _ = holdingAll .shared (p :: rest) (count (r :: p :: rest)) b := by
          rw [mapAnswer_holdingAll, mapAnswer_count]

/-! ### Through a handle -/

theorem inspect_eq (r : Ref) (f : Scope → α) (a : Arena) :
    inspect r f a =
      if a.scopes.grants r .shared = true then (.ok (f (a.scope r)), a)
      else (.error (.refused .shared), a) := by
  by_cases hgrant : a.scopes.grants r .shared = true
  · simp [inspect, holding, hgrant, release_acquire a r .shared hgrant]
  · simp [inspect, holding, hgrant]

theorem define_eq (r : Ref) (name : String) (v : Value) (a : Arena) :
    define r name v a =
      if a.scopes.grants r .exclusive = true then (.ok (), a.defineInside r name v)
      else (.error (.refused .exclusive), a) := by
  by_cases hgrant : a.scopes.grants r .exclusive = true
  · rw [if_pos hgrant]
    exact blind_defineInside r name v r .exclusive a hgrant
  · simp [define, holding, hgrant]

section Handles

variable (h : a.Chain r l)
include h

theorem get_eq_holdingAll (t : Token) :
    a.get r t = holdingAll .shared (a.visited (·.binds t.lexeme) l) (lookup l t) a := by
  obtain ⟨outer, rfl⟩ := h.exists_cons
  have hinner := (walk_getInside t).eq_holdingAll h h.length_le (scope_acquire a r .shared)
  rw [visited_cons_eq_cons_tail]
  exact holding_congr hinner

theorem assign_eq_holdingAll (t : Token) (v : Value) :
    a.assign r t v =
      holdingAll .exclusive (a.visited (·.binds t.lexeme) l) (overwrite l t v) a := by
  obtain ⟨outer, rfl⟩ := h.exists_cons
  have hinner := (walk_assignInside t v).eq_holdingAll h h.length_le (scope_acquire a r .exclusive)
  rw [visited_cons_eq_cons_tail]
  exact holding_congr hinner

theorem depth_eq_holdingAll : a.depth r = holdingAll .shared l (count l) a := by
  obtain ⟨outer, rfl⟩ := h.exists_cons
  exact holding_congr (depthInside_eq_holdingAll h h.length_le (scope_acquire a r .shared))

theorem get_of_free (hfree : a.Free) (t : Token) : a.get r t = lookup l t a := by
  rw [get_eq_holdingAll h]
  exact holdingAll_of_free (blind_lookup l t) (h.visited_nodup _) hfree

theorem assign_of_free (hfree : a.Free) (t : Token) (v : Value) :
    a.assign r t v = overwrite l t v a := by
  rw [assign_eq_holdingAll h]
  exact holdingAll_of_free (blind_overwrite l t v) (h.visited_nodup _) hfree

theorem depth_of_free (hfree : a.Free) : a.depth r = count l a := by
  rw [depth_eq_holdingAll h]
  exact holdingAll_of_free (blind_count l) h.nodup hfree

end Handles

end ScopeChain.Arena
