import ScopeChain.Proofs.Updates
import ScopeChain.Proofs.WalksEnd

/-!
How names are resolved as time goes by. A scope keeps its parent and so its chain, and a name once
bound in a scope stays bound there. So the nearest scope that binds a name is never found farther
outward than before, and it is found nearer only where the name has been defined in the meantime;
assignments do not move it at all.
-/
namespace ScopeChain

namespace Arena

/-- How many scopes are passed on the way outward to the nearest one that binds the name. -/
def distance? (a : Arena) (x : String) (r : Ref) : Option Nat :=
  (a.outward r).findIdx? fun q => (a.scope q).binds x

/-- The same scopes with the same parents, which bind the same names to whatever it is. -/
structure SameNames (a b : Arena) : Prop where
  size_eq : b.scopes.size = a.scopes.size
  parent_eq : ∀ q, (b.scope q).parent = (a.scope q).parent
  binds_eq : ∀ q x, (b.scope q).binds x = (a.scope q).binds x

/-- From `a` to `b`, between which these writes have been made, names have come to be resolved
nearer to the scope `s` if anything. The scopes on its chain are those of `l`. -/
structure Nears (a b : Arena) (ws : List Write) (s : Ref) (l : List Ref) : Prop where
  chain : a.Chain s l ∧ b.Chain s l
  parent_eq : (b.scope s).parent = (a.scope s).parent
  depth_eq : (b.unheld.depth s).1 = (a.unheld.depth s).1
  /-- Holds may keep the scopes from being counted, but not from being counted right. -/
  depth_agrees : ∀ n m, (a.depth s).1 = .ok n → (b.depth s).1 = .ok m → m = n
  /-- What has been resolved still is, and no farther outward. -/
  nearer : ∀ x n, a.distance? x s = some n → ∃ m ≤ n, b.distance? x s = some m
  /-- What is resolved elsewhere than before is resolved strictly nearer, if it was resolved at all,
  and where it is, it has been defined. -/
  defined : ∀ x m, b.distance? x s = some m → a.distance? x s ≠ some m →
    (∀ n, a.distance? x s = some n → m < n) ∧ ∃ o v, l[m]? = some o ∧ ⟨.defined, o, x, v⟩ ∈ ws

variable {α : Type} {a b c : Arena} {m : Mode} {r s : Ref} {l : List Ref} {x : String} {t : Token}
  {v : Value} {ws : List Write}

theorem Chain.distance?_eq (h : a.Chain r l) (x : String) :
    a.distance? x r = l.findIdx? fun q => (a.scope q).binds x := by
  rw [distance?, h.outward_eq]

theorem Chain.isSome_distance?_iff (h : a.Chain r l) (x : String) :
    (a.distance? x r).isSome = true ↔ ∃ q ∈ l, (a.scope q).binds x = true := by
  rw [h.distance?_eq, List.findIdx?_isSome, List.any_eq_true]

theorem free_unheld (a : Arena) : a.unheld.Free := by
  apply free_of_lt_size
  intro r hr
  exact a.scopes.hold_withHolds (fun _ => .free) (by simpa [unheld, withHolds] using hr)

/-- A name has a distance just if it can be read. -/
theorem Rooted.isSome_distance?_iff (h : a.Rooted) (r : Ref) (t : Token) :
    (a.distance? t.lexeme r).isSome = true ↔ ∃ v, (a.unheld.get r t).1 = .ok v := by
  obtain ⟨l, hl⟩ := h r
  have hl' : a.unheld.Chain r l := hl.withHolds _
  have hfound : a.unheld.found l t.lexeme = a.found l t.lexeme :=
    found_congr fun q _ => scope_withHolds a _ q
  rw [hl.isSome_distance?_iff, get_of_free hl' a.free_unheld, lookup, hfound]
  cases hv : a.found l t.lexeme with
  | none =>
    have hnone := found_eq_none_iff.mp hv
    simpa using hnone
  | some v =>
    have hsome : ¬ ∀ q ∈ l, (a.scope q).binds t.lexeme = false := by
      rw [← found_eq_none_iff, hv]
      simp
    simpa using hsome

section Depths

variable (h : a.Chain r l) (h' : b.Chain r l)
include h h'

theorem depth_unheld_eq : (b.unheld.depth r).1 = (a.unheld.depth r).1 := by
  have hl : a.unheld.Chain r l := h.withHolds _
  have hl' : b.unheld.Chain r l := h'.withHolds _
  rw [depth_of_free hl a.free_unheld, depth_of_free hl' b.free_unheld, count, count]

theorem depth_agrees (n m : Nat) (hn : (a.depth r).1 = .ok n) (hm : (b.depth r).1 = .ok m) :
    m = n := by
  rcases depth_fst h with hcount | hrefused
  · rcases depth_fst h' with hcount' | hrefused'
    · rw [hcount] at hn
      rw [hcount'] at hm
      exact Except.ok.inj (hm.symm.trans hn)
    · rw [hrefused'] at hm
      cases hm
  · rw [hrefused] at hn
    cases hn

end Depths

/-! ### Assignments -/

theorem SameNames.refl (a : Arena) : SameNames a a := ⟨rfl, fun _ => rfl, fun _ _ => rfl⟩

theorem SameNames.trans (h : SameNames a b) (h' : SameNames b c) : SameNames a c where
  size_eq := by rw [h'.size_eq, h.size_eq]
  parent_eq q := by rw [h'.parent_eq, h.parent_eq]
  binds_eq q x := by rw [h'.binds_eq, h.binds_eq]

theorem SameNames.of_scopes_eq (h : b.scopes = a.scopes) : SameNames a b where
  size_eq := by rw [h]
  parent_eq q := by rw [scope, h, scope]
  binds_eq q x := by rw [scope, h, scope]

theorem SameNames.distance?_eq (h : SameNames a b) (x : String) (r : Ref) :
    b.distance? x r = a.distance? x r := by
  simp only [distance?, outward, fuel, h.size_eq, outwardWithin_congr h.parent_eq, h.binds_eq]

/-- To write to a name that is bound already binds no name. -/
theorem sameNames_defineInside (h : (a.scope r).binds x = true) (v : Value) :
    SameNames a (a.defineInside r x v) where
  size_eq := size_defineInside r x v a
  parent_eq q := parent_defineInside r x v a q
  binds_eq q y := by
    rw [scope_defineInside]
    split
    · next hq =>
      rw [Scope.binds_define, hq.1]
      by_cases hy : y = x <;> simp [hy, h]
    · rfl

theorem sameNames_holding {act : Attempt α} (hact : ∀ a, SameNames a (act a).2) (a : Arena) :
    SameNames a (holding r m act a).2 := by
  have hacquire : SameNames a (a.acquire r m) :=
    ⟨Store.size_acquire _ r m, fun q => by rw [scope_acquire], fun q x => by rw [scope_acquire]⟩
  have hrelease : ∀ b : Arena, SameNames b (b.release r m) := fun b =>
    ⟨Store.size_release _ r m, fun q => by rw [scope_release], fun q x => by rw [scope_release]⟩
  unfold holding
  split
  · exact (hacquire.trans (hact _)).trans (hrelease _)
  · exact .refl a

theorem sameNames_assignInside (fuel : Nat) (r : Ref) (t : Token) (v : Value) (a : Arena) :
    SameNames a (assignInside fuel r t v a).2 := by
  induction fuel generalizing r a with
  | zero =>
    unfold assignInside
    split
    · next hbinds => exact sameNames_defineInside hbinds v
    · split
      · exact .of_scopes_eq rfl
      · exact .refl a
  | succ fuel ih =>
    unfold assignInside
    split
    · next hbinds => exact sameNames_defineInside hbinds v
    · split
      · exact .of_scopes_eq rfl
      · exact sameNames_holding (ih _) a

theorem sameNames_assign (r : Ref) (t : Token) (v : Value) (a : Arena) :
    SameNames a (a.assign r t v).2 :=
  sameNames_holding (sameNames_assignInside a.fuel r t v) a

theorem sameNames_environmentAssign (e : Environment) (t : Token) (v : Value) (a : Arena) :
    SameNames a (e.assign t v a).2 :=
  SameNames.trans (b := a.emit (.assign t.lexeme t.line)) (.of_scopes_eq rfl)
    (sameNames_assign e.current t v _)

/-! ### Definitions -/

/-- A scope that has been there comes to bind a name only by a definition. -/
theorem Accounts.binds_iff (h : Accounts a ws b) (hcopied : Write.CopiedFrom a.scopes.size ws)
    (hr : r < a.scopes.size) (x : String) :
    (b.scope r).binds x = true ↔
      (a.scope r).binds x = true ∨ ∃ v, ⟨.defined, r, x, v⟩ ∈ ws := by
  have hdefined : ∀ w ∈ ws, w.isAt r x = true → w.binds = true → w = ⟨.defined, r, x, w.value⟩ := by
    rintro ⟨origin, s, y, v⟩ hw hat hbinds
    obtain ⟨rfl, rfl⟩ := Write.isAt_iff.mp hat
    cases origin with
    | defined => rfl
    | assigned => cases hbinds
    | copied => exact absurd hr (Nat.not_lt.mpr (hcopied _ hw rfl))
  rw [Scope.binds_eq_isSome, h.find?_eq, Option.isSome_or, Bool.or_eq_true,
    Write.isSome_latest_iff, ← Scope.binds_eq_isSome]
  constructor
  · rintro (hw | hbound)
    · rcases h.founded r x hw with ⟨w, hw, hat, hbinds⟩ | hbound
      · exact .inr ⟨w.value, hdefined w hw hat hbinds ▸ hw⟩
      · exact .inl hbound
    · exact .inl hbound
  · rintro (hbound | ⟨v, hv⟩)
    · exact .inr hbound
    · exact .inl ⟨_, hv, Write.isAt_iff.mpr ⟨rfl, rfl⟩⟩

theorem Accounts.nears (h : Accounts a ws b) (hcopied : Write.CopiedFrom a.scopes.size ws)
    (hgrows : Grows a b) (hclosed : a.Closed) (hl : a.Chain s l) (hs : s < a.scopes.size) :
    a.Nears b ws s l := by
  have hl' := hl.of_grows hclosed hs hgrows
  have hbinds : ∀ q ∈ l, ∀ x, (b.scope q).binds x = true ↔
      (a.scope q).binds x = true ∨ ∃ v, ⟨.defined, q, x, v⟩ ∈ ws :=
    fun q hq => h.binds_iff hcopied (hl.lt_size hclosed hs q hq)
  have hnearer : ∀ x n, a.distance? x s = some n → ∃ m ≤ n, b.distance? x s = some m := by
    intro x n hn
    rw [hl.distance?_eq] at hn
    rw [hl'.distance?_eq]
    exact List.findIdx?_eq_some_le_of_findIdx?_eq_some
      (fun q hq hbound => (hbinds q hq x).mpr (.inl hbound)) hn
  refine ⟨⟨hl, hl'⟩, hgrows.parent_eq s hs, depth_unheld_eq hl hl', depth_agrees hl hl', hnearer,
    ?_⟩
  intro x m hm hne
  have hlt : ∀ n, a.distance? x s = some n → m < n := by
    intro n hn
    obtain ⟨k, hk, hkm⟩ := hnearer x n hn
    obtain rfl : k = m := Option.some.inj (hkm.symm.trans hm)
    exact Nat.lt_of_le_of_ne hk fun heq => hne (heq ▸ hn)
  rw [hl'.distance?_eq] at hm
  obtain ⟨hlen, hbound, -⟩ := List.findIdx?_eq_some_iff_getElem.mp hm
  have hmem : l[m] ∈ l := List.getElem_mem hlen
  refine ⟨hlt, l[m], ?_⟩
  rcases (hbinds l[m] hmem x).mp hbound with hbound | ⟨v, hv⟩
  · -- A scope that has bound the name all along is no nearer than the one that was found before.
    obtain ⟨n, hn⟩ := Option.isSome_iff_exists.mp
      ((hl.isSome_distance?_iff x).mpr ⟨_, hmem, hbound⟩)
    have hmn := hlt n hn
    rw [hl.distance?_eq] at hn
    obtain ⟨_, -, hbefore⟩ := List.findIdx?_eq_some_iff_getElem.mp hn
    exact absurd hbound (hbefore m hmn)
  · exact ⟨v, List.getElem?_eq_getElem hlen, hv⟩

end Arena

namespace Machine

open Write (CopiedFrom)

variable {c : Machine}

theorem copiedFrom_ledger (hc : c.session.Sound) (ms : List Move) :
    CopiedFrom c.session.arena.scopes.size (c.ledger ms) := by
  induction ms generalizing c with
  | nil => exact .nil _
  | cons m ms ih =>
    have hnext := m.perform_grows c hc
    refine (m.copiedFrom c).append fun w hw horigin => ?_
    exact Nat.le_trans hnext.arena.size_le (ih hnext.sound w hw horigin)

/-- In the course of a run a scope keeps its parent and its depth, and each name comes to be
resolved nearer to it if anything: the distance to the nearest scope that binds the name never
grows, and when it shrinks, or is there for the first time, the name has been defined just there
in the meantime. That there is a distance means that the name can be read. No assignment changes
any distance, whether it succeeds or fails. -/
theorem resolution_only_nears (hc : c.Reachable) :
    (∀ ms, ∀ s < c.session.arena.scopes.size, ∃ l,
      c.session.arena.Nears (c.run ms).session.arena (c.ledger ms) s l) ∧
    (∀ s t, (c.session.arena.distance? t.lexeme s).isSome = true ↔
      ∃ v, (c.session.arena.unheld.get s t).1 = .ok v) ∧
    ∀ (a : Arena) (t : Token) (v : Value) (x : String) (s : Ref),
      (∀ r, (a.assign r t v).2.distance? x s = a.distance? x s) ∧
      (∀ e : Environment, (e.assign t v a).2.distance? x s = a.distance? x s) ∧
      ∀ r, ((Direct.assign t v).perform r a).2.distance? x s = a.distance? x s := by
  refine ⟨fun ms s hs => ?_, hc.rooted.isSome_distance?_iff, fun a t v x s => ⟨?_, ?_, ?_⟩⟩
  · obtain ⟨l, hl⟩ := hc.rooted s
    have hgrows := (Leads.grows ⟨ms, rfl⟩ hc.sound).arena
    exact ⟨l, (accounts_run hc.sound hc.rooted ms).nears (copiedFrom_ledger hc.sound ms) hgrows
      hc.sound.closed hl hs⟩
  · exact fun r => (Arena.sameNames_assign r t v a).distance?_eq x s
  · exact fun e => (Arena.sameNames_environmentAssign e t v a).distance?_eq x s
  · exact fun r => (Arena.sameNames_assignInside a.fuel r t v a).distance?_eq x s

/-- A name bound in the global scope, and two blocks inside it, the outer one with a
handle to it. -/
def boundOutermost : Machine := start.run
  [.step (.newEnvironment "e"), .step (.environment "e" (.define "x" .nil)), .step (.push "e" 1),
    .step (.environment "e" (.capture "mid")), .step (.push "e" 1)]

/-- The name is defined in the scope between, through the handle. -/
def definesBetween : List Move := [.step (.scope "mid" (.define "x" (.bool true)))]

theorem resolution_only_nears_definesBetween :
    boundOutermost.Reachable ∧ 2 < boundOutermost.session.arena.scopes.size ∧
      (∃ l, boundOutermost.session.arena.Nears (boundOutermost.run definesBetween).session.arena
        (boundOutermost.ledger definesBetween) 2 l) ∧
      boundOutermost.session.arena.distance? "x" 2 = some 2 ∧
      (boundOutermost.run definesBetween).session.arena.distance? "x" 2 = some 1 := by
  have hreach : boundOutermost.Reachable := ⟨_, rfl⟩
  have hlt : 2 < boundOutermost.session.arena.scopes.size := by decide +kernel
  obtain ⟨hnears, -⟩ := resolution_only_nears hreach
  exact ⟨hreach, hlt, hnears definesBetween 2 hlt, by decide +kernel, by decide +kernel⟩

end Machine

end ScopeChain
