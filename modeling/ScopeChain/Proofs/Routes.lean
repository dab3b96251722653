import ScopeChain.Proofs.Lookups
import ScopeChain.Proofs.Refusals
import ScopeChain.Proofs.Reports
import ScopeChain.Proofs.WalksEnd

/-!
The routes to a name: through an environment, through a handle to its current scope, and inside
that scope while it is held. The walks differ only in whether the hold of the first scope is
theirs or the caller's. No scope is among its own ancestors, so a walk that has begun inside a
held scope does not come back to it, and all routes come to what can be read off the chain.
-/
namespace ScopeChain

open Arena (mapAnswer lookup overwrite Refused holding holdingAll Oblivious)

namespace NameAccess

def byEnvironment (o : NameAccess) (e : Environment) : Arena.Attempt Answer :=
  match o with
  | .get t => mapAnswer .value (e.get t)
  | .define x v => mapAnswer (fun _ => .done) (e.define x v)
  | .assign t v => mapAnswer (fun _ => .done) (e.assign t v)

def byHandle (o : NameAccess) (r : Ref) : Arena.Attempt Answer :=
  match o with
  | .get t => mapAnswer .value (Arena.get r t)
  | .define x v => mapAnswer (fun _ => .done) (Arena.define r x v)
  | .assign t v => mapAnswer (fun _ => .done) (Arena.assign r t v)

/-- The access inside a scope that is held in mode `m`; to write, the hold must be exclusive. -/
def inside (o : NameAccess) (m : Mode) : Option (Direct m) :=
  match o, m with
  | .get t, _ => some (.get t)
  | .define x v, .exclusive => some (.define x v)
  | .assign t v, .exclusive => some (.assign t v)
  | _, .shared => none

/-- What an environment reports before it begins. -/
def announced (o : NameAccess) (e : Environment) : List Event :=
  match o with
  | .get _ => []
  | .define x _ => [.define x e.depth]
  | .assign t _ => [.assign t.lexeme t.line]

/-- The hold that is taken of each scope on the way. -/
def mode : NameAccess → Mode
  | .get _ => .shared
  | .define .. | .assign .. => .exclusive

/-- Where there is no need to go on outward. -/
def stops (o : NameAccess) (s : Scope) : Bool :=
  match o with
  | .get t | .assign t _ => s.binds t.lexeme
  | .define .. => true

/-- The access told without a walk, from the scope `r` with the chain `l`. -/
def onChain (o : NameAccess) (r : Ref) (l : List Ref) : Arena.Attempt Answer :=
  match o with
  | .get t => mapAnswer .value (lookup l t)
  | .define x v => mapAnswer (fun _ => .done) fun a => (.ok (), a.defineInside r x v)
  | .assign t v => mapAnswer (fun _ => .done) (overwrite l t v)

end NameAccess

namespace Arena

variable {α β : Type} {a b : Arena} {m : Mode} {r : Ref} {l : List Ref} {o : NameAccess}

/-- The access comes to the result and leaves the arena as `b` by every route that there is from the
environment's current scope; only what the environment announces is reported in addition. -/
structure RoutesAgree (a : Arena) (e : Environment) (o : NameAccess)
    (result : Except Failure Answer) (b : Arena) : Prop where
  answered : ¬ Refused result ∧ result ≠ .error .endless
  handle : o.byHandle e.current a = (result, b)
  inside : ∀ m d, o.inside m = some d → holding e.current m (d.perform e.current) a = (result, b)
  /-- Neither the hold of the scope is refused nor any that is taken inside it. -/
  granted : ∀ m d, o.inside m = some d → a.scopes.grants e.current m = true ∧
    ¬ Refused (d.perform e.current (a.acquire e.current m)).1
  environment : (o.byEnvironment e a).1 = result ∧ (o.byEnvironment e a).2.scopes = b.scopes
  events : ∃ es, a.Reports es b ∧ a.Reports (o.announced e ++ es) (o.byEnvironment e a).2

theorem refused_map_iff (f : α → β) (result : Except Failure α) :
    Refused (result.map f) ↔ Refused result := by
  cases result <;> simp [Refused, Except.map]

theorem mapAnswer_congr (f : α → β) {act act' : Attempt α} (h : act a = act' a) :
    mapAnswer f act a = mapAnswer f act' a := by
  rw [mapAnswer, mapAnswer, h]

/-! ### What is reported -/

theorem tells_byHandle (o : NameAccess) (r : Ref) (a : Arena) :
    a.Tells o [] (o.byHandle r a).1 (o.byHandle r a).2 := by
  cases o with
  | get t => exact (tells_get r t a).map _
  | define x v =>
    have hdefine : a.Tells (.define x v) [] (define r x v a).1 (define r x v a).2 := by
      refine tells_holding (fun b => ?_) a
      exact tells_ok (.define x v) () rfl
    exact hdefine.map _
  | assign t v => exact (tells_assign r t v a).map _

theorem tells_inside {d : Direct m} (hd : o.inside m = some d) (r : Ref) (a : Arena) :
    a.Tells o [] (d.perform r a).1 (d.perform r a).2 := by
  cases o with
  | get t =>
    obtain rfl : Direct.get t = d := Option.some.inj hd
    exact (tells_getInside a.fuel r t a).map _
  | define x v =>
    cases m with
    | shared => cases hd
    | exclusive =>
      obtain rfl : Direct.define x v = d := Option.some.inj hd
      exact tells_ok _ _ rfl
  | assign t v =>
    cases m with
    | shared => cases hd
    | exclusive =>
      obtain rfl : Direct.assign t v = d := Option.some.inj hd
      exact (tells_assignInside a.fuel r t v a).map _

/-- An environment goes on like a handle to its current scope once it has announced the access. -/
theorem byEnvironment_cases (o : NameAccess) (e : Environment) (a : Arena) :
    ∃ b : Arena, a.Reports (o.announced e) b ∧ b.scopes = a.scopes ∧
      o.byEnvironment e a = o.byHandle e.current b := by
  cases o with
  | get t => exact ⟨a, .of_trace_eq rfl, rfl, rfl⟩
  | define x v => exact ⟨a.emit (.define x e.depth), reports_emit _ a, rfl, rfl⟩
  | assign t v => exact ⟨a.emit (.assign t.lexeme t.line), reports_emit _ a, rfl, rfl⟩

theorem tells_byEnvironment (o : NameAccess) (e : Environment) (a : Arena) :
    a.Tells o (o.announced e) (o.byEnvironment e a).1 (o.byEnvironment e a).2 := by
  obtain ⟨b, hannounced, -, henvironment⟩ := byEnvironment_cases o e a
  have htells := tells_byHandle o e.current b
  rw [henvironment]
  exact ⟨hannounced.trans htells.reports, htells.error_eq⟩

/-! ### What is answered and done -/

theorem Oblivious.mapAnswer {act : Attempt α} (h : Oblivious act) (f : α → β) :
    Oblivious (mapAnswer f act) where
  blind r m a hgrant := by
    rw [← mapAnswer_holding]
    exact mapAnswer_congr f (h.blind r m a hgrant)
  not_refused a := by
    rw [Arena.mapAnswer, refused_map_iff]
    exact h.not_refused a
  withHolds_eq a holds := by
    rw [Arena.mapAnswer, Arena.mapAnswer, h.withHolds_eq]

theorem oblivious_onChain (o : NameAccess) (r : Ref) (l : List Ref) :
    Oblivious (o.onChain r l) := by
  cases o with
  | get t => exact (oblivious_lookup l t).mapAnswer _
  | define x v => exact (oblivious_defineInside r x v).mapAnswer _
  | assign t v => exact (oblivious_overwrite l t v).mapAnswer _

theorem onChain_ne_endless (o : NameAccess) (r : Ref) (l : List Ref) (a : Arena) :
    (o.onChain r l a).1 ≠ .error .endless := by
  cases o with
  | get t =>
    rw [NameAccess.onChain, mapAnswer]
    rcases lookup_fst l t a with ⟨v, hv⟩ | hv <;> simp [hv, Except.map]
  | define x v => simp [NameAccess.onChain, mapAnswer, Except.map]
  | assign t v =>
    rw [NameAccess.onChain, mapAnswer]
    rcases overwrite_fst l t v a with hv | hv <;> simp [hv, Except.map]

/-- What has been reported before makes no difference to what is answered and done. -/
theorem onChain_congr (h : b.scopes = a.scopes) (o : NameAccess) (r : Ref) (l : List Ref) :
    (o.onChain r l b).1 = (o.onChain r l a).1 ∧
      (o.onChain r l b).2.scopes = (o.onChain r l a).2.scopes := by
  have hscope : ∀ q, b.scope q = a.scope q := fun q => by rw [scope, h, scope]
  cases o with
  | get t =>
    have hfound : b.found l t.lexeme = a.found l t.lexeme := found_congr fun q _ => hscope q
    simp only [NameAccess.onChain, mapAnswer, lookup, hfound]
    cases a.found l t.lexeme with
    | none => exact ⟨rfl, h⟩
    | some v => exact ⟨rfl, h⟩
  | define x v => simp only [NameAccess.onChain, mapAnswer, defineInside, h, and_self]
  | assign t v =>
    simp only [NameAccess.onChain, mapAnswer, overwrite, hscope]
    cases l.find? fun q => (a.scope q).binds t.lexeme with
    | none => exact ⟨rfl, h⟩
    | some owner => simp only [defineInside, h, and_self]

section Chains

variable (h : a.Chain r l)
include h

theorem Chain.byHandle_of_free (hfree : a.Free) (o : NameAccess) :
    o.byHandle r a = o.onChain r l a := by
  cases o with
  | get t => exact mapAnswer_congr _ (get_of_free h hfree t)
  | define x v =>
    rw [NameAccess.byHandle, mapAnswer, define_eq, if_pos (grants_of_free hfree r .exclusive)]
    rfl
  | assign t v => exact mapAnswer_congr _ (assign_of_free h hfree t v)

/-- Inside a held scope only the scopes beyond it are held. -/
theorem Chain.perform_inside {d : Direct m} (hd : o.inside m = some d) :
    d.perform r a = holdingAll o.mode (a.visited o.stops l).tail (o.onChain r l) a := by
  cases o with
  | get t =>
    obtain rfl : Direct.get t = d := Option.some.inj hd
    have hwalk := (walk_getInside t).eq_holdingAll h h.length_le (b := a) fun _ => rfl
    exact (mapAnswer_congr _ hwalk).trans (mapAnswer_holdingAll _ _ a)
  | define x v =>
    cases m with
    | shared => cases hd
    | exclusive =>
      obtain rfl : Direct.define x v = d := Option.some.inj hd
      obtain ⟨outer, rfl⟩ := h.exists_cons
      have hvisited : a.visited (NameAccess.define x v).stops (r :: outer) = [r] :=
        visited_cons_of_true rfl outer
      rw [hvisited]
      rfl
  | assign t v =>
    cases m with
    | shared => cases hd
    | exclusive =>
      obtain rfl : Direct.assign t v = d := Option.some.inj hd
      have hwalk := (walk_assignInside t v).eq_holdingAll h h.length_le (b := a) fun _ => rfl
      exact (mapAnswer_congr _ hwalk).trans (mapAnswer_holdingAll _ _ a)

/-- The scope whose hold is the caller's does not come again on its own chain. -/
theorem Chain.perform_acquired (hfree : a.Free) {d : Direct m} (hd : o.inside m = some d) :
    d.perform r (a.acquire r m) = o.onChain r l (a.acquire r m) := by
  have hheld : (a.acquire r m).Chain r l := h.of_parents fun q _ => by rw [scope_acquire]
  have hnodup := hheld.visited_nodup o.stops
  obtain ⟨outer, rfl⟩ := h.exists_cons
  rw [visited_cons_eq_cons_tail, List.nodup_cons] at hnodup
  have hgrants : ∀ q ∈ ((a.acquire r m).visited o.stops (r :: outer)).tail,
      (a.acquire r m).scopes.grants q o.mode = true := by
    intro q hq
    have hne : q ≠ r := by
      rintro rfl
      exact hnodup.1 hq
    rw [grants_acquire_of_ne hne]
    exact grants_of_free hfree q o.mode
  rw [hheld.perform_inside hd, holdingAll_eq (oblivious_onChain o r _).blind hnodup.2,
    if_pos hgrants]

theorem Chain.routesAgree {e : Environment} (he : e.current = r) (hfree : a.Free)
    (o : NameAccess) : a.RoutesAgree e o (o.onChain r l a).1 (o.onChain r l a).2 := by
  subst he
  have honChain := oblivious_onChain o e.current l
  have hhandle := h.byHandle_of_free hfree o
  obtain ⟨c, -, hscopes, henvironment⟩ := byEnvironment_cases o e a
  have hchain : c.Chain e.current l := h.of_parents fun q _ => by rw [scope, hscopes, scope]
  have hfree' : c.Free := fun q => by rw [hscopes, hfree q]
  have hannounced := onChain_congr hscopes o e.current l
  rw [← hchain.byHandle_of_free hfree', ← henvironment] at hannounced
  refine ⟨⟨honChain.not_refused a, onChain_ne_endless o _ l a⟩, hhandle, ?_, ?_, hannounced, ?_⟩
  · intro m d hd
    rw [holding_congr (h.perform_acquired hfree hd)]
    exact honChain.blind e.current m a (grants_of_free hfree e.current m)
  · intro m d hd
    rw [h.perform_acquired hfree hd]
    exact ⟨grants_of_free hfree e.current m, honChain.not_refused _⟩
  · refine ⟨o.told (o.onChain e.current l a).1, ?_, ?_⟩
    · rw [← hhandle]
      exact (tells_byHandle o e.current a).reports
    · rw [← hannounced.1]
      exact (tells_byEnvironment o e a).reports

end Chains

end Arena

namespace Machine

/-- In every state of a run in which nothing is held, an environment, a handle to its current scope
and the scope itself, held by whoever asks, give the same answer or error for a name and leave the
same bindings in all scopes. None of them is refused anything, and they report the same, but for the
one event with which an environment announces that it defines or assigns. -/
theorem routes_agree {c : Machine} (hc : c.Reachable) (hfree : c.session.arena.Free)
    (e : Environment) (o : NameAccess) :
    ∃ result b, c.session.arena.RoutesAgree e o result b := by
  obtain ⟨l, hl⟩ := hc.rooted e.current
  exact ⟨_, _, hl.routesAgree rfl hfree o⟩

/-- A name bound in the global scope, and two blocks inside it. -/
def boundAround : Machine := start.run
  [.step (.newEnvironment "e"), .step (.environment "e" (.define "x" .nil)), .step (.push "e" 2)]

/-- By all routes from the inner block the name is overwritten in the global scope. -/
theorem routes_agree_boundAround :
    boundAround.Reachable ∧ boundAround.session.arena.Free ∧
      boundAround.session.environments["e"]? = some ⟨0, [2, 1, 0]⟩ ∧
      ∃ b, boundAround.session.arena.RoutesAgree ⟨0, [2, 1, 0]⟩
          (.assign (.identifier "x" 1) (.bool true)) (.ok .done) b ∧
        (b.scope 0).find? "x" = some (.bool true) := by
  have hreach : boundAround.Reachable := ⟨_, rfl⟩
  have hfree : boundAround.session.arena.Free := Arena.free_of_lt_size (by decide +kernel)
  obtain ⟨result, b, hagree⟩ := routes_agree hreach hfree ⟨0, [2, 1, 0]⟩
    (.assign (.identifier "x" 1) (.bool true))
  have hresult : _ = result := congrArg Prod.fst hagree.handle
  have hb : _ = b := congrArg Prod.snd hagree.handle
  obtain rfl : result = .ok .done := hresult.symm.trans (by decide +kernel)
  refine ⟨hreach, hfree, by decide +kernel, b, hagree, ?_⟩
  rw [← hb]
  decide +kernel

end Machine

end ScopeChain
