import ScopeChain.Proofs.Lookups
import ScopeChain.Proofs.Runs

/-!
Which reads see a write. A scope that is written to is seen from wherever it can be reached before
any other binding of the name, and from nowhere else; the scopes that do not bind anything new are
read as before. Both directions follow from the chains alone, however they join.
-/
namespace ScopeChain

namespace Arena

/-- The ways to bind a name in the scope `s`. -/
inductive Defines (s : Ref) (x : String) (v : Value) : Attempt Unit → Prop
  | handle : Defines s x v (Arena.define s x v)
  | current {e : Environment} (h : e.current = s) : Defines s x v (e.define x v)
  | global {e : Environment} (h : e.global = s) : Defines s x v (e.defineGlobal x v)

/-- The ways to assign to a name through the scope `s`. -/
inductive Assigns (s : Ref) (x : Token) (v : Value) : Attempt Unit → Prop
  | handle : Assigns s x v (Arena.assign s x v)
  | current {e : Environment} (h : e.current = s) : Assigns s x v (e.assign x v)

/-- From the scopes of `a` a name is read in `b` as `v` if the pair is seen, else as in `a`. -/
def Shows (a b : Arena) (v : Value) (seen : Ref → String → Prop) : Prop :=
  ∀ t < a.scopes.size, ∀ y : Token,
    (seen t y.lexeme → (b.get t y).1 = .ok v) ∧
    (¬ seen t y.lexeme → (b.get t y).1 = (a.get t y).1)

variable {a b : Arena} {s o : Ref}

/-- The scopes of `b` are those of `a` with one binding written. -/
theorem shows_of_write (hrooted : a.Rooted) (hfree : a.Free) (ho : o < a.scopes.size) {x : String}
    {v : Value} (hb : b.scopes = (a.defineInside o x v).scopes) :
    Shows a b v fun t y => y = x ∧ a.Reaches x t o := by
  have hscope : ∀ q, b.scope q = (a.defineInside o x v).scope q := by
    intro q
    rw [scope, hb, scope]
  have hfree' : b.Free := by
    intro q
    rw [hb, hold_defineInside, hfree q]
  intro t _ y
  obtain ⟨l, hl⟩ := hrooted t
  have hl' : b.Chain t l := hl.of_parents fun q _ => by rw [hscope, parent_defineInside]
  have hfound : b.found l y.lexeme = (a.defineInside o x v).found l y.lexeme :=
    found_congr fun q _ => hscope q
  have hreaches := hl.reaches_iff x o
  rw [get_of_free hl hfree, get_of_free hl' hfree']
  constructor
  · rintro ⟨hy, hreach⟩
    rw [hy, found_defineInside_of_reaches ho x v (hreaches.mp hreach)] at hfound
    rw [lookup, hy, hfound]
  · intro hnot
    apply lookup_fst_congr
    rw [hfound]
    by_cases hy : y.lexeme = x
    · rw [hy]
      exact found_defineInside_of_not_reaches ho x v fun hmem => hnot ⟨hy, hreaches.mpr hmem⟩
    · exact found_defineInside_of_ne hy o v l

/-- Scopes that are kept, and new ones besides, are read as they were. -/
theorem get_fst_of_keeps (hrooted : a.Rooted) (hclosed : a.Closed) (hfree : a.Free)
    (hkeeps : Keeps a b) {t : Ref} (ht : t < a.scopes.size) (y : Token) :
    (b.get t y).1 = (a.get t y).1 := by
  obtain ⟨l, hl⟩ := hrooted t
  have hfree' : b.Free := fun q => by rw [hkeeps.hold_eq, hfree q]
  rw [get_of_free hl hfree, get_of_free (hl.of_grows hclosed ht hkeeps.toGrows) hfree']
  exact lookup_fst_congr (found_congr fun q hq => hkeeps.scope_eq q (hl.lt_size hclosed ht q hq))

theorem Defines.written {x : String} {v : Value} {act : Attempt Unit} (h : Defines s x v act)
    (hfree : a.Free) :
    ∃ b, act a = (.ok (), b) ∧ b.scopes = (a.defineInside s x v).scopes := by
  have hhandle : ∀ c : Arena, c.scopes = a.scopes →
      Arena.define s x v c = (.ok (), c.defineInside s x v) := by
    intro c hc
    rw [define_eq, hc, if_pos (grants_of_free hfree s .exclusive)]
  cases h with
  | handle => exact ⟨_, hhandle a rfl, rfl⟩
  | @current e h =>
    subst h
    exact ⟨_, hhandle (a.emit (.define x e.depth)) rfl, rfl⟩
  | global h =>
    subst h
    exact ⟨_, hhandle a rfl, rfl⟩

theorem Assigns.written {x : Token} {v : Value} {act : Attempt Unit} (h : Assigns s x v act)
    (hrooted : a.Rooted) (hfree : a.Free) (hact : act a = (.ok (), b)) :
    ∃ o, a.Owner x.lexeme s o ∧ b.scopes = (a.defineInside o x.lexeme v).scopes := by
  obtain ⟨l, hl⟩ := hrooted s
  have hhandle : ∀ c : Arena, c.scopes = a.scopes → c.assign s x v = (.ok (), b) →
      ∃ o, a.Owner x.lexeme s o ∧ b.scopes = (a.defineInside o x.lexeme v).scopes := by
    intro c hc hassign
    have hscope : ∀ q, c.scope q = a.scope q := fun q => by rw [scope, hc, scope]
    have hl' : c.Chain s l := hl.of_parents fun q _ => by rw [hscope]
    have hfree' : c.Free := fun q => by rw [hc, hfree q]
    rw [assign_of_free hl' hfree', overwrite] at hassign
    simp only [hscope] at hassign
    cases ho : l.find? fun q => (a.scope q).binds x.lexeme with
    | none => simp [ho] at hassign
    | some o =>
      obtain rfl : c.defineInside o x.lexeme v = b := by simpa [ho] using hassign
      refine ⟨o, (hl.owner_iff x.lexeme o).mpr ho, ?_⟩
      simp only [defineInside, hc]
  cases h with
  | handle => exact hhandle a rfl hact
  | @current e h => exact hhandle (a.emit (.assign x.lexeme x.line)) rfl (h ▸ hact)

end Arena

/-- The moves that write to no scope and hold none. -/
def Move.quiet : Move → Bool
  | .step s => !s.writes
  | .enter b => b.holdsNothing
  | .leave | .record .. => true

theorem Bracket.leave_keeps (b : Bracket) {σ : Session} (hσ : σ.Sound) (hfree : σ.arena.Free) :
    Session.Follows Arena.Keeps σ (b.leave σ) := by
  cases b with
  | frame name => exact leave_frame_keeps name hσ
  | hold r m =>
    obtain ⟨hsound, hgrows⟩ := leave_hold_grows r m hσ
    refine ⟨hsound, hgrows, fun q _ => σ.arena.scope_release r m q, fun q => ?_⟩
    have hfreed : Hold.free.release m = .free := by
      cases m <;> simp [Hold.release, Hold.free]
    show (σ.arena.scopes.release r m).hold q = σ.arena.scopes.hold q
    rw [Store.hold_release, hfree r, hfreed, hfree q, ite_self]
  | nothing => exact .refl hσ

theorem Move.perform_keeps (m : Move) (hm : m.quiet = true) {c : Machine} (hc : c.session.Sound)
    (hfree : c.session.arena.Free) :
    Session.Follows Arena.Keeps c.session (m.perform c).session := by
  cases m with
  | step s => exact s.perform_keeps (by simpa [Move.quiet] using hm) hc
  | enter b =>
    rw [session_enter]
    exact b.enter_keeps hm hc
  | leave =>
    rw [Move.perform]
    split
    · exact .refl hc
    · exact Bracket.leave_keeps _ hc hfree
  | record tag report => exact .of_arena_eq (hc.record tag report) rfl

namespace Machine

/-- Which reads a write is seen by, in any state of a run in which nothing is held. An assignment
is seen from where the nearest scope that binds its name is the one it wrote to; a definition is
seen from where its scope is on the way and nothing nearer binds the name. All else reads as it
did, and a move that writes nothing changes no read at all. -/
theorem reads_after_writes {c : Machine} (hc : c.Reachable) (hfree : c.session.arena.Free) :
    (∀ s x v act b, Arena.Assigns s x v act → act c.session.arena = (.ok (), b) →
      c.session.arena.Shows b v fun t y => y = x.lexeme ∧
        ∃ o, c.session.arena.Owner x.lexeme s o ∧ c.session.arena.Owner x.lexeme t o) ∧
    (∀ s < c.session.arena.scopes.size, ∀ x v act, Arena.Defines s x v act →
      ∃ b, act c.session.arena = (.ok (), b) ∧
        c.session.arena.Shows b v fun t y => y = x ∧ c.session.arena.Reaches x t s) ∧
    (∀ m : Move, m.quiet = true → ∀ t < c.session.arena.scopes.size, ∀ y,
      ((m.perform c).session.arena.get t y).1 = (c.session.arena.get t y).1) := by
  have hrooted := hc.rooted
  have hsound := hc.sound
  refine ⟨?_, ?_, ?_⟩
  · intro s x v act b hassigns hact
    obtain ⟨o, ho, hb⟩ := hassigns.written hrooted hfree hact
    have hshows := Arena.shows_of_write hrooted hfree (Arena.lt_size_of_binds ho.2) hb
    intro t ht y
    obtain ⟨hseen, hunseen⟩ := hshows t ht y
    refine ⟨?_, fun hnot => hunseen ?_⟩
    · rintro ⟨hy, o', ho', ht'⟩
      obtain rfl : o' = o := ho'.unique hrooted ho
      exact hseen ⟨hy, ht'.1⟩
    · rintro ⟨hy, hreach⟩
      exact hnot ⟨hy, o, ho, hreach, ho.2⟩
  · intro s hs x v act hdefines
    obtain ⟨b, hact, hb⟩ := hdefines.written hfree
    exact ⟨b, hact, Arena.shows_of_write hrooted hfree hs hb⟩
  · intro m hm t ht y
    have hkeeps := (m.perform_keeps hm hsound hfree).arena
    exact Arena.get_fst_of_keeps hrooted hsound.closed hfree hkeeps ht y

/-- A name bound in the global scope and again in the inner one of two blocks. -/
def shadowing : Machine := start.run
  [.step (.newEnvironment "e"), .step (.environment "e" (.define "x" .nil)), .step (.push "e" 2),
    .step (.environment "e" (.define "x" (.bool true)))]

theorem reads_after_writes_shadowing :
    shadowing.Reachable ∧ shadowing.session.arena.Free ∧
      (∃ b, shadowing.session.arena.assign 1 (.identifier "x" 1) (.bool false) = (.ok (), b) ∧
        shadowing.session.arena.Shows b (.bool false) fun t y => y = "x" ∧
          ∃ o, shadowing.session.arena.Owner "x" 1 o ∧ shadowing.session.arena.Owner "x" t o) ∧
      (∃ b, Arena.define 1 "x" (.bool false) shadowing.session.arena = (.ok (), b) ∧
        shadowing.session.arena.Shows b (.bool false) fun t y =>
          y = "x" ∧ shadowing.session.arena.Reaches "x" t 1) ∧
      ∀ y, ((Move.perform .leave shadowing).session.arena.get 2 y).1 =
        (shadowing.session.arena.get 2 y).1 := by
  have hreach : shadowing.Reachable := ⟨_, rfl⟩
  have hfree : shadowing.session.arena.Free := Arena.free_of_lt_size (by decide +kernel)
  have hassign :
      (shadowing.session.arena.assign 1 (.identifier "x" 1) (.bool false)).1 = .ok () := by
    decide +kernel
  obtain ⟨hassigned, hdefined, hquiet⟩ := reads_after_writes hreach hfree
  refine ⟨hreach, hfree, ⟨_, Prod.ext hassign rfl, ?_⟩, ?_, ?_⟩
  · exact hassigned 1 (.identifier "x" 1) (.bool false) _ _ .handle (Prod.ext hassign rfl)
  · exact hdefined 1 (by decide +kernel) "x" (.bool false) _ .handle
  · exact hquiet .leave rfl 2 (by decide +kernel)

end Machine

end ScopeChain
