import ScopeChain.Proofs.Assignments
import ScopeChain.Proofs.Visibility

/-!
Writes that can change places. A write has one slot: a definition that of its scope, an assignment
that of the nearest scope that binds the name, or none, and then it fails. A definition moves the
slot of an assignment only from a scope that the walk of the assignment visits, be it a walk that
succeeds or fails; an assignment moves no slot. So two writes commute unless they come to one slot.
-/
namespace ScopeChain

/-- What a search passes on its way to the first match decides what the first match is. -/
theorem find?_eq_of_upTo {α : Type} {p q : α → Bool} {l : List α}
    (h : ∀ r ∈ upTo p l, q r = p r) : l.find? q = l.find? p := by
  induction l with
  | nil => rfl
  | cons r rs ih =>
    cases hr : p r with
    | true =>
      have hq : q r = true := by rw [h r (by simp [upTo, hr]), hr]
      rw [List.find?_cons_of_pos hq, List.find?_cons_of_pos hr]
    | false =>
      have hq : q r = false := by rw [h r (by simp [upTo, hr]), hr]
      have hrs : ∀ s ∈ upTo p rs, q s = p s := fun s hs => h s (by simp [upTo, hr, hs])
      rw [List.find?_cons_of_neg (by simp [hq]), List.find?_cons_of_neg (by simp [hr]), ih hrs]

theorem Scope.define_define_of_ne {x y : String} (h : x ≠ y) (s : Scope) (v w : Value) :
    (s.define x v).define y w = (s.define y w).define x v := by
  have hbindings : ((s.define x v).define y w).bindings = ((s.define y w).define x v).bindings := by
    apply Std.ExtTreeMap.ext_getElem?
    intro z
    show ((s.define x v).define y w).find? z = ((s.define y w).define x v).find? z
    simp only [find?_define]
    by_cases hz : z = x
    · simp [hz, h]
    · simp [hz]
  rw [define, define, define, define, Scope.mk.injEq]
  exact ⟨hbindings, rfl⟩

theorem Store.update_update {α : Type} {r q : Ref} {f g : α → α}
    (h : r = q → ∀ v, g (f v) = f (g v)) (s : Store α) :
    (s.update r f).update q g = (s.update q g).update r f := by
  simp only [update, mk.injEq]
  apply Array.ext_getElem?
  intro i
  simp only [Array.getElem?_modify]
  by_cases hr : r = i
  · by_cases hq : q = i
    · simp [hr, hq, Function.comp_def, h (hr.trans hq.symm)]
    · simp [hr, hq]
  · simp [hr]

namespace Arena

/-- In either order both attempts have the same results and leave the same scopes. -/
structure Commute {α β : Type} (a : Arena) (act : Attempt α) (act' : Attempt β) : Prop where
  first_eq : (act (act' a).2).1 = (act a).1
  second_eq : (act' (act a).2).1 = (act' a).1
  scopes_eq : (act' (act a).2).2.scopes = (act (act' a).2).2.scopes

/-- The attempts, to write `v` and to write `w`, commute but for a clash. If they clash it does
matter which comes last, unless both write the same. -/
structure CommuteUnless (a : Arena) (act act' : Attempt Unit) (v w : Value) (clash : Prop) :
    Prop where
  commute : ¬ clash → a.Commute act act'
  clashes : clash → v ≠ w → ¬ a.Commute act act'

/-- The scope that an assignment writes to, or what it fails with. -/
def place (a : Arena) (r : Ref) (t : Token) : Except Failure Ref :=
  (a.owner? t.lexeme r).elim (.error (.undefined (.undefinedVariable t))) .ok

/-- The same cells with `v` under the name in the scope that there is for it, if there is one. -/
def written (cells : Store Scope) (place : Except Failure Ref) (x : String) (v : Value) :
    Store Scope :=
  match place with
  | .ok o => cells.update o fun s => s.define x v
  | .error _ => cells

/-- The attempt writes `v` under the name in the scope at that place; if there is no scope it fails
with the error instead and writes nothing. -/
structure WritesAt (a : Arena) (act : Attempt Unit) (place : Except Failure Ref) (x : String)
    (v : Value) : Prop where
  answer_eq : (act a).1 = place.map fun _ => ()
  scopes_eq : (act a).2.scopes = written a.scopes place x v

variable {a b : Arena} {act act' : Attempt Unit} {p q : Except Failure Ref} {r s t o : Ref}
  {l : List Ref} {x y : String} {u u' : Token} {v w : Value}

/-! ### Writes at their places -/

@[simp] theorem size_written (cells : Store Scope) (p : Except Failure Ref) (x : String)
    (v : Value) : (written cells p x v).size = cells.size := by
  cases p <;> simp [written]

theorem written_written (h : ∀ o, p = .ok o → q = .ok o → x ≠ y) (cells : Store Scope)
    (v w : Value) :
    written (written cells p x v) q y w = written (written cells q y w) p x v := by
  cases p with
  | error f => rfl
  | ok o =>
    cases q with
    | error f => rfl
    | ok o' =>
      have hcomm : ∀ s : Scope, o = o' → (s.define x v).define y w = (s.define y w).define x v :=
        fun s heq => Scope.define_define_of_ne (h o rfl (congrArg _ heq.symm)) s v w
      simp only [written]
      exact Store.update_update (fun heq s => hcomm s heq) cells

namespace WritesAt

theorem of_ok (hs : act a = (.ok (), b)) (hb : b.scopes = (a.defineInside s x v).scopes) :
    a.WritesAt act (.ok s) x v where
  answer_eq := by rw [hs]; rfl
  scopes_eq := by rw [hs]; exact hb

theorem size_eq (h : a.WritesAt act p x v) : (act a).2.scopes.size = a.scopes.size := by
  rw [h.scopes_eq, size_written]

theorem scope_eq (h : a.WritesAt act (.ok o) x v) (q : Ref) :
    (act a).2.scope q = (a.defineInside o x v).scope q := by
  rw [scope, h.scopes_eq]
  rfl

theorem free (h : a.WritesAt act p x v) (hfree : a.Free) : (act a).2.Free := by
  intro q
  rw [h.scopes_eq]
  cases p with
  | ok o => exact (a.hold_defineInside o x v q).trans (hfree q)
  | error f => exact hfree q

theorem parent_eq (h : a.WritesAt act p x v) (q : Ref) :
    ((act a).2.scope q).parent = (a.scope q).parent := by
  rw [scope, h.scopes_eq]
  cases p with
  | ok o => exact a.parent_defineInside o x v q
  | error f => rfl

theorem chain (h : a.WritesAt act p x v) (hl : a.Chain r l) : (act a).2.Chain r l :=
  hl.of_parents fun q _ => h.parent_eq q

theorem rooted (h : a.WritesAt act p x v) (hrooted : a.Rooted) : (act a).2.Rooted := by
  intro r
  obtain ⟨l, hl⟩ := hrooted r
  exact ⟨l, h.chain hl⟩

/-- Two writes that keep their places commute unless both come to one slot. -/
theorem commute (h : a.WritesAt act p x v) (h' : a.WritesAt act' q y w)
    (hlater : (act' a).2.WritesAt act p x v) (hlater' : (act a).2.WritesAt act' q y w)
    (hapart : ∀ o, p = .ok o → q = .ok o → x ≠ y) : a.Commute act act' where
  first_eq := by rw [hlater.answer_eq, h.answer_eq]
  second_eq := by rw [hlater'.answer_eq, h'.answer_eq]
  scopes_eq := by
    rw [hlater'.scopes_eq, h.scopes_eq, hlater.scopes_eq, h'.scopes_eq, written_written hapart]

theorem find?_eq (h : a.WritesAt act (.ok o) x v) (ho : o < a.scopes.size) :
    ((act a).2.scope o).find? x = some v := by
  rw [h.scope_eq, scope_defineInside_self ho, Scope.find?_define, if_pos rfl]

/-- Of two writes to one slot the later one is there at the end. -/
theorem not_commute (hlater : (act' a).2.WritesAt act (.ok o) x v)
    (hlater' : (act a).2.WritesAt act' (.ok o) x w) (ho : o < (act a).2.scopes.size)
    (ho' : o < (act' a).2.scopes.size) (hne : v ≠ w) : ¬ a.Commute act act' := by
  intro hcommute
  have hscope : (act' (act a).2).2.scope o = (act (act' a).2).2.scope o := by
    rw [scope, hcommute.scopes_eq, scope]
  have hfind := hlater'.find?_eq ho
  rw [hscope, hlater.find?_eq ho'] at hfind
  exact hne (Option.some.inj hfind)

end WritesAt

/-! ### Definitions and assignments -/

theorem Defines.writesAt (h : Defines s x v act) (hfree : a.Free) : a.WritesAt act (.ok s) x v := by
  obtain ⟨b, hact, hb⟩ := h.written hfree
  exact .of_ok hact hb

theorem Chain.writesAt_assign (h : a.Chain r l) (hfree : a.Free) (u : Token) (v : Value) :
    a.WritesAt (Arena.assign r u v) (a.place r u) u.lexeme v := by
  have hassign := assign_of_free h hfree u v
  rw [place, owner?, h.outward_eq]
  unfold overwrite at hassign
  cases ho : l.find? fun q => (a.scope q).binds u.lexeme with
  | some o =>
    rw [ho] at hassign
    exact .of_ok hassign rfl
  | none =>
    rw [ho] at hassign
    exact ⟨by rw [hassign]; rfl, by rw [hassign]; rfl⟩

theorem Assigns.writesAt (h : Assigns r u v act) (hrooted : a.Rooted) (hfree : a.Free) :
    a.WritesAt act (a.place r u) u.lexeme v := by
  obtain ⟨l, hl⟩ := hrooted r
  cases h with
  | handle => exact hl.writesAt_assign hfree u v
  | @current e h =>
    subst h
    have hreported : (a.emit (.assign u.lexeme u.line)).Chain e.current l :=
      hl.of_parents fun _ _ => rfl
    have hwrites := hreported.writesAt_assign hfree u v
    rw [place, owner?_emit] at hwrites
    exact ⟨hwrites.answer_eq, hwrites.scopes_eq⟩

/-! ### Places that stay -/

theorem Chain.place_eq_ok_iff (h : a.Chain r l) (u : Token) (o : Ref) :
    a.place r u = .ok o ↔ a.Owner u.lexeme r o := by
  rw [← h.owner?_eq_some_iff, place]
  cases a.owner? u.lexeme r <;> simp

theorem place_of_sameNames (h : SameNames a b) (r : Ref) (u : Token) :
    b.place r u = a.place r u := by
  simp only [place, owner?, outward, fuel, h.size_eq, outwardWithin_congr h.parent_eq, h.binds_eq]

/-- An assignment writes where the name is bound already, so it moves no slot. -/
theorem WritesAt.place_eq (h : a.WritesAt act (a.place s u) u.lexeme v) (hrooted : a.Rooted)
    (r : Ref) (t : Token) : (act a).2.place r t = a.place r t := by
  obtain ⟨l, hl⟩ := hrooted s
  have hscopes := h.scopes_eq
  cases ho : a.owner? u.lexeme s with
  | none =>
    rw [place, ho] at hscopes
    exact place_of_sameNames (.of_scopes_eq hscopes) r t
  | some o =>
    rw [place, ho] at hscopes
    have hbinds := ((hl.owner?_eq_some_iff u.lexeme o).mp ho).2
    have hsame := (sameNames_defineInside hbinds v).trans (.of_scopes_eq (b := (act a).2) hscopes)
    exact place_of_sameNames hsame r t

/-- A definition leaves the slot of an assignment unless its scope is visited on the way there. -/
theorem WritesAt.place_eq_of_not_visited (h : a.WritesAt act (.ok s) x v) (hl : a.Chain r l)
    (hapart : ¬ (u.lexeme = x ∧ s ∈ a.visited (·.binds u.lexeme) l)) :
    (act a).2.place r u = a.place r u := by
  have hbinds : ∀ q ∈ upTo (fun q => (a.scope q).binds u.lexeme) l,
      ((act a).2.scope q).binds u.lexeme = (a.scope q).binds u.lexeme := by
    intro q hq
    rw [h.scope_eq, scope_defineInside]
    split
    · next hqs =>
      have hne : u.lexeme ≠ x := fun heq => hapart ⟨heq, hqs.1 ▸ hq⟩
      rw [Scope.binds_define, hqs.1]
      simp [hne]
    · rfl
  rw [place, place, owner?, owner?, (h.chain hl).outward_eq, hl.outward_eq,
    find?_eq_of_upTo hbinds]

/-- From a scope that is visited on the way, a definition takes over the slot. -/
theorem WritesAt.place_eq_of_visited (h : a.WritesAt act (.ok s) u.lexeme v)
    (hs : s < a.scopes.size) (hl : a.Chain r l) (hmem : s ∈ a.visited (·.binds u.lexeme) l) :
    (act a).2.place r u = .ok s := by
  obtain ⟨pre, post, hchain, hpre⟩ := (hl.reaches_iff u.lexeme s).mpr hmem
  have hself : ((act a).2.scope s).binds u.lexeme = true := by
    rw [h.scope_eq, scope_defineInside_self hs, Scope.binds_define]
    simp
  have howner : (act a).2.Owner u.lexeme r s := by
    refine ⟨⟨pre, post, h.chain hchain, fun q hq => ?_⟩, hself⟩
    have hne : q ≠ s := by
      rintro rfl
      exact (List.nodup_append.mp hchain.nodup).2.2 q hq q (by simp) rfl
    rw [h.scope_eq, scope_defineInside, if_neg fun hqs => hne hqs.1, hpre q hq]
  exact ((h.chain hl).place_eq_ok_iff u s).mpr howner

/-! ### Which writes commute -/

theorem Defines.commuteUnless (h : Defines s x v act) (h' : Defines t y w act') (hfree : a.Free)
    (hs : s < a.scopes.size) : a.CommuteUnless act act' v w (s = t ∧ x = y) := by
  have hfirst := h.writesAt hfree
  have hsecond := h'.writesAt hfree
  have hlater := h.writesAt (hsecond.free hfree)
  have hlater' := h'.writesAt (hfirst.free hfree)
  constructor
  · intro hapart
    refine hfirst.commute hsecond hlater hlater' fun o ho ho' heq => hapart ⟨?_, heq⟩
    exact (Except.ok.inj ho).trans (Except.ok.inj ho').symm
  · rintro ⟨rfl, rfl⟩ hne
    exact hlater.not_commute hlater' (hfirst.size_eq ▸ hs) (hsecond.size_eq ▸ hs) hne

theorem Defines.commuteUnless_assigns (h : Defines s x v act) (h' : Assigns t u w act')
    (hrooted : a.Rooted) (hfree : a.Free) (hs : s < a.scopes.size) (hl : a.Chain t l) :
    a.CommuteUnless act act' v w (u.lexeme = x ∧ s ∈ a.visited (·.binds u.lexeme) l) := by
  have hfirst := h.writesAt hfree
  have hsecond := h'.writesAt hrooted hfree
  have hlater := h.writesAt (hsecond.free hfree)
  have hlater' := h'.writesAt (hfirst.rooted hrooted) (hfirst.free hfree)
  constructor
  · intro hapart
    rw [hfirst.place_eq_of_not_visited hl hapart] at hlater'
    refine hfirst.commute hsecond hlater hlater' fun o ho ho' heq => hapart ⟨heq.symm, ?_⟩
    -- The walk visits the scope of its slot last, so this is not the scope of the definition.
    obtain rfl := Except.ok.inj ho
    exact (hl.reaches_iff u.lexeme s).mp ((hl.place_eq_ok_iff u s).mp ho').1
  · rintro ⟨rfl, hmem⟩ hne
    rw [hfirst.place_eq_of_visited hs hl hmem] at hlater'
    exact hlater.not_commute hlater' (hfirst.size_eq ▸ hs) (hsecond.size_eq ▸ hs) hne

theorem Assigns.commuteUnless (h : Assigns s u v act) (h' : Assigns t u' w act')
    (hrooted : a.Rooted) (hfree : a.Free) :
    a.CommuteUnless act act' v w
      (u.lexeme = u'.lexeme ∧ ∃ o, a.Owner u.lexeme s o ∧ a.Owner u'.lexeme t o) := by
  have hfirst := h.writesAt hrooted hfree
  have hsecond := h'.writesAt hrooted hfree
  have hlater := h.writesAt (hsecond.rooted hrooted) (hsecond.free hfree)
  have hlater' := h'.writesAt (hfirst.rooted hrooted) (hfirst.free hfree)
  rw [hsecond.place_eq hrooted] at hlater
  rw [hfirst.place_eq hrooted] at hlater'
  obtain ⟨ls, hls⟩ := hrooted s
  obtain ⟨lt, hlt⟩ := hrooted t
  constructor
  · intro hapart
    refine hfirst.commute hsecond hlater hlater' fun o ho ho' heq => hapart ⟨heq, o, ?_, ?_⟩
    · exact (hls.place_eq_ok_iff u o).mp ho
    · exact (hlt.place_eq_ok_iff u' o).mp ho'
  · rintro ⟨heq, o, ho, ho'⟩ hne
    have hsize := lt_size_of_binds ho.2
    rw [(hls.place_eq_ok_iff u o).mpr ho] at hlater
    rw [(hlt.place_eq_ok_iff u' o).mpr ho', ← heq] at hlater'
    exact hlater.not_commute hlater' (hfirst.size_eq ▸ hsize) (hsecond.size_eq ▸ hsize) hne

end Arena

namespace Machine

open Arena (Defines Assigns)

/-- Writes to different slots can change places, in every state of a run in which nothing is held.
Two definitions have one slot if scope and name are the same. A definition gets in the way of an
assignment if it is of the name, in a scope that the walk of the assignment visits: up to the first
that binds the name, or the whole chain if none does. Two assignments have one slot if they resolve
to it. Writes that clash do not commute as long as their values differ. -/
theorem independent_writes_commute {c : Machine} (hc : c.Reachable)
    (hfree : c.session.arena.Free) {s t : Ref} (hs : s < c.session.arena.scopes.size)
    (v w : Value) :
    (∀ x y act act', Defines s x v act → Defines t y w act' →
      c.session.arena.CommuteUnless act act' v w (s = t ∧ x = y)) ∧
    (∃ l, c.session.arena.Chain t l ∧ ∀ x y act act', Defines s x v act → Assigns t y w act' →
      c.session.arena.CommuteUnless act act' v w
        (y.lexeme = x ∧ s ∈ c.session.arena.visited (·.binds y.lexeme) l)) ∧
    (∀ x y act act', Assigns s x v act → Assigns t y w act' →
      c.session.arena.CommuteUnless act act' v w
        (x.lexeme = y.lexeme ∧ ∃ o, c.session.arena.Owner x.lexeme s o ∧
          c.session.arena.Owner y.lexeme t o)) := by
  have hrooted := hc.rooted
  obtain ⟨l, hl⟩ := hrooted t
  refine ⟨?_, ⟨l, hl, ?_⟩, ?_⟩
  · exact fun x y act act' hx hy => hx.commuteUnless hy hfree hs
  · exact fun x y act act' hx hy => hx.commuteUnless_assigns hy hrooted hfree hs hl
  · exact fun x y act act' hx hy => hx.commuteUnless hy hrooted hfree

/-- The scope between can define a name of its own while the innermost one assigns to the name that
is bound outermost, but not this name; and where a name is not bound at all, a definition comes
before or after the failure. -/
theorem independent_writes_commute_boundOutermost :
    boundOutermost.Reachable ∧ boundOutermost.session.arena.Free ∧
      1 < boundOutermost.session.arena.scopes.size ∧
      boundOutermost.session.arena.Commute (Arena.define 1 "y" .nil)
        (Arena.assign 2 (.identifier "x" 1) (.bool true)) ∧
      ¬ boundOutermost.session.arena.Commute (Arena.define 1 "x" .nil)
        (Arena.assign 2 (.identifier "x" 1) (.bool true)) ∧
      boundOutermost.session.arena.Commute (Arena.define 1 "z" .nil) (Arena.define 1 "y" .nil) ∧
      boundOutermost.session.arena.Commute (Arena.assign 1 (.identifier "x" 1) .nil)
        (Arena.assign 2 (.identifier "y" 1) (.bool true)) := by
  have hreach : boundOutermost.Reachable := ⟨_, rfl⟩
  have hfree : boundOutermost.session.arena.Free := Arena.free_of_lt_size (by decide +kernel)
  have hlt : 1 < boundOutermost.session.arena.scopes.size := by decide +kernel
  have hchain : boundOutermost.session.arena.Chain 2 [2, 1, 0] :=
    .inner (by decide +kernel) (.inner (by decide +kernel) (.root (by decide +kernel)))
  have hvisited : 1 ∈ boundOutermost.session.arena.visited (·.binds "x") [2, 1, 0] := by
    decide +kernel
  obtain ⟨-, ⟨l, hl, hassigned⟩, hassigns⟩ :=
    independent_writes_commute hreach hfree (t := 2) hlt .nil (.bool true)
  obtain ⟨hdefines, -⟩ := independent_writes_commute hreach hfree (t := 1) hlt .nil .nil
  obtain rfl := hl.unique hchain
  refine ⟨hreach, hfree, hlt, ?_, ?_, ?_, ?_⟩
  · have hapart := hassigned "y" (.identifier "x" 1) _ _ .handle .handle
    exact hapart.commute (by simp [Token.identifier])
  · exact (hassigned "x" (.identifier "x" 1) _ _ .handle .handle).clashes ⟨rfl, hvisited⟩ (by simp)
  · exact (hdefines "z" "y" _ _ .handle .handle).commute (by simp)
  · exact (hassigns (.identifier "x" 1) (.identifier "y" 1) _ _ .handle .handle).commute
      (by simp [Token.identifier])

end Machine

end ScopeChain
