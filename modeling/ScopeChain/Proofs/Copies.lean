import ScopeChain.Proofs.Assignments
import ScopeChain.Proofs.Visibility

/-!
Copies of scopes. A copy has the bindings that the scope has by then and the same parent, so the
two look alike at first and have all their ancestors in common. They never lie on one chain: a
chain that passed both would go through their parent twice. So what is written through the one or
from inside it never comes to the other, but what it comes to farther outward is seen from both.
-/
namespace ScopeChain

namespace Arena

/-- The scope `q` is `k` or has been made inside of it, at any depth. -/
def Encloses (a : Arena) (k q : Ref) : Prop := ∃ l, a.Chain q l ∧ k ∈ l

/-- Two scopes with the same parent, or two roots. -/
structure Twins (a : Arena) (s k : Ref) : Prop where
  ne : s ≠ k
  parent_eq : (a.scope k).parent = (a.scope s).parent

/-- Nothing that can be asked of the scope `k` tells it apart from `s`. -/
structure Mirrors (a : Arena) (s k : Ref) : Prop where
  parent_eq : (a.scope k).parent = (a.scope s).parent
  get_eq : ∀ t, (a.get k t).1 = (a.get s t).1
  depth_eq : (a.depth k).1 = (a.depth s).1
  size_eq : (inspect k Scope.size a).1 = (inspect s Scope.size a).1
  find?_eq : ∀ x, (a.scope k).find? x = (a.scope s).find? x

/-- What may become of the arena when something is defined or assigned to through the scope `q`, by
whatever route and with whatever result. -/
inductive WrittenThrough (a : Arena) (q : Ref) : Arena → Prop
  | define {x : String} {v : Value} {act : Attempt Unit} (h : Defines q x v act) :
      WrittenThrough a q (act a).2
  | assign {t : Token} {v : Value} {act : Attempt Unit} (h : Assigns q t v act) :
      WrittenThrough a q (act a).2
  | inside {m : Mode} (d : Direct m) : WrittenThrough a q (d.perform q a).2

/-- What becomes of the arena when an assignment through the scope `q` succeeds. -/
inductive AssignedThrough (a : Arena) (q : Ref) (t : Token) (v : Value) : Arena → Prop
  | route {act : Attempt Unit} (h : Assigns q t v act) (hok : (act a).1 = .ok ()) :
      AssignedThrough a q t v (act a).2
  | inside (hok : ((Direct.assign t v).perform q a).1 = .ok .done) :
      AssignedThrough a q t v ((Direct.assign t v).perform q a).2

/-- The scope `s` has nothing in common with `k` but what is above both. -/
structure SharesAbove (a : Arena) (s k : Ref) : Prop where
  /-- No write through `k` or from inside it changes what `s` binds. -/
  spared : ∀ q b, a.Encloses k q → a.WrittenThrough q b → b.scope s = a.scope s
  /-- An assignment from there that is resolved above `k` is read through `s` and from
  inside it, unless a scope on the way to the one that it is resolved in binds the name, or
  is being written. -/
  seen : ∀ q t v b o, a.Encloses k q → a.AssignedThrough q t v b → a.Owner t.lexeme q o →
    a.Ancestor k o → ∀ r, a.Encloses s r → ∃ pre post, a.Chain r (pre ++ o :: post) ∧
      ((∀ p ∈ pre, (a.scope p).binds t.lexeme = false) →
        (∀ p, b.Reaches t.lexeme r p → b.scopes.hold p ≠ .exclusive) →
        ∀ u : Token, u.lexeme = t.lexeme → b.get r u = (.ok v, b))

variable {α : Type} {a b : Arena} {m : Mode} {s k q r o : Ref} {l up pre post : List Ref}
  {x : String}
  {t : Token} {v : Value}

/-! ### Twins -/

theorem Twins.symm (h : a.Twins s k) : a.Twins k s := ⟨h.ne.symm, h.parent_eq.symm⟩

theorem Twins.of_grows (h : a.Twins s k) (hs : s < a.scopes.size) (hk : k < a.scopes.size)
    (hg : Grows a b) : b.Twins s k :=
  ⟨h.ne, by rw [hg.parent_eq k hk, hg.parent_eq s hs, h.parent_eq]⟩

theorem Twins.chain (h : a.Twins s k) (hs : a.Chain s (s :: up)) : a.Chain k (k :: up) := by
  generalize hl : s :: up = l at hs
  cases hs with
  | root hp =>
    obtain rfl := (List.cons.inj hl).2
    exact .root (h.parent_eq.trans hp)
  | inner hp outer =>
    obtain rfl := (List.cons.inj hl).2
    exact .inner (h.parent_eq.trans hp) outer

/-- The way outward from a scope does not come to a twin of it, whose way is just as long. -/
theorem Twins.not_mem_outer (h : a.Twins s k) (hs : a.Chain s (s :: up)) : k ∉ up := by
  intro hmem
  obtain ⟨pre, post, rfl⟩ := List.append_of_mem hmem
  have hsplit : a.Chain s ((s :: pre) ++ k :: post) := hs
  have hdrop : a.Chain k (k :: post) := hsplit.drop
  have hlen := congrArg List.length ((h.chain hs).unique hdrop)
  simp only [List.length_cons, List.length_append] at hlen
  omega

theorem Twins.not_mem (h : a.Twins s k) (hl : a.Chain q l) (hs : s ∈ l) : k ∉ l := by
  intro hk
  obtain ⟨pre, post, rfl⟩ := List.append_of_mem hs
  rcases List.mem_append.mp hk with hpre | hpost
  · obtain ⟨inner, outer, rfl⟩ := List.append_of_mem hpre
    have hsplit : a.Chain q (inner ++ k :: (outer ++ s :: post)) := by simpa using hl
    exact h.symm.not_mem_outer hsplit.drop (by simp)
  · rcases List.mem_cons.mp hpost with rfl | hpost
    · exact h.ne rfl
    · exact h.not_mem_outer hl.drop hpost

/-! ### What a write can come to -/

theorem scope_defineInside_of_ne (h : s ≠ o) (x : String) (v : Value) :
    (a.defineInside o x v).scope s = a.scope s := by
  rw [scope_defineInside, if_neg fun hc => h hc.1]

theorem scope_overwrite (h : s ∉ l) (t : Token) (v : Value) (a : Arena) :
    (overwrite l t v a).2.scope s = a.scope s := by
  unfold overwrite
  split
  · next o ho =>
    have hne : s ≠ o := fun heq => h (heq ▸ List.mem_of_find?_eq_some ho)
    exact scope_defineInside_of_ne hne _ _
  · rfl

theorem scope_holdingAll {act : Attempt α} (hact : Blind act) (hl : l.Nodup)
    (h : (act a).2.scope s = a.scope s) : (holdingAll m l act a).2.scope s = a.scope s := by
  rw [holdingAll_eq hact hl]
  split
  · exact h
  · rfl

theorem scope_define_of_ne (h : s ≠ q) (x : String) (v : Value) (a : Arena) :
    (define q x v a).2.scope s = a.scope s := by
  rw [define_eq]
  split
  · exact scope_defineInside_of_ne h x v
  · rfl

/-- An assignment, granted or not, leaves all scopes as they were that are not on its way. -/
theorem Chain.scope_assign (hl : a.Chain q l) (h : s ∉ l) (t : Token) (v : Value) :
    (a.assign q t v).2.scope s = a.scope s := by
  rw [assign_eq_holdingAll hl]
  exact scope_holdingAll (blind_overwrite l t v) (hl.visited_nodup _) (scope_overwrite h t v a)

theorem Chain.scope_direct (hl : a.Chain q l) (h : s ∉ l) (d : Direct m) :
    (d.perform q a).2.scope s = a.scope s := by
  obtain ⟨outer, rfl⟩ := hl.exists_cons
  have hne : s ≠ q := fun heq => h (by simp [heq])
  cases d with
  | get t => rw [scope, Direct.perform, reads_getInside a.fuel q t a, scope]
  | depth => rw [scope, Direct.perform, reads_depthInside a.fuel q a, scope]
  | binds x => rfl
  | size => rfl
  | define x v => exact scope_defineInside_of_ne hne x v
  | assign t v =>
    have hwalk : a.assignInside a.fuel q t v = _ :=
      (walk_assignInside t v).eq_holdingAll hl hl.length_le fun _ => rfl
    show (a.assignInside a.fuel q t v).2.scope s = a.scope s
    rw [hwalk]
    have hnodup := (hl.visited_nodup (·.binds t.lexeme)).sublist (List.tail_sublist _)
    exact scope_holdingAll (blind_overwrite _ t v) hnodup (scope_overwrite h t v a)

/-- A write through a scope comes to the scopes of its chain at most. -/
theorem WrittenThrough.scope_eq (h : a.WrittenThrough q b) (hl : a.Chain q l) (hs : s ∉ l) :
    b.scope s = a.scope s := by
  have hne : s ≠ q := by
    obtain ⟨outer, rfl⟩ := hl.exists_cons
    exact fun heq => hs (by simp [heq])
  cases h with
  | define h =>
    cases h with
    | handle => exact scope_define_of_ne hne _ _ a
    | current he => exact scope_define_of_ne (he ▸ hne) _ _ (a.emit _)
    | global he => exact scope_define_of_ne (he ▸ hne) _ _ a
  | @assign t v act h =>
    cases h with
    | handle => exact hl.scope_assign hs t v
    | @current e he =>
      subst he
      have hreported : (a.emit (.assign t.lexeme t.line)).Chain e.current l :=
        hl.of_parents fun _ _ => rfl
      exact hreported.scope_assign hs t v
  | inside d => exact hl.scope_direct hs d

/-! ### What an assignment has come to -/

theorem AssignedThrough.exists_owner (h : a.AssignedThrough q t v b) (hl : a.Chain q l) :
    ∃ o, a.Owner t.lexeme q o ∧ b.scopes = (a.defineInside o t.lexeme v).scopes := by
  cases h with
  | route h hok =>
    cases h with
    | handle =>
      obtain ⟨o, ho, hb⟩ := hl.assign_of_ok hok
      exact ⟨o, (hl.owner?_eq_some_iff _ o).mp ho, by rw [hb]⟩
    | @current e he =>
      subst he
      have hreported : (a.emit (.assign t.lexeme t.line)).Chain e.current l :=
        hl.of_parents fun _ _ => rfl
      obtain ⟨o, ho, hb⟩ := hreported.assign_of_ok hok
      rw [owner?_emit] at ho
      refine ⟨o, (hl.owner?_eq_some_iff _ o).mp ho, ?_⟩
      show ((a.emit (.assign t.lexeme t.line)).assign e.current t v).2.scopes = _
      rw [hb]
      rfl
  | inside hok =>
    have hassigned : (a.assignInside a.fuel q t v).1 = .ok () := by
      cases hresult : (a.assignInside a.fuel q t v).1 with
      | ok u => rfl
      | error f => simp [Direct.perform, hresult, Except.map] at hok
    obtain ⟨o, ho, hb⟩ := hl.assignInside_of_ok hassigned
    exact ⟨o, (hl.owner?_eq_some_iff _ o).mp ho, congrArg Arena.scopes hb⟩

theorem Slot.of_scopes_eq (h : a.Slot x r o v) (hb : b.scopes = a.scopes) : b.Slot x r o v := by
  have hscope : ∀ q, b.scope q = a.scope q := fun q => by rw [scope, hb, scope]
  exact ⟨(SameNames.of_scopes_eq hb).owner h.owner, by rw [hscope, h.find?_eq]⟩

/-! ### What twins share -/

/-- What is above the one of two twins is on the way outward from whatever the other encloses. -/
theorem Twins.exists_chain (h : a.Twins s k) (ho : a.Ancestor k o)
    (hr : a.Encloses s r) : ∃ pre post, a.Chain r (pre ++ o :: post) := by
  obtain ⟨l, hl, hmem⟩ := hr
  obtain ⟨inner, outer, rfl⟩ := List.append_of_mem hmem
  have hk : a.Chain k (k :: outer) := h.chain hl.drop
  obtain ⟨between, post, rfl⟩ := List.append_of_mem (hk.mem_tail_of_ancestor ho)
  exact ⟨inner ++ s :: between, post, by simpa using hl⟩

theorem Twins.sharesAbove (h : a.Twins s k) (hrooted : a.Rooted) : a.SharesAbove s k where
  spared q b hq hb := by
    obtain ⟨l, hl, hk⟩ := hq
    exact hb.scope_eq hl (h.symm.not_mem hl hk)
  seen q t v b o hq hb ho habove r hr := by
    obtain ⟨pre, post, hchain⟩ := h.exists_chain habove hr
    refine ⟨pre, post, hchain, fun hpre hheld u hu => ?_⟩
    obtain ⟨l, hl, -⟩ := hq
    obtain ⟨o', ho', hscopes⟩ := hb.exists_owner hl
    obtain rfl := ho.unique hrooted ho'
    have howner : a.Owner t.lexeme r o := ⟨⟨pre, post, hchain, hpre⟩, ho.2⟩
    have hslot := ((replaces_defineInside ho.2 v).slot howner).of_scopes_eq hscopes
    exact hslot.get hu hheld

/-- A scope that has become the same as another one is asked the same. -/
theorem Chain.mirrors (h : a.Chain s (s :: up)) (hscope : a.scope k = a.scope s)
    (hs : a.scopes.grants s .shared = true) (hk : a.scopes.grants k .shared = true) (hne : s ≠ k) :
    a.Mirrors s k := by
  have hparent : (a.scope k).parent = (a.scope s).parent := by rw [hscope]
  have hchain : a.Chain k (k :: up) := Twins.chain ⟨hne, hparent⟩ h
  have hgrants : ∀ l : List Ref, (∀ q ∈ k :: l, a.scopes.grants q .shared = true) ↔
      ∀ q ∈ s :: l, a.scopes.grants q .shared = true := by simp [hs, hk]
  refine ⟨hparent, fun t => ?_, ?_, ?_, fun x => by rw [hscope]⟩
  · obtain ⟨rest, hrest, hrest'⟩ : ∃ rest, a.visited (·.binds t.lexeme) (s :: up) = s :: rest ∧
        a.visited (·.binds t.lexeme) (k :: up) = k :: rest := by
      cases hbinds : (a.scope s).binds t.lexeme with
      | true =>
        exact ⟨[], visited_cons_of_true hbinds up, visited_cons_of_true (hscope ▸ hbinds) up⟩
      | false =>
        exact ⟨_, visited_cons_of_false hbinds up, visited_cons_of_false (hscope ▸ hbinds) up⟩
    have hlookup : lookup (k :: up) t a = lookup (s :: up) t a := by
      simp only [lookup, found, List.findSome?_cons, hscope]
    rw [get_eq_holdingAll hchain, get_eq_holdingAll h,
      holdingAll_eq (blind_lookup _ t) (hchain.visited_nodup _),
      holdingAll_eq (blind_lookup _ t) (h.visited_nodup _), hrest, hrest', hlookup]
    simp only [hgrants]
  · have hcount : count (k :: up) = count (s :: up) := rfl
    rw [depth_eq_holdingAll hchain, depth_eq_holdingAll h,
      holdingAll_eq (blind_count _) hchain.nodup, holdingAll_eq (blind_count _) h.nodup, hcount]
    simp only [hgrants]
  · rw [inspect_eq, inspect_eq, if_pos hs, if_pos hk, hscope]

theorem copy_of_grants (h : a.scopes.grants s .shared = true) :
    copy s a = (.ok a.scopes.size, (a.alloc (a.scope s)).2) := by
  rw [copy, inspect_eq, if_pos h]
  rfl

/-- To copy a scope makes a twin of it, which it has been copied to entirely. -/
theorem Rooted.exists_copy (hrooted : a.Rooted) (hclosed : a.Closed) (hs : s < a.scopes.size)
    (hheld : a.scopes.hold s ≠ .exclusive) :
    ∃ b, copy s a = (.ok a.scopes.size, b) ∧ Grows a b ∧ a.scopes.size < b.scopes.size ∧
      b.Twins s a.scopes.size ∧ b.Mirrors s a.scopes.size := by
  have hgrant : a.scopes.grants s .shared = true := by
    rw [← Bool.not_eq_false]
    exact mt (grants_shared_eq_false_iff _).mp hheld
  have hcopy := copy_of_grants hgrant
  have hkeeps := keeps_copy s hclosed
  rw [hcopy] at hkeeps
  have hscope : (a.alloc (a.scope s)).2.scope a.scopes.size = (a.alloc (a.scope s)).2.scope s := by
    have hnew := a.scopes.value_alloc (a.scope s) a.scopes.size
    rw [if_pos rfl] at hnew
    exact hnew.trans (hkeeps.scope_eq s hs).symm
  obtain ⟨l, hl⟩ := hrooted.of_grows hclosed hkeeps.toGrows s
  obtain ⟨up, rfl⟩ := hl.exists_cons
  have hmirrors := hl.mirrors hscope
    (by rw [Store.grants, hkeeps.hold_eq]; exact hgrant)
    (by rw [Store.grants, hkeeps.hold_eq, Store.hold_of_size_le _ (Nat.le_refl _)]; rfl)
    (Nat.ne_of_lt hs)
  exact ⟨_, hcopy, hkeeps.toGrows, alloc_fst_lt (a.scope s) a,
    ⟨Nat.ne_of_lt hs, hmirrors.parent_eq⟩, hmirrors⟩

end Arena

namespace Machine

/-- A copy that is made of a scope in any state of a run, while the scope is not being written, is
a new scope that cannot be told apart from the scope at first. From then on, in every state of
every later run, the two share what is above them and nothing else: what is written through the
one or from inside it leaves the other as it is, and an assignment that is resolved above them is
seen from both sides. -/
theorem copies_share_ancestors {c : Machine} (hc : c.Reachable) {s : Ref}
    (hs : s < c.session.arena.scopes.size)
    (hheld : c.session.arena.scopes.hold s ≠ .exclusive) (name : String) :
    ∃ k σ, (ScopeStep.copy name).perform s c.session = (.ok .done, σ) ∧
      σ.scopes[name]? = some k ∧ c.session.arena.scopes.size ≤ k ∧ k < σ.arena.scopes.size ∧
      σ.arena.Mirrors s k ∧
      ∀ ms, ((⟨σ, c.brackets⟩ : Machine).run ms).session.arena.SharesAbove s k ∧
        ((⟨σ, c.brackets⟩ : Machine).run ms).session.arena.SharesAbove k s := by
  obtain ⟨b, hcopy, hgrows, hlt, htwins, hmirrors⟩ :=
    hc.rooted.exists_copy hc.sound.closed hs hheld
  have hsound : ({ c.session with arena := b }.bindScope name c.session.arena.scopes.size).Sound :=
    (hc.sound.of_grows hgrows).bindScope hlt name
  have hrooted := hc.rooted.of_grows hc.sound.closed hgrows
  refine ⟨c.session.arena.scopes.size,
    { c.session with arena := b }.bindScope name c.session.arena.scopes.size, ?_, ?_,
    Nat.le_refl _, hlt, hmirrors, fun ms => ?_⟩
  · simp only [ScopeStep.perform, Session.accessThen, hcopy]
  · simp [Session.bindScope]
  · have hgrown := (Leads.grows (c := ⟨_, c.brackets⟩) ⟨ms, rfl⟩ hsound).arena
    have hlater := htwins.of_grows (Nat.lt_of_lt_of_le hs hgrows.size_le) hlt hgrown
    have hrooted' := hrooted.of_grows hsound.closed hgrown
    exact ⟨hlater.sharesAbove hrooted', hlater.symm.sharesAbove hrooted'⟩

/-- The scope between, and a copy of it beside it. -/
def copiedBetween : Session := ((ScopeStep.copy "twin").perform 1 boundOutermost.session).2

/-- What is defined in the copy is not defined in the scope between, and what is assigned to in the
global scope through the copy is read through the scope between. -/
theorem copies_share_ancestors_copiedBetween :
    boundOutermost.Reachable ∧ 1 < boundOutermost.session.arena.scopes.size ∧
      boundOutermost.session.arena.scopes.hold 1 ≠ .exclusive ∧
      copiedBetween.scopes["twin"]? = some 3 ∧ copiedBetween.arena.Mirrors 1 3 ∧
      (Arena.define 3 "x" .nil copiedBetween.arena).2.scope 1 = copiedBetween.arena.scope 1 ∧
      (copiedBetween.arena.assign 3 (.identifier "x" 1) (.bool true)).1 = .ok () ∧
      ((copiedBetween.arena.assign 3 (.identifier "x" 1) (.bool true)).2.get 1
        (.identifier "x" 7)).1 = .ok (.bool true) := by
  have hreach : boundOutermost.Reachable := ⟨_, rfl⟩
  have hlt : 1 < boundOutermost.session.arena.scopes.size := by decide +kernel
  have hheld : boundOutermost.session.arena.scopes.hold 1 ≠ .exclusive := by decide +kernel
  obtain ⟨k, σ, hperform, hname, -, -, hmirrors, hlater⟩ :=
    copies_share_ancestors hreach hlt hheld "twin"
  obtain rfl : copiedBetween = σ := by rw [copiedBetween, hperform]
  have hcopy : copiedBetween.scopes["twin"]? = some 3 := by decide +kernel
  obtain rfl : k = 3 := Option.some.inj (hname.symm.trans hcopy)
  have hshares : copiedBetween.arena.SharesAbove 1 3 := (hlater []).1
  have hcopied : copiedBetween.arena.Chain 3 [3, 0] :=
    .inner (by decide +kernel) (.root (by decide +kernel))
  have hbetween : copiedBetween.arena.Chain 1 [1, 0] :=
    .inner (by decide +kernel) (.root (by decide +kernel))
  have hself : copiedBetween.arena.Encloses 3 3 := ⟨_, hcopied, by simp⟩
  have howner : copiedBetween.arena.Owner "x" 3 0 :=
    (hcopied.owner_iff "x" 0).mpr (by decide +kernel)
  have hassign : (copiedBetween.arena.assign 3 (.identifier "x" 1) (.bool true)).1 = .ok () := by
    decide +kernel
  have hfree : (copiedBetween.arena.assign 3 (.identifier "x" 1) (.bool true)).2.Free :=
    Arena.free_of_lt_size (by decide +kernel)
  refine ⟨hreach, hlt, hheld, hcopy, hmirrors,
    hshares.spared 3 _ hself (.define .handle), hassign, ?_⟩
  obtain ⟨pre, post, hchain, hseen⟩ := hshares.seen 3 _ _ _ 0 hself (.route .handle hassign) howner
    (.single (by decide +kernel)) 1 ⟨_, hbetween, by simp⟩
  obtain ⟨rfl, -⟩ : pre = [1] ∧ post = [] := by
    have heq := hchain.unique hbetween
    match pre, heq with
    | [], heq => simp at heq
    | [p], heq => simpa using heq
    | p :: q :: pre, heq => simp at heq
  have hunheld : ∀ p, (copiedBetween.arena.assign 3 (.identifier "x" 1) (.bool true)).2.Reaches
      "x" 1 p → (copiedBetween.arena.assign 3 (.identifier "x" 1) (.bool true)).2.scopes.hold p ≠
        .exclusive := by
    intro p _ hp
    rw [hfree p] at hp
    cases hp
  have hget := hseen (by decide +kernel) hunheld (.identifier "x" 7) rfl
  exact congrArg Prod.fst hget

end Machine

end ScopeChain
