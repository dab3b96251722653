import Mathlib.Logic.Function.Basic
import ScopeChain.Environment
import ScopeChain.Proofs.Growth

/-!
Scopes under other names. Where the scopes of one arena are found again in another, whatever else
there may be, every access answers the same in both, and what it writes it writes to the same scope.
-/
namespace ScopeChain

namespace Arena

/-- Every scope of `a` has a name of its own in `b`, and is there as it is in `a`: it binds
the same, its parent is the one that goes by the name of its parent, and it is held in the
same manner. -/
structure Embeds (ρ : Ref → Ref) (a b : Arena) : Prop where
  lt_size : ∀ r < a.scopes.size, ρ r < b.scopes.size
  injective : ∀ r < a.scopes.size, ∀ q < a.scopes.size, ρ r = ρ q → r = q
  bindings_eq : ∀ r < a.scopes.size, (b.scope (ρ r)).bindings = (a.scope r).bindings
  parent_eq : ∀ r < a.scopes.size, (b.scope (ρ r)).parent = (a.scope r).parent.map ρ
  hold_eq : ∀ r < a.scopes.size, b.scopes.hold (ρ r) = a.scopes.hold r

variable {α : Type} {ρ : Ref → Ref} {a b a' b' : Arena} {r : Ref} {l : List Ref}

theorem Embeds.refl (a : Arena) : Embeds id a a where
  lt_size r hr := hr
  injective r hr q hq heq := heq
  bindings_eq r hr := rfl
  parent_eq r hr := by simp
  hold_eq r hr := rfl

theorem Embeds.of_scopes_eq (h : Embeds ρ a b) (ha : a'.scopes = a.scopes)
    (hb : b'.scopes = b.scopes) : Embeds ρ a' b' := by
  obtain ⟨s, trace⟩ := a'
  obtain ⟨s', trace'⟩ := b'
  subst ha hb
  exact ⟨h.lt_size, h.injective, h.bindings_eq, h.parent_eq, h.hold_eq⟩

/-! ### Accesses -/

section Accesses

variable (h : Embeds ρ a b)
include h

theorem Embeds.binds_eq (hr : r < a.scopes.size) (x : String) :
    (b.scope (ρ r)).binds x = (a.scope r).binds x := by
  rw [Scope.binds, h.bindings_eq r hr, Scope.binds]

theorem Embeds.find?_eq (hr : r < a.scopes.size) (x : String) :
    (b.scope (ρ r)).find? x = (a.scope r).find? x := by
  rw [Scope.find?, h.bindings_eq r hr, Scope.find?]

theorem Embeds.grants_eq (hr : r < a.scopes.size) (m : Mode) :
    b.scopes.grants (ρ r) m = a.scopes.grants r m := by
  rw [Store.grants, h.hold_eq r hr, Store.grants]

theorem Embeds.chain (hclosed : a.Closed) (hl : a.Chain r l) (hr : r < a.scopes.size) :
    b.Chain (ρ r) (l.map ρ) := by
  induction hl with
  | root hp =>
    apply Chain.root
    rw [h.parent_eq _ hr, hp]
    rfl
  | inner hp outer ih =>
    refine Chain.inner ?_ (ih (hclosed _ _ hp))
    rw [h.parent_eq _ hr, hp]
    rfl

section Lists

variable (hlt : ∀ q ∈ l, q < a.scopes.size)
include hlt

theorem Embeds.visited_map (x : String) :
    b.visited (·.binds x) (l.map ρ) = (a.visited (·.binds x) l).map ρ := by
  induction l with
  | nil => rfl
  | cons q qs ih =>
    have hq := h.binds_eq (hlt q (by simp)) x
    cases hbinds : (a.scope q).binds x with
    | true =>
      rw [visited_cons_of_true hbinds, List.map_cons, visited_cons_of_true (hq.trans hbinds)]
      rfl
    | false =>
      rw [visited_cons_of_false hbinds, List.map_cons, visited_cons_of_false (hq.trans hbinds),
        ih fun p hp => hlt p (by simp [hp]), List.map_cons]

theorem Embeds.found_map (x : String) : b.found (l.map ρ) x = a.found l x := by
  induction l with
  | nil => rfl
  | cons q qs ih =>
    have hqs := ih fun p hp => hlt p (by simp [hp])
    simp only [found, List.map_cons, List.findSome?_cons, h.find?_eq (hlt q (by simp))] at hqs ⊢
    rw [hqs]

theorem Embeds.find?_map (x : String) :
    (l.map ρ).find? (fun q => (b.scope q).binds x) =
      (l.find? fun q => (a.scope q).binds x).map ρ := by
  induction l with
  | nil => rfl
  | cons q qs ih =>
    have hqs := ih fun p hp => hlt p (by simp [hp])
    rw [List.map_cons, List.find?_cons, List.find?_cons, h.binds_eq (hlt q (by simp)), hqs]
    cases (a.scope q).binds x <;> rfl

theorem Embeds.grants_map (m : Mode) :
    (∀ q ∈ l.map ρ, b.scopes.grants q m = true) ↔ ∀ q ∈ l, a.scopes.grants q m = true := by
  rw [List.forall_mem_map]
  exact forall₂_congr fun q hq => by rw [h.grants_eq (hlt q hq)]

end Lists

theorem Embeds.defineInside {o : Ref} (ho : o < a.scopes.size) (x : String) (v : Value) :
    Embeds ρ (a.defineInside o x v) (b.defineInside (ρ o) x v) := by
  have hscope : ∀ r < a.scopes.size, (b.defineInside (ρ o) x v).scope (ρ r) =
      if r = o then (b.scope (ρ o)).define x v else b.scope (ρ r) := by
    intro r hr
    have hiff : ρ r = ρ o ∧ ρ o < b.scopes.size ↔ r = o :=
      ⟨fun heq => h.injective r hr o ho heq.1, fun heq => ⟨congrArg ρ heq, h.lt_size o ho⟩⟩
    rw [scope_defineInside, ite_cond_congr (propext hiff)]
  refine ⟨?_, ?_, ?_, ?_, ?_⟩ <;> simp only [size_defineInside, parent_defineInside,
    hold_defineInside]
  · exact h.lt_size
  · exact h.injective
  · intro r hr
    rw [hscope r hr, scope_defineInside]
    by_cases hro : r = o
    · simp [hro, ho, Scope.define, h.bindings_eq o ho]
    · simp [hro, h.bindings_eq r hr]
  · exact h.parent_eq
  · exact h.hold_eq

theorem Embeds.define (hr : r < a.scopes.size) (x : String) (v : Value) :
    (define (ρ r) x v b).1 = (define r x v a).1 ∧
      Embeds ρ (define r x v a).2 (define (ρ r) x v b).2 := by
  rw [define_eq, define_eq, h.grants_eq hr]
  split
  · exact ⟨rfl, h.defineInside hr x v⟩
  · exact ⟨rfl, h⟩

section Walks

variable (hclosed : a.Closed) (hrooted : a.Rooted) (hr : r < a.scopes.size)
include hclosed hrooted hr

theorem Embeds.get_fst (t : Token) : (b.get (ρ r) t).1 = (a.get r t).1 := by
  obtain ⟨l, hl⟩ := hrooted r
  have hlt := hl.lt_size hclosed hr
  have hvisited : ∀ q ∈ a.visited (·.binds t.lexeme) l, q < a.scopes.size :=
    fun q hq => hlt q ((a.visited_sublist _ l).mem hq)
  have hl' := h.chain hclosed hl hr
  rw [get_eq_holdingAll hl, get_eq_holdingAll hl',
    holdingAll_eq (blind_lookup _ t) (hl.visited_nodup _),
    holdingAll_eq (blind_lookup _ t) (hl'.visited_nodup _), h.visited_map hlt,
    ite_cond_congr (propext (h.grants_map hvisited .shared))]
  split
  · rw [lookup, lookup, h.found_map hlt]
    cases a.found l t.lexeme <;> rfl
  · rfl

theorem Embeds.assign (t : Token) (v : Value) :
    (b.assign (ρ r) t v).1 = (a.assign r t v).1 ∧
      Embeds ρ (a.assign r t v).2 (b.assign (ρ r) t v).2 := by
  obtain ⟨l, hl⟩ := hrooted r
  have hlt := hl.lt_size hclosed hr
  have hvisited : ∀ q ∈ a.visited (·.binds t.lexeme) l, q < a.scopes.size :=
    fun q hq => hlt q ((a.visited_sublist _ l).mem hq)
  have hl' := h.chain hclosed hl hr
  rw [assign_eq_holdingAll hl, assign_eq_holdingAll hl',
    holdingAll_eq (blind_overwrite _ t v) (hl.visited_nodup _),
    holdingAll_eq (blind_overwrite _ t v) (hl'.visited_nodup _), h.visited_map hlt,
    ite_cond_congr (propext (h.grants_map hvisited .exclusive))]
  split
  · rw [overwrite, overwrite, h.find?_map hlt]
    cases ho : l.find? fun q => (a.scope q).binds t.lexeme with
    | none => exact ⟨rfl, h.of_scopes_eq rfl rfl⟩
    | some o => exact ⟨rfl, h.defineInside (hlt o (List.mem_of_find?_eq_some ho)) t.lexeme v⟩
  · exact ⟨rfl, h⟩

omit hrooted in
theorem Embeds.outlineWithin_eq (hl : a.Chain r l) {fuel fuel' : Nat} (hfuel : l.length ≤ fuel + 1)
    (hfuel' : l.length ≤ fuel' + 1) : b.outlineWithin fuel' (ρ r) = a.outlineWithin fuel r := by
  induction hl generalizing fuel fuel' with
  | @root r hp =>
    have hparent := (h.parent_eq r hr).trans (congrArg (Option.map ρ) hp)
    unfold outlineWithin
    rw [h.hold_eq r hr, hparent, hp, h.bindings_eq r hr]
    rfl
  | @inner r p l hp outer ih =>
    obtain ⟨rest, rfl⟩ := outer.exists_cons
    simp only [List.length_cons] at hfuel hfuel'
    obtain ⟨fuel, rfl⟩ : ∃ k, fuel = k + 1 := Nat.exists_eq_succ_of_ne_zero (by omega)
    obtain ⟨fuel', rfl⟩ : ∃ k, fuel' = k + 1 := Nat.exists_eq_succ_of_ne_zero (by omega)
    have hparent := (h.parent_eq r hr).trans (congrArg (Option.map ρ) hp)
    have hinner : b.outlineWithin fuel' (ρ p) = a.outlineWithin fuel p := by
      apply ih (hclosed r p hp)
      · simp only [List.length_cons]
        omega
      · simp only [List.length_cons]
        omega
    unfold outlineWithin
    rw [h.hold_eq r hr, hparent, hp, h.bindings_eq r hr, Option.map_some]
    simp only [hinner]

theorem Embeds.outline_eq : b.outline (ρ r) = a.outline r := by
  obtain ⟨l, hl⟩ := hrooted r
  have hlength := (h.chain hclosed hl hr).length_le
  rw [List.length_map] at hlength
  have hwithin : b.outlineWithin b.fuel (ρ r) = a.outlineWithin a.fuel r :=
    h.outlineWithin_eq hclosed hr hl hl.length_le hlength
  rw [outline, outline, hwithin]

theorem Embeds.list_fst (names : List String) : (list (ρ r) names b).1 = (list r names a).1 := by
  rw [list, list, h.outline_eq hclosed hrooted hr]
  cases a.outline r with
  | error f => rfl
  | ok o =>
    cases ho : o.bindings? with
    | none => simp only [ho]
    | some bindings => simp only [ho]

end Walks

omit h in
/-- Where a new scope gets a name, those that there are keep theirs. -/
theorem update_of_lt {size : Nat} (hr : r < size) (q : Ref) : Function.update ρ size q r = ρ r :=
  Function.update_of_ne (Nat.ne_of_lt hr) q ρ

/-- The next scopes of the two arenas go together, too. -/
theorem Embeds.newChild (hclosed : a.Closed) {p : Ref} (hp : p < a.scopes.size) :
    Embeds (Function.update ρ a.scopes.size b.scopes.size) (a.newChild p).2
      (b.newChild (ρ p)).2 := by
  have hsize : (a.newChild p).2.scopes.size = a.scopes.size + 1 := Store.size_alloc _ _
  have hsize' : (b.newChild (ρ p)).2.scopes.size = b.scopes.size + 1 := Store.size_alloc _ _
  have hscope : ∀ r, (a.newChild p).2.scope r =
      if r = a.scopes.size then .enclosedBy p else a.scope r := a.scopes.value_alloc _
  have hscope' : ∀ r, (b.newChild (ρ p)).2.scope r =
      if r = b.scopes.size then .enclosedBy (ρ p) else b.scope r := b.scopes.value_alloc _
  have hold : ∀ r, (a.newChild p).2.scopes.hold r = a.scopes.hold r := a.scopes.hold_alloc _
  have hold' : ∀ r, (b.newChild (ρ p)).2.scopes.hold r = b.scopes.hold r := b.scopes.hold_alloc _
  have hcases : ∀ r < (a.newChild p).2.scopes.size, r = a.scopes.size ∨ r < a.scopes.size := by
    intro r hr
    omega
  have hupdate : ∀ r < a.scopes.size, Function.update ρ a.scopes.size b.scopes.size r = ρ r :=
    fun r hr => update_of_lt hr _
  have hne : ∀ r < a.scopes.size, ρ r ≠ b.scopes.size := fun r hr => Nat.ne_of_lt (h.lt_size r hr)
  refine ⟨?_, ?_, ?_, ?_, ?_⟩
  · intro r hr
    rcases hcases r hr with rfl | hr
    · rw [Function.update_self, hsize']
      exact Nat.lt_succ_self _
    · rw [hupdate r hr, hsize']
      exact Nat.lt_succ_of_lt (h.lt_size r hr)
  · intro r hr q hq heq
    rcases hcases r hr with rfl | hr <;> rcases hcases q hq with rfl | hq
    · rfl
    · rw [Function.update_self, hupdate q hq] at heq
      exact absurd heq.symm (hne q hq)
    · rw [Function.update_self, hupdate r hr] at heq
      exact absurd heq (hne r hr)
    · rw [hupdate r hr, hupdate q hq] at heq
      exact h.injective r hr q hq heq
  · intro r hr
    rcases hcases r hr with rfl | hr
    · rw [Function.update_self, hscope', hscope, if_pos rfl, if_pos rfl]
      rfl
    · rw [hupdate r hr, hscope', hscope, if_neg (hne r hr), if_neg (Nat.ne_of_lt hr),
        h.bindings_eq r hr]
  · intro r hr
    rcases hcases r hr with rfl | hr
    · rw [Function.update_self, hscope', hscope, if_pos rfl, if_pos rfl, Scope.enclosedBy,
        Scope.enclosedBy, Option.map_some, hupdate p hp]
    · rw [hupdate r hr, hscope', hscope, if_neg (hne r hr), if_neg (Nat.ne_of_lt hr),
        h.parent_eq r hr]
      exact Option.map_congr fun q hq => (hupdate q (hclosed r q hq)).symm
  · intro r hr
    rw [hold', hold]
    rcases hcases r hr with rfl | hr
    · rw [Function.update_self, b.scopes.hold_of_size_le (Nat.le_refl _),
        a.scopes.hold_of_size_le (Nat.le_refl _)]
    · rw [hupdate r hr, h.hold_eq r hr]

end Accesses

end Arena

namespace Environment

variable {ρ : Ref → Ref} {a b : Arena} {e : Environment}

/-- The same environment where its scopes go by other names. -/
def map (ρ : Ref → Ref) (e : Environment) : Environment := ⟨ρ e.global, e.stack.map ρ⟩

@[simp] theorem map_id (e : Environment) : e.map id = e := by simp [map]

theorem map_congr {ρ ρ' : Ref → Ref} (e : Environment)
    (h : ∀ r ∈ e.global :: e.stack, ρ' r = ρ r) : e.map ρ' = e.map ρ := by
  have hstack : e.stack.map ρ' = e.stack.map ρ :=
    List.map_congr_left fun r hr => h r (List.mem_cons_of_mem _ hr)
  rw [map, h e.global (by simp), hstack, map]

@[simp] theorem current_map (ρ : Ref → Ref) (e : Environment) :
    (e.map ρ).current = ρ e.current := by
  cases hstack : e.stack <;> simp [current, map, hstack]

@[simp] theorem depth_map (ρ : Ref → Ref) (e : Environment) : (e.map ρ).depth = e.depth := by
  simp [depth, map]

@[simp] theorem doc_map (ρ : Ref → Ref) (e : Environment) (o : Outline) :
    (e.map ρ).doc o = e.doc o := by
  simp only [doc, depth_map]

section Accesses

variable (h : Arena.Embeds ρ a b) (he : e.current < a.scopes.size)
include h he

theorem define_map (x : String) (v : Value) :
    ((e.map ρ).define x v b).1 = (e.define x v a).1 ∧
      Arena.Embeds ρ (e.define x v a).2 ((e.map ρ).define x v b).2 := by
  have hreported : Arena.Embeds ρ (a.emit (.define x e.depth))
      (b.emit (.define x (e.map ρ).depth)) := h.of_scopes_eq rfl rfl
  unfold define
  rw [current_map]
  exact hreported.define he x v

theorem assign_map (hclosed : a.Closed) (hrooted : a.Rooted) (t : Token) (v : Value) :
    ((e.map ρ).assign t v b).1 = (e.assign t v a).1 ∧
      Arena.Embeds ρ (e.assign t v a).2 ((e.map ρ).assign t v b).2 := by
  have hreported : Arena.Embeds ρ (a.emit (.assign t.lexeme t.line))
      (b.emit (.assign t.lexeme t.line)) := h.of_scopes_eq rfl rfl
  unfold assign
  rw [current_map]
  exact hreported.assign hclosed (hrooted.emit _) he t v

end Accesses

end Environment

end ScopeChain
