import ScopeChain.Proofs.Refusals

/-!
What a text of a chain says, and what it depends on. The text of a handle shows the scopes from the
one that the handle is to outward, each inside the one before, and ends with a root or with the
first scope that is held exclusively. A scope that the text does not show makes no difference to it,
nor does a reader.
-/
namespace ScopeChain

namespace Doc

/-- A text on one line, and over several lines at some depth of nesting. -/
def ofLines (line : String) (lines : Nat → String) : Doc
  | .compact => line
  | .indented depth => lines depth

/-- The text of a handle whose cell has the value with the text. -/
def inHandle (value : Doc) : Doc :=
  .ofLines ("LocalScope(RefCell \x7b value: " ++ value .compact ++ " \x7d)") fun depth =>
    "LocalScope(\n" ++
      margin (depth + 1) ++ "RefCell \x7b\n" ++
        margin (depth + 2) ++ "value: " ++ value (.indented (depth + 2)) ++ ",\n" ++
      margin (depth + 1) ++ "\x7d,\n" ++
    margin depth ++ ")"

def inScope (bindings parent : Doc) : Doc :=
  .ofLines
    ("Scope \x7b bindings: " ++ bindings .compact ++ ", parent: " ++ parent .compact ++ " \x7d")
    fun depth =>
      "Scope \x7b\n" ++
        margin (depth + 1) ++ "bindings: " ++ bindings (.indented (depth + 1)) ++ ",\n" ++
        margin (depth + 1) ++ "parent: " ++ parent (.indented (depth + 1)) ++ ",\n" ++
      margin depth ++ "\x7d"

/-- A text in brackets behind a name. -/
def inTuple (name : String) (part : Doc) : Doc :=
  .ofLines (name ++ "(" ++ part .compact ++ ")") fun depth =>
    name ++ "(\n" ++
      margin (depth + 1) ++ part (.indented (depth + 1)) ++ ",\n" ++
    margin depth ++ ")"

/-- The text of a value, which names its type. -/
def ofValue : Value → Doc
  | .nil => .ofLines "Nil" fun _ => "Nil"
  | .bool b => .inTuple "Bool" (.ofLines (toString b) fun _ => toString b)
  | .number x => .inTuple "Number" (.ofLines x.inspect fun _ => x.inspect)
  | .string s => .inTuple "Str" (.ofLines (quoted s) fun _ => quoted s)

def binding (name : String) (v : Doc) : Doc :=
  .ofLines ("\x7b" ++ quoted name ++ ": " ++ v .compact ++ "\x7d") fun depth =>
    "\x7b\n" ++ margin (depth + 1) ++ quoted name ++ ": " ++ v (.indented (depth + 1)) ++ ",\n" ++
      margin depth ++ "\x7d"

def inEnvironment (depth : Nat) (current : Doc) : Doc :=
  .ofLines
    ("Environment \x7b depth: " ++ depth.repr ++ ", current: " ++ current .compact ++ " \x7d")
    fun level =>
      "Environment \x7b\n" ++
        margin (level + 1) ++ "depth: " ++ depth.repr ++ ",\n" ++
        margin (level + 1) ++ "current: " ++ current (.indented (level + 1)) ++ ",\n" ++
      margin level ++ "\x7d"

/-- Two documents are the same if their texts have the same characters in either layout. -/
theorem ext_toList {p q : Doc} (hcompact : (p .compact).toList = (q .compact).toList)
    (hindented : ∀ depth, (p (.indented depth)).toList = (q (.indented depth)).toList) : p = q := by
  funext layout
  apply String.toList_injective
  cases layout with
  | compact => exact hcompact
  | indented depth => exact hindented depth

theorem handle_eq (shown : Option Doc) :
    handle shown = inHandle (shown.getD (.text "<borrowed>")) := by
  apply ext_toList
  · simp [handle, tuple, record, group, labelled, inHandle, ofLines]
  · simp [handle, tuple, record, group, labelled, line, inHandle, ofLines]

theorem tuple_singleton (name : String) (part : Doc) : tuple name [part] = inTuple name part := by
  apply ext_toList
  · simp [tuple, group, inTuple, ofLines]
  · simp [tuple, group, line, inTuple, ofLines]

theorem text_eq (s : String) : text s = ofLines s fun _ => s := by
  funext layout
  cases layout with
  | compact => rfl
  | indented depth => rfl

theorem map_singleton (name : String) (v : Doc) : map [(quoted name, v)] = binding name v := by
  apply ext_toList
  · simp [map, group, labelled, binding, ofLines]
  · simp [map, group, labelled, line, binding, ofLines]

end Doc

theorem Value.doc_eq (v : Value) : v.doc = .ofValue v := by
  cases v with
  | nil => rw [doc, Doc.ofValue, Doc.text_eq]
  | bool b => rw [doc, Doc.ofValue, Doc.tuple_singleton, Doc.text_eq]
  | number x => rw [doc, Doc.ofValue, Doc.tuple_singleton, Doc.text_eq]
  | string s => rw [doc, Doc.ofValue, Doc.tuple_singleton, Doc.text_eq]

theorem Outline.scopeDoc_eq (bindings : Bindings) (parent : Doc) :
    scopeDoc bindings parent = .inScope (bindingsDoc bindings) parent := by
  apply Doc.ext_toList
  · simp [scopeDoc, Doc.record, Doc.group, Doc.labelled, Doc.inScope, Doc.ofLines]
  · simp [scopeDoc, Doc.record, Doc.group, Doc.labelled, Doc.line, Doc.inScope, Doc.ofLines]

theorem Environment.doc_eq (e : Environment) (o : Outline) :
    e.doc o = .inEnvironment e.depth o.doc := by
  apply Doc.ext_toList
  · simp [doc, Doc.record, Doc.group, Doc.labelled, Doc.text, Doc.inEnvironment, Doc.ofLines]
  · simp [doc, Doc.record, Doc.group, Doc.labelled, Doc.line, Doc.text, Doc.inEnvironment,
      Doc.ofLines]

/-- The text of the bindings of a scope, of which there is one at most. -/
def Scope.bindingText (s : Scope) : Doc :=
  match s.bindings.toList with
  | [] => .text "\x7b\x7d"
  | (name, v) :: _ => .binding name (.ofValue v)

theorem Scope.bindingsDoc_eq (s : Scope) (h : s.size ≤ 1) :
    Outline.bindingsDoc s.bindings = s.bindingText := by
  rw [size, ← Std.ExtTreeMap.length_toList] at h
  unfold Outline.bindingsDoc bindingText
  match s.bindings.toList, h with
  | [], _ => rfl
  | [(name, v)], _ =>
    exact (Doc.map_singleton name v.doc).trans (congrArg (Doc.binding name) v.doc_eq)

theorem Scope.handle_eq (s : Scope) (h : s.size ≤ 1) (parent : Doc) :
    Doc.handle (some (Outline.scopeDoc s.bindings parent)) =
      .inHandle (.inScope s.bindingText parent) := by
  rw [Doc.handle_eq, Option.getD_some, Outline.scopeDoc_eq, s.bindingsDoc_eq h]

namespace Arena

/-- The scopes from one outward, each the parent of the one before. The last of them is a root or is
held exclusively, and none of the others is. -/
inductive Displays (a : Arena) : Ref → List Ref → Prop
  | hidden {r : Ref} (hheld : a.scopes.hold r = .exclusive) : Displays a r [r]
  | root {r : Ref} (hheld : a.scopes.hold r ≠ .exclusive) (hp : (a.scope r).parent = none) :
      Displays a r [r]
  | inner {r p : Ref} {l : List Ref} (hheld : a.scopes.hold r ≠ .exclusive)
      (hp : (a.scope r).parent = some p) (outer : Displays a p l) : Displays a r (r :: l)

/-- What a text shows of a chain: its scopes up to the first that is held exclusively. -/
def shown (a : Arena) (l : List Ref) : List Ref := upTo (fun q => a.scopes.hold q = .exclusive) l

/-- A handle to the first of some scopes, each of which is the parent of the one before. -/
def chainText (a : Arena) : List Ref → Doc
  | [] => .text ""
  | q :: outer =>
    .inHandle <|
      if a.scopes.hold q = .exclusive then .text "<borrowed>"
      else .inScope (a.scope q).bindingText <|
        if outer = [] then .text "None" else .inTuple "Some" (a.chainText outer)

/-- None of the scopes binds more than one name, as far as they can be seen. -/
def Sparse (a : Arena) (l : List Ref) : Prop :=
  ∀ q ∈ l, a.scopes.hold q ≠ .exclusive → (a.scope q).size ≤ 1

/-- The scopes of the list look the same: the same ones are held exclusively, and the others have
the same bindings and the same parent. -/
structure SameShown (a b : Arena) (l : List Ref) : Prop where
  exclusive_iff : ∀ q ∈ l, b.scopes.hold q = .exclusive ↔ a.scopes.hold q = .exclusive
  scope_eq : ∀ q ∈ l, a.scopes.hold q ≠ .exclusive → b.scope q = a.scope q

variable {a b : Arena} {r : Ref} {l : List Ref}

theorem SameShown.refl (a : Arena) (l : List Ref) : a.SameShown a l :=
  ⟨fun _ _ => Iff.rfl, fun _ _ _ => rfl⟩

theorem SameShown.tail {q : Ref} (h : a.SameShown b (q :: l)) : a.SameShown b l :=
  ⟨fun p hp => h.exclusive_iff p (List.mem_cons_of_mem q hp),
    fun p hp => h.scope_eq p (List.mem_cons_of_mem q hp)⟩

theorem SameShown.sparse (h : a.SameShown b l) (hsparse : a.Sparse l) : b.Sparse l := by
  intro q hq hheld
  have hshown : a.scopes.hold q ≠ .exclusive := mt (h.exclusive_iff q hq).mpr hheld
  rw [h.scope_eq q hq hshown]
  exact hsparse q hq hshown

theorem SameShown.displays (hab : a.SameShown b l) (h : a.Displays r l) : b.Displays r l := by
  induction h with
  | @hidden r hheld => exact .hidden ((hab.exclusive_iff r (by simp)).mpr hheld)
  | @root r hheld hp =>
    refine .root (mt (hab.exclusive_iff r (by simp)).mp hheld) ?_
    rw [hab.scope_eq r (by simp) hheld, hp]
  | @inner r p l hheld hp _ ih =>
    refine .inner (mt (hab.exclusive_iff r (by simp)).mp hheld) ?_ (ih hab.tail)
    rw [hab.scope_eq r (by simp) hheld, hp]

/-- The text does not depend on anything but the scopes that it shows. -/
theorem SameShown.chainText_eq (h : a.SameShown b l) : b.chainText l = a.chainText l := by
  induction l with
  | nil => rfl
  | cons q outer ih =>
    have hheld := h.exclusive_iff q List.mem_cons_self
    rw [chainText, chainText, ih h.tail]
    by_cases hexclusive : a.scopes.hold q = .exclusive
    · rw [if_pos hexclusive, if_pos (hheld.mpr hexclusive)]
    · rw [if_neg hexclusive, if_neg (mt hheld.mp hexclusive),
        h.scope_eq q List.mem_cons_self hexclusive]

/-- What is defined in a scope that is held exclusively does not show. -/
theorem sameShown_defineInside (hheld : a.scopes.hold r = .exclusive) (x : String) (v : Value)
    (l : List Ref) : a.SameShown (a.defineInside r x v) l := by
  refine ⟨fun q _ => by rw [hold_defineInside], fun q _ hshown => ?_⟩
  have hne : q ≠ r := fun heq => hshown (heq ▸ hheld)
  rw [scope_defineInside, if_neg fun h => hne h.1]

theorem outlineWithin_hidden (hheld : a.scopes.hold r = .exclusive) (fuel : Nat) :
    a.outlineWithin fuel r = some .hidden := by
  unfold outlineWithin
  rw [hheld]

theorem outlineWithin_root (hheld : a.scopes.hold r ≠ .exclusive) (hp : (a.scope r).parent = none)
    (fuel : Nat) : a.outlineWithin fuel r = some (.root (a.scope r).bindings) := by
  unfold outlineWithin
  cases hhold : a.scopes.hold r with
  | exclusive => exact absurd hhold hheld
  | shared _ => rw [hp]

theorem outlineWithin_inner {p : Ref} (hheld : a.scopes.hold r ≠ .exclusive)
    (hp : (a.scope r).parent = some p) (fuel : Nat) :
    a.outlineWithin (fuel + 1) r =
      (a.outlineWithin fuel p).map (.enclosed (a.scope r).bindings) := by
  conv_lhs => unfold outlineWithin
  cases hhold : a.scopes.hold r with
  | exclusive => exact absurd hhold hheld
  | shared _ => simp only [hp]

namespace Displays

theorem exists_cons (h : a.Displays r l) : ∃ outer, l = r :: outer := by
  cases h with
  | hidden _ => exact ⟨[], rfl⟩
  | root _ _ => exact ⟨[], rfl⟩
  | inner _ _ _ => exact ⟨_, rfl⟩

/-- All that is shown but the last has a parent, so it is among the scopes made so far. -/
theorem lt_size_of_mem_dropLast (h : a.Displays r l) : ∀ q ∈ l.dropLast, q < a.scopes.size := by
  induction h with
  | hidden _ => simp
  | root _ _ => simp
  | inner _ hp outer ih =>
    obtain ⟨_, rfl⟩ := outer.exists_cons
    intro q hq
    simp only [List.dropLast_cons_cons, List.mem_cons] at hq
    rcases hq with rfl | hq
    · exact lt_size_of_parent hp
    · exact ih q hq

theorem length_le (h : a.Displays r l) (hl : l.Nodup) : l.length ≤ a.fuel + 1 := by
  have hnodup : l.dropLast.Nodup := hl.sublist (List.dropLast_sublist l)
  have hlen := length_le_of_nodup hnodup h.lt_size_of_mem_dropLast
  rw [List.length_dropLast] at hlen
  rw [fuel]
  omega

/-- The outline is found, and has the text of what is shown. -/
theorem outlineWithin (h : a.Displays r l) (hsparse : a.Sparse l) {fuel : Nat}
    (hfuel : l.length ≤ fuel + 1) :
    ∃ o, a.outlineWithin fuel r = some o ∧ o.isOrderFree = true ∧ o.doc = a.chainText l := by
  induction h generalizing fuel with
  | @hidden r hheld =>
    refine ⟨.hidden, outlineWithin_hidden hheld fuel, rfl, ?_⟩
    rw [Outline.doc, Outline.inner, Doc.handle_eq, chainText, if_pos hheld, Option.getD_none]
  | @root r hheld hp =>
    have hsize : (a.scope r).size ≤ 1 := hsparse r (by simp) hheld
    refine ⟨.root (a.scope r).bindings, outlineWithin_root hheld hp fuel, decide_eq_true hsize, ?_⟩
    rw [Outline.doc, Outline.inner, Scope.handle_eq _ hsize, chainText, if_neg hheld, if_pos rfl]
  | @inner r p l hheld hp outer ih =>
    obtain ⟨rest, rfl⟩ := outer.exists_cons
    have hsize : (a.scope r).size ≤ 1 := hsparse r (by simp) hheld
    simp only [List.length_cons] at hfuel
    obtain ⟨fuel, rfl⟩ : ∃ k, fuel = k + 1 := Nat.exists_eq_succ_of_ne_zero (by omega)
    have hfuel' : (p :: rest).length ≤ fuel + 1 := by
      simp only [List.length_cons]
      omega
    obtain ⟨o, ho, horder, htext⟩ := ih (fun q hq => hsparse q (by simp [hq])) hfuel'
    refine ⟨.enclosed (a.scope r).bindings o, ?_, ?_, ?_⟩
    · rw [outlineWithin_inner hheld hp, ho, Option.map_some]
    · rw [Outline.isOrderFree, horder, Bool.and_true]
      exact decide_eq_true hsize
    · have hparent : Doc.handle o.inner = a.chainText (p :: rest) := htext
      rw [Outline.doc, Outline.inner, Scope.handle_eq _ hsize, chainText, if_neg hheld,
        if_neg (List.cons_ne_nil p rest), hparent, Doc.tuple_singleton]

theorem outline (h : a.Displays r l) (hl : l.Nodup) (hsparse : a.Sparse l) :
    ∃ o, a.outline r = .ok o ∧ o.isOrderFree = true ∧ o.doc = a.chainText l := by
  obtain ⟨o, ho, hrest⟩ := h.outlineWithin hsparse (h.length_le hl)
  exact ⟨o, by rw [Arena.outline, ho], hrest⟩

end Displays

theorem Chain.displays (h : a.Chain r l) : a.Displays r (a.shown l) := by
  induction h with
  | @root r hp =>
    by_cases hheld : a.scopes.hold r = .exclusive
    · simpa [shown, upTo] using .hidden hheld
    · simpa [shown, upTo] using .root hheld hp
  | @inner r p l hp outer ih =>
    by_cases hheld : a.scopes.hold r = .exclusive
    · simpa [shown, upTo, hheld] using .hidden hheld
    · simpa [shown, upTo, hheld] using .inner hheld hp ih

end Arena

/-- To inspect a scope or an environment that has it as its current one is never refused, changes
nothing and answers the text, that of the environment with the depth of its stack before it. -/
structure Session.Prints (σ : Session) (r : Ref) (text : Doc) : Prop where
  scope : ∀ layout, (ScopeStep.inspect layout).perform r σ = (.ok (.text (text layout)), σ)
  environment : ∀ (e : Environment) layout, e.current = r →
    (EnvironmentStep.inspect layout).perform e σ =
      (.ok (.text (Doc.inEnvironment e.depth text layout)), σ)

theorem Arena.Displays.prints {σ : Session} {r : Ref} {l : List Ref} (h : σ.arena.Displays r l)
    (hl : l.Nodup) (hsparse : σ.arena.Sparse l) : σ.Prints r (σ.arena.chainText l) := by
  obtain ⟨o, ho, horder, htext⟩ := h.outline hl hsparse
  constructor
  case scope =>
    intro layout
    simp [ScopeStep.perform, Session.inspect, ho, horder, htext]
  case environment =>
    intro e layout he
    simp [EnvironmentStep.perform, Session.inspect, he, ho, horder, htext, Environment.doc_eq]

/-- The text of a scope shows some scopes outward from it, as far as they can be seen, and nothing
else makes a difference to it. -/
structure Session.ShowsOnly (σ : Session) (r : Ref) (l : List Ref) : Prop where
  displays : σ.arena.Displays r l
  prints : σ.arena.Sparse l → σ.Prints r (σ.arena.chainText l)
  depends : σ.arena.Sparse l → ∀ τ : Session, σ.arena.SameShown τ.arena l →
    τ.Prints r (σ.arena.chainText l)

theorem Arena.Displays.showsOnly {σ : Session} {r : Ref} {l : List Ref} (h : σ.arena.Displays r l)
    (hl : l.Nodup) : σ.ShowsOnly r l where
  displays := h
  prints hsparse := h.prints hl hsparse
  depends hsparse τ hsame := by
    rw [← hsame.chainText_eq]
    exact (hsame.displays h).prints hl (hsame.sparse hsparse)

namespace Machine

/-- However the scopes of a run are held, the text of one of them, through a handle or through an
environment, shows the scopes of its chain, each of them once, up to a root or up to the first that
is held exclusively. If none of these binds more than one name, the text is always found, without a
refusal and without a change, and it is the same wherever they look the same. -/
theorem text_shows_chain {c : Machine} (hc : c.Reachable) (holds : Ref → Hold) {r : Ref}
    (hr : r < c.session.arena.scopes.size) :
    ∃ l, c.session.arena.Chain r l ∧ l.Nodup ∧ (∀ q ∈ l, q < c.session.arena.scopes.size) ∧
      (c.session.withHolds holds).ShowsOnly r ((c.session.withHolds holds).arena.shown l) := by
  obtain ⟨l, hl⟩ := hc.rooted r
  have hshown : ((c.session.withHolds holds).arena.shown l).Nodup :=
    hl.nodup.sublist (upTo_sublist _ l)
  exact ⟨l, hl, hl.nodup, hl.lt_size hc.sound.closed hr,
    (hl.withHolds holds).displays.showsOnly hshown⟩

/-- Blocks inside the global scope, each inside the one before, which bind the name to values of all
types. -/
def boundToEach : Machine := start.run <| .step (.newEnvironment "e") ::
  [Value.string "a \"b\"", .number ⟨0x8000000000000000⟩, .bool true, .nil].flatMap fun v =>
    [.step (.push "e" 1), .step (.environment "e" (.define "x" v))]

/-- The blocks, while the global scope is being written to. -/
def writtenOutside : Session := boundToEach.session.withHolds heldOutside

/-- The scopes of the blocks are shown, and the global scope only as one that is held, whatever is
bound in it meanwhile. -/
theorem text_shows_chain_writtenOutside :
    boundToEach.Reachable ∧ 4 < boundToEach.session.arena.scopes.size ∧
      boundToEach.session.arena.Chain 4 [4, 3, 2, 1, 0] ∧
      (ScopeStep.inspect .compact).perform 4 writtenOutside =
        (.ok (.text (
          "LocalScope(RefCell \x7b value: Scope \x7b " ++
            "bindings: \x7b\"x\": Nil\x7d, parent: Some(" ++
          "LocalScope(RefCell \x7b value: Scope \x7b " ++
            "bindings: \x7b\"x\": Bool(true)\x7d, parent: Some(" ++
          "LocalScope(RefCell \x7b value: Scope \x7b " ++
            "bindings: \x7b\"x\": Number(-0.0)\x7d, parent: Some(" ++
          "LocalScope(RefCell \x7b value: Scope \x7b " ++
            "bindings: \x7b\"x\": Str(\"a \\\"b\\\"\")\x7d, parent: Some(" ++
          "LocalScope(RefCell \x7b value: <borrowed> \x7d)) " ++
          "\x7d \x7d)) \x7d \x7d)) \x7d \x7d)) \x7d \x7d)")), writtenOutside) ∧
      ∀ y v, ((EnvironmentStep.inspect (.indented 0)).perform ⟨0, [1, 0]⟩
        { writtenOutside with arena := writtenOutside.arena.defineInside 0 y v }).1 =
          .ok (.text ("\n".intercalate [
            "Environment \x7b",
            "    depth: 2,",
            "    current: LocalScope(",
            "        RefCell \x7b",
            "            value: Scope \x7b",
            "                bindings: \x7b",
            "                    \"x\": Str(",
            "                        \"a \\\"b\\\"\",",
            "                    ),",
            "                \x7d,",
            "                parent: Some(",
            "                    LocalScope(",
            "                        RefCell \x7b",
            "                            value: <borrowed>,",
            "                        \x7d,",
            "                    ),",
            "                ),",
            "            \x7d,",
            "        \x7d,",
            "    ),",
            "\x7d"])) := by
  have hreach : boundToEach.Reachable := ⟨_, rfl⟩
  have hlt : 4 < boundToEach.session.arena.scopes.size := by decide +kernel
  have hblock : boundToEach.session.arena.Chain 1 [1, 0] :=
    .inner (by decide +kernel) (.root (by decide +kernel))
  have hchain : boundToEach.session.arena.Chain 4 [4, 3, 2, 1, 0] :=
    .inner (by decide +kernel) (.inner (by decide +kernel) (.inner (by decide +kernel) hblock))
  refine ⟨hreach, hlt, hchain, ?_, fun y v => ?_⟩
  · obtain ⟨l, hl, -, -, htext⟩ := text_shows_chain hreach heldOutside hlt
    obtain rfl := hl.unique hchain
    have hsparse : writtenOutside.arena.Sparse (writtenOutside.arena.shown [4, 3, 2, 1, 0]) := by
      unfold Arena.Sparse
      decide +kernel
    refine ((htext.prints hsparse).scope .compact).trans ?_
    refine congrArg (fun t => (Except.ok (Answer.text t), writtenOutside)) ?_
    decide +kernel
  · have hlt' : 1 < boundToEach.session.arena.scopes.size := Nat.lt_trans (by decide) hlt
    obtain ⟨l, hl, -, -, htext⟩ := text_shows_chain hreach heldOutside hlt'
    obtain rfl := hl.unique hblock
    have hsparse : writtenOutside.arena.Sparse (writtenOutside.arena.shown [1, 0]) := by
      unfold Arena.Sparse
      decide +kernel
    have hheld : writtenOutside.arena.scopes.hold 0 = .exclusive := by decide +kernel
    have hprints := htext.depends hsparse
      { writtenOutside with arena := writtenOutside.arena.defineInside 0 y v }
      (Arena.sameShown_defineInside hheld y v _)
    refine (congrArg Prod.fst (hprints.environment ⟨0, [1, 0]⟩ (.indented 0) rfl)).trans ?_
    refine congrArg (fun t => Except.ok (Answer.text t)) ?_
    decide +kernel

end Machine

end ScopeChain
