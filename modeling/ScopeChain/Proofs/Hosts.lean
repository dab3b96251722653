import ScopeChain.Proofs.Guests
import ScopeChain.Proofs.Renamings

/-!
Hosts. An environment that has a guest among its scopes does not notice it: with the guest and
without it, whatever is done with the environment gives the same answers, and its scopes are the
same but for the names of those that are made.
-/
namespace ScopeChain

open Arena (Embeds Grows Keeps)

/-! ### What a host may do -/

/-- The handles `ys` and the environment `n` are not its own. -/
def EnvironmentStep.Avoids (n : String) (ys : List String) : EnvironmentStep → Prop
  | .child x => x ≠ n
  | .bindGlobal x | .capture x => x ∉ ys
  | _ => True

/-- A step on the environment `m`, which has to do with no other handles than its own. -/
def Step.IsOn (m n : String) (ys : List String) : Step → Prop
  | .environment k s => k = m ∧ s.Avoids n ys
  | .push k _ | .pop k _ => k = m
  | .pushIn k parent => k = m ∧ parent ∉ ys
  | _ => False

/-- Blocks are entered by a push and left by a pop. -/
def Turn.IsOn (m n : String) (ys : List String) (t : Turn) : Prop :=
  t.holdsNothing = true ∧ ∀ s ∈ t.steps, s.IsOn m n ys

/-- The names that the scopes of an arena have where there are other scopes, too. -/
def Arena.image (ρ : Ref → Ref) (a : Arena) (r : Ref) : Prop := ∃ q < a.scopes.size, ρ q = r

namespace Session

/-- In `β` there is all that the environment `m` and its handles refer to in `α`, by the names that
`ρ` says, and besides it the environment `n`, a guest. -/
structure Hosts (ρ : Ref → Ref) (α β : Session) (m n : String) (g : Ref) (xs : List String) :
    Prop where
  embeds : Embeds ρ α.arena β.arena
  known : ∃ e, α.environments[m]? = some e ∧ β.environments[m]? = some (e.map ρ)
  scopes_eq : ∀ x ∉ xs, β.scopes[x]? = α.scopes[x]?.map ρ
  guest : β.Guest n (α.arena.image ρ) g xs

variable {ρ : Ref → Ref} {α β τ : Session} {m n : String} {g : Ref} {xs ys : List String}
  {e : Environment}

/-- What a guest does is not to be noticed. -/
theorem Hosts.of_behaves (h : Hosts ρ α β m n g xs) (hmn : m ≠ n)
    (hτ : β.Behaves τ n (α.arena.image ρ) g xs ys) : Hosts ρ α τ m n g (ys ++ xs) where
  embeds := by
    have himage : ∀ r < α.arena.scopes.size, α.arena.image ρ (ρ r) := fun r hr => ⟨r, hr, rfl⟩
    refine ⟨fun r hr => ?_, h.embeds.injective, fun r hr => ?_, fun r hr => ?_, fun r hr => ?_⟩
    · exact Nat.lt_of_lt_of_le (h.embeds.lt_size r hr) hτ.spares.size_le
    · rw [hτ.spares.scope_eq _ (himage r hr), h.embeds.bindings_eq r hr]
    · rw [hτ.spares.scope_eq _ (himage r hr), h.embeds.parent_eq r hr]
    · rw [hτ.spares.hold_eq, h.embeds.hold_eq r hr]
  known := by
    obtain ⟨e, he, he'⟩ := h.known
    exact ⟨e, he, (hτ.spares.environments_eq m hmn).trans he'⟩
  scopes_eq x hx := by
    obtain ⟨hys, hxs⟩ : x ∉ ys ∧ x ∉ xs := by simpa using hx
    rw [hτ.spares.scopes_eq x hys, h.scopes_eq x hxs]
  guest := hτ.guest

/-! ### Steps of a host -/

/-- What has come of the two sessions, when both have answered alike. -/
structure Together (ρ : Ref → Ref) (α β : Session) (m n : String) (g : Ref) (xs : List String)
    (left right : Except Fault Answer × Session) : Prop where
  fst_eq : right.1 = left.1
  hosts : ∃ ρ', (∀ r < α.arena.scopes.size, ρ' r = ρ r) ∧ Hosts ρ' left.2 right.2 m n g xs

variable (h : Hosts ρ α β m n g xs) (hβ : β.Sound)
include h

theorem Hosts.together_refl (result : Except Fault Answer) :
    Together ρ α β m n g xs (result, α) (result, β) :=
  ⟨rfl, ρ, fun _ _ => rfl, h⟩

include hβ

theorem Hosts.withArena {a b : Arena} (hembeds : Embeds ρ a b)
    (hsize : a.scopes.size = α.arena.scopes.size) (hsize' : b.scopes.size = β.arena.scopes.size)
    (hgrows : Grows β.arena b) :
    Hosts ρ { α with arena := a } { β with arena := b } m n g xs := by
  refine ⟨hembeds, h.known, h.scopes_eq, ?_⟩
  refine h.guest.of_grows hβ hgrows rfl (fun _ _ => rfl) ?_ ?_ ?_
  · rintro r ⟨q, hq, rfl⟩
    exact hembeds.lt_size q hq
  · intro r hr
    show a.image ρ r ↔ α.arena.image ρ r
    rw [Arena.image, hsize, Arena.image]
  · intro r hr hlt
    exact absurd (hsize' ▸ hlt) (Nat.not_lt.mpr hr)

theorem Hosts.access {γ : Type} {act act' : Arena.Attempt γ} (hact : Arena.Writes act)
    (hact' : Arena.Writes act')
    (heq : (act' β.arena).1 = (act α.arena).1 ∧ Embeds ρ (act α.arena).2 (act' β.arena).2)
    (answer : γ → Answer) :
    Together ρ α β m n g xs (access act answer α) (access act' answer β) := by
  refine ⟨?_, ρ, fun _ _ => rfl, ?_⟩
  · rw [access_fst, access_fst, heq.1]
  · rw [access_snd, access_snd]
    exact h.withArena hβ heq.2 (hact.size_eq α.arena) (hact'.size_eq β.arena)
      (hact'.grows β.arena)

theorem Hosts.read {γ : Type} {act act' : Arena.Attempt γ} (hact : Arena.Reads act)
    (hact' : Arena.Reads act') (hfst : (act' β.arena).1 = (act α.arena).1) (answer : γ → Answer) :
    Together ρ α β m n g xs (Session.access act answer α) (Session.access act' answer β) :=
  h.access hβ hact.writes hact'.writes
    ⟨hfst, h.embeds.of_scopes_eq (hact α.arena) (hact' β.arena)⟩ answer

omit hβ in
theorem Hosts.bindScope {x : String} (hx : x ∉ xs) (r : Ref) :
    Hosts ρ (α.bindScope x r) (β.bindScope x (ρ r)) m n g xs := by
  have hguest := h.guest
  refine ⟨h.embeds, h.known, fun y hy => ?_, ⟨hguest.host_lt, hguest.root, hguest.stack, ?_,
    hguest.parents⟩⟩
  · rw [scopes_bindScope, scopes_bindScope]
    split
    · rfl
    · exact h.scopes_eq y hy
  · intro y hy q hq
    have hne : x ≠ y := fun heq => hx (heq ▸ hy)
    rw [scopes_bindScope, if_neg hne] at hq
    exact hguest.handles y hy q hq

omit hβ in
theorem Hosts.bindEnvironment {x : String} (hx : x ≠ n) (e : Environment) :
    Hosts ρ (α.bindEnvironment x e) (β.bindEnvironment x (e.map ρ)) m n g xs := by
  have hguest := h.guest
  obtain ⟨rs, hstack, hown⟩ := hguest.stack
  refine ⟨h.embeds, ?_, h.scopes_eq, ⟨hguest.host_lt, hguest.root, ⟨rs, ?_, hown⟩, hguest.handles,
    hguest.parents⟩⟩
  · obtain ⟨d, hd, hd'⟩ := h.known
    rw [environments_bindEnvironment, environments_bindEnvironment]
    split
    · exact ⟨e, rfl, rfl⟩
    · exact ⟨d, hd, hd'⟩
  · rw [environments_bindEnvironment, if_neg hx]
    exact hstack

/-- A new scope has the next name, with the guest and without it. -/
theorem Hosts.newChild (hα : α.Sound) {a b : Arena} {p : Ref} (hp : p < α.arena.scopes.size)
    (ha : a.scopes = (α.arena.newChild p).2.scopes)
    (hb : b.scopes = (β.arena.newChild (ρ p)).2.scopes) :
    Hosts (Function.update ρ α.arena.scopes.size β.arena.scopes.size) { α with arena := a }
      { β with arena := b } m n g xs := by
  have hembeds := (h.embeds.newChild hα.closed hp).of_scopes_eq ha hb
  have hgrows : Grows β.arena b :=
    ((Arena.keeps_newChild (h.embeds.lt_size p hp)).trans (.of_scopes_eq hb)).toGrows
  have hsize : a.scopes.size = α.arena.scopes.size + 1 := by
    rw [ha]
    exact Store.size_alloc _ _
  have hsize' : b.scopes.size = β.arena.scopes.size + 1 := by
    rw [hb]
    exact Store.size_alloc _ _
  have hupdate : ∀ r < α.arena.scopes.size,
      Function.update ρ α.arena.scopes.size β.arena.scopes.size r = ρ r :=
    fun r hr => Arena.update_of_lt hr _
  obtain ⟨e, he, he'⟩ := h.known
  refine ⟨hembeds, ⟨e, he, ?_⟩, fun x hx => ?_, ?_⟩
  · rw [he', e.map_congr fun r hr => hupdate r (hα.environment_within m e he r hr)]
  · rw [h.scopes_eq x hx]
    exact Option.map_congr fun r hr => (hupdate r (hα.scope_lt x r hr)).symm
  · refine h.guest.of_grows hβ hgrows rfl (fun _ _ => rfl) ?_ ?_ ?_
    · rintro r ⟨q, hq, rfl⟩
      exact hembeds.lt_size q hq
    · intro r hr
      constructor
      · rintro ⟨q, hq, heq⟩
        have hq' : q < α.arena.scopes.size + 1 := hsize ▸ hq
        rcases Nat.lt_succ_iff_lt_or_eq.mp hq' with hlt | rfl
        · exact ⟨q, hlt, (hupdate q hlt).symm.trans heq⟩
        · rw [Function.update_self] at heq
          exact absurd hr (heq ▸ Nat.lt_irrefl _)
      · rintro ⟨q, hq, rfl⟩
        exact ⟨q, Nat.lt_of_lt_of_eq (Nat.lt_succ_of_lt hq) hsize.symm, hupdate q hq⟩
    · intro r hr hlt
      have heq : r = β.arena.scopes.size := by
        have hlt' : r < β.arena.scopes.size + 1 := hsize' ▸ hlt
        omega
      exact ⟨α.arena.scopes.size, Nat.lt_of_lt_of_eq (Nat.lt_succ_self _) hsize.symm, by
        rw [Function.update_self, heq]⟩

/-- A scope more on the stack of the host. -/
theorem Hosts.restack (hα : α.Sound) (hmn : m ≠ n) (he : α.environments[m]? = some e)
    (change change' : Environment → Arena → Environment × Arena) {p : Ref}
    (hp : p < α.arena.scopes.size)
    (henv : (change e α.arena).1 = e.topped [α.arena.scopes.size])
    (henv' : (change' (e.map ρ) β.arena).1 = (e.map ρ).topped [β.arena.scopes.size])
    (ha : (change e α.arena).2.scopes = (α.arena.newChild p).2.scopes)
    (hb : (change' (e.map ρ) β.arena).2.scopes = (β.arena.newChild (ρ p)).2.scopes) :
    ∃ ρ', (∀ r < α.arena.scopes.size, ρ' r = ρ r) ∧
      Hosts ρ' (α.restack m change e) (β.restack m change' (e.map ρ)) m n g xs := by
  have hmade := h.newChild hβ hα hp ha hb
  have hbound := hmade.bindEnvironment hmn (e.topped [α.arena.scopes.size])
  have hupdate : ∀ r < α.arena.scopes.size,
      Function.update ρ α.arena.scopes.size β.arena.scopes.size r = ρ r :=
    fun r hr => Arena.update_of_lt hr _
  have htopped : (e.topped [α.arena.scopes.size]).map
      (Function.update ρ α.arena.scopes.size β.arena.scopes.size) =
        (e.map ρ).topped [β.arena.scopes.size] := by
    have hmap := e.map_congr fun r hr => hupdate r (hα.environment_within m e he r hr)
    rw [← hmap]
    simp [Environment.map, Environment.topped]
  rw [htopped] at hbound
  refine ⟨_, hupdate, ?_⟩
  rw [restack_eq, restack_eq, henv, henv']
  exact hbound

theorem Hosts.push (hα : α.Sound) (hmn : m ≠ n) (he : α.environments[m]? = some e) :
    ∃ ρ', (∀ r < α.arena.scopes.size, ρ' r = ρ r) ∧
      Hosts ρ' (α.restack m Environment.push e) (β.restack m Environment.push (e.map ρ))
        m n g xs := by
  refine h.restack hβ hα hmn he _ _ (hα.environment_within m e he).current_lt rfl rfl rfl ?_
  rw [← Environment.current_map ρ e]
  rfl

theorem Hosts.pop (hmn : m ≠ n) (e : Environment) :
    Hosts ρ (α.restack m Environment.pop e) (β.restack m Environment.pop (e.map ρ)) m n g xs := by
  have hpopped : ((e.map ρ).pop β.arena).1 = (e.pop α.arena).1.map ρ := by
    rw [Environment.pop_fst, Environment.pop_fst]
    simp only [Environment.map, List.length_map, List.map_drop]
  have hleft := e.scopes_pop α.arena
  have hright := (e.map ρ).scopes_pop β.arena
  have hkept := h.withArena hβ (h.embeds.of_scopes_eq hleft hright) (congrArg Store.size hleft)
    (congrArg Store.size hright) (Keeps.of_scopes_eq hright).toGrows
  have hbound := hkept.bindEnvironment hmn (e.pop α.arena).1
  rw [restack_eq, restack_eq, hpopped]
  exact hbound

/-- What goes together once goes together any number of times. -/
theorem Hosts.repeated (hα : α.Sound) {change : Environment → Arena → Environment × Arena}
    (hchange : ∀ {ρ : Ref → Ref} {α β : Session} {e : Environment}, Hosts ρ α β m n g xs → β.Sound →
      α.Sound → α.environments[m]? = some e → ∃ ρ', (∀ r < α.arena.scopes.size, ρ' r = ρ r) ∧
        Hosts ρ' (α.restack m change e) (β.restack m change (e.map ρ)) m n g xs)
    (hkeeps : ∀ (e : Environment) (a : Arena), e.Within a →
      Keeps a (change e a).2 ∧ (change e a).1.Within (change e a).2) (times : Nat) :
    Together ρ α β m n g xs (Session.repeated (Step.restack m change) times α)
      (Session.repeated (Step.restack m change) times β) := by
  induction times generalizing ρ α β with
  | zero => exact h.together_refl (.ok .done)
  | succ times ih =>
    obtain ⟨e, he, he'⟩ := h.known
    obtain ⟨ρ', hρ', hfirst⟩ := hchange h hβ hα he
    have hkept := restack_follows hα m (hkeeps e α.arena (hα.environment_within m e he))
    have hkept' := restack_follows hβ m
      (hkeeps (e.map ρ) β.arena (hβ.environment_within m _ he'))
    obtain ⟨hfst, ρ'', hρ'', hrest⟩ := ih hfirst hkept'.sound hkept.sound
    rw [Step.repeated_restack_succ he, Step.repeated_restack_succ he']
    refine ⟨hfst, ρ'', fun r hr => ?_, hrest⟩
    rw [hρ'' r (Nat.lt_of_lt_of_le hr hkept.arena.size_le), hρ' r hr]

end Session

open Session (Hosts Together)

variable {ρ : Ref → Ref} {α β : Session} {m n : String} {g : Ref} {xs ys : List String}

section Steps

variable (h : Hosts ρ α β m n g xs) (hα : α.Sound) (hβ : β.Sound) (hrooted : α.arena.Rooted)
  (hys : ∀ x ∈ xs, x ∈ ys)
include h hα hβ hrooted hys

theorem EnvironmentStep.together (s : EnvironmentStep) (hs : s.Avoids n ys) {e : Environment}
    (he : α.environments[m]? = some e) :
    Together ρ α β m n g xs (s.perform e α) (s.perform (e.map ρ) β) := by
  have hcurrent := (hα.environment_within m e he).current_lt
  have hglobal := (hα.environment_within m e he).global_lt
  cases s with
  | child x => exact ⟨rfl, ρ, fun _ _ => rfl, h.bindEnvironment hs e.child⟩
  | define x v =>
    exact h.access hβ (e.writes_define x v) ((e.map ρ).writes_define x v)
      (e.define_map h.embeds hcurrent x v) _
  | defineGlobal x v =>
    exact h.access hβ (Arena.writes_define e.global x v) (Arena.writes_define (ρ e.global) x v)
      (h.embeds.define hglobal x v) _
  | get t =>
    refine h.read hβ (Arena.reads_get e.current t) (Arena.reads_get (e.map ρ).current t) ?_ _
    rw [Environment.current_map]
    exact h.embeds.get_fst hα.closed hrooted hcurrent t
  | assign t v =>
    exact h.access hβ (e.writes_assign t v) ((e.map ρ).writes_assign t v)
      (e.assign_map h.embeds hcurrent hα.closed hrooted t v) _
  | bindGlobal x =>
    exact ⟨rfl, ρ, fun _ _ => rfl, h.bindScope (fun hx => hs (hys x hx)) e.global⟩
  | capture x =>
    have hbound := h.bindScope (fun hx => hs (hys x hx)) e.current
    rw [← Environment.current_map ρ e] at hbound
    exact ⟨rfl, ρ, fun _ _ => rfl, hbound⟩
  | inspect layout =>
    have houtline := h.embeds.outline_eq hα.closed hrooted hcurrent
    refine ⟨?_, ρ, fun _ _ => rfl, ?_⟩
    · simp only [perform, Session.inspect, Environment.current_map, houtline, Environment.doc_map]
      split
      · rfl
      · split <;> rfl
    · rw [perform, perform, Session.inspect_snd, Session.inspect_snd]
      exact h
  | list names =>
    refine h.read hβ (Arena.reads_list e.current names) (Arena.reads_list (e.map ρ).current names)
      ?_ _
    rw [Environment.current_map]
    exact h.embeds.list_fst hα.closed hrooted hcurrent names

theorem Step.together (hmn : m ≠ n) (s : Step) (hs : s.IsOn m n ys) :
    Together ρ α β m n g xs (s.perform α) (s.perform β) := by
  obtain ⟨e, he, he'⟩ := h.known
  cases s with
  | environment k s =>
    obtain ⟨rfl, hs⟩ := hs
    rw [perform_environment he, perform_environment he']
    exact s.together h hα hβ hrooted hys hs he
  | push k times =>
    obtain rfl : k = m := hs
    exact h.repeated hβ hα (fun h hβ hα he => h.push hβ hα hmn he) (fun _ _ he => he.push) times
  | pop k times =>
    obtain rfl : k = m := hs
    exact h.repeated hβ hα (fun h hβ _ _ => ⟨_, fun _ _ => rfl, h.pop hβ hmn _⟩)
      (fun _ _ he => he.pop) times
  | pushIn k parent =>
    obtain ⟨rfl, hparent⟩ := hs
    have hscopes := h.scopes_eq parent fun hx => hparent (hys parent hx)
    cases hr : α.scopes[parent]? with
    | none =>
      rw [hr, Option.map_none] at hscopes
      simp only [perform, Session.onScope, hr, hscopes]
      exact h.together_refl _
    | some r =>
      rw [hr, Option.map_some] at hscopes
      simp only [perform, Session.onScope, restack, Session.onEnvironment, hr, hscopes, he, he']
      exact ⟨rfl, h.restack hβ hα hmn he (fun e => e.pushIn r) (fun e => e.pushIn (ρ r))
        (hα.scope_lt parent r hr) rfl rfl rfl rfl⟩
  | _ => cases hs

omit hα hβ hrooted in
/-- Whether a block is entered is a matter of what is known by its names. -/
theorem Block.enter_fst_eq (b : Block) (hb : b.holdsNothing = true)
    (hs : ∀ s ∈ b.steps, s.IsOn m n ys) : (b.enter β).1 = (b.enter α).1 := by
  obtain ⟨e, he, he'⟩ := h.known
  match b with
  | .scoped k =>
    obtain rfl : k = m := hs (.push k 1) (by simp [steps])
    simp only [enter, Session.onEnvironment, he, he', enterFrame]
    simp [Environment.push, Environment.depth, Environment.map]
  | .scopedIn k parent =>
    obtain ⟨rfl, hparent⟩ : k = m ∧ parent ∉ ys := hs (.pushIn k parent) (by simp [steps])
    have hscopes := h.scopes_eq parent fun hx => hparent (hys parent hx)
    cases hr : α.scopes[parent]? with
    | none =>
      rw [hr, Option.map_none] at hscopes
      simp only [enter, Session.onScope, hr, hscopes]
    | some r =>
      rw [hr, Option.map_some] at hscopes
      simp only [enter, Session.onScope, Session.onEnvironment, hr, hscopes, he, he', enterFrame]
      simp [Environment.pushIn, Environment.depth, Environment.map]
  | .holding .. => cases hb
  | .catching => rfl

omit h hα hβ hrooted hys in
theorem Turn.steps_cases (t : Turn) : t.steps = [] ∨ ∃ s, t.steps = [s] := by
  have hblock : ∀ b : Block, b.steps = [] ∨ ∃ s, b.steps = [s] := by
    intro b
    cases b <;> simp [Block.steps]
  cases t with
  | step s result => exact .inr ⟨s, rfl⟩
  | refuse b f => exact hblock b
  | enter b bracket => exact hblock b
  | leave bracket => cases bracket <;> simp [steps, Bracket.steps]

theorem Turn.together (hmn : m ≠ n) {t : Turn} (ht : t.IsOn m n ys) (hholds : t.Holds β) :
    t.Holds α ∧ ∃ ρ', (∀ r < α.arena.scopes.size, ρ' r = ρ r) ∧
      Hosts ρ' (t.perform α) (t.perform β) m n g xs := by
  obtain ⟨hnothing, hsteps⟩ := ht
  constructor
  · cases t with
    | step s result =>
      have hs := s.together h hα hβ hrooted hys hmn (hsteps s (by simp [steps]))
      exact hs.fst_eq.symm.trans hholds
    | refuse b f => exact (b.enter_fst_eq h hys hnothing hsteps).symm.trans hholds
    | enter b bracket =>
      obtain ⟨entry, hentry⟩ := hholds
      exact ⟨entry, (b.enter_fst_eq h hys hnothing hsteps).symm.trans hentry⟩
    | leave bracket => trivial
  · rw [t.perform_eq_performAll hnothing, t.perform_eq_performAll hnothing]
    rcases t.steps_cases with hnone | ⟨s, hone⟩
    · rw [hnone]
      exact ⟨ρ, fun _ _ => rfl, h⟩
    · have hs := s.together h hα hβ hrooted hys hmn (hsteps s (by simp [hone]))
      rw [hone]
      exact hs.hosts

end Steps

end ScopeChain
