import Mathlib.Logic.Function.Iterate
import ScopeChain.Proofs.Levels
import ScopeChain.Proofs.Owners

/-!
Stacks and the parents of scopes. An environment has a life: it starts from a global scope, one that
is made with it or that of an older environment, and then scopes are pushed and popped. The stack of
an environment is the record of this: at its bottom is the global scope, every other scope on it is
on no other stack, and each has been put into the scope below it or, for a call, into the scope that
was passed in. So what is on a stack says how deep the chain of the current scope is.
-/
namespace ScopeChain

/-- How a scope has come onto a stack: for a block, or for a call with `parent` passed in. -/
inductive Push where
  | block
  | call (parent : Ref)
  deriving DecidableEq

/-- What has become of an environment. The first environment of its line, which others come from as
children, children of children and so on, was made in the move number `origin`. -/
structure Life where
  origin : Nat
  global : Ref
  pushes : List Push
  deriving DecidableEq

/-- The environments that are alive, by name. -/
abbrev Lives := String → Option Life

namespace Lives

open Function (update)

def change (lives : Lives) (name : String) (f : List Push → List Push) : Lives :=
  update lives name ((lives name).map fun l => { l with pushes := f l.pushes })

/-- The lives after a step, the move number `i`, in a session. -/
def after (lives : Lives) (σ : Session) (i : Nat) : Step → Lives
  | .newEnvironment name => update lives name (some ⟨i, σ.arena.scopes.size, []⟩)
  | .environment k (.child name) =>
    (lives k).elim lives fun l => update lives name (some { l with pushes := [] })
  | .push name times => lives.change name (List.cons .block)^[times]
  | .pushIn name parent =>
    σ.scopes[parent]?.elim lives fun r => lives.change name (List.cons (.call r))
  | .pop name times => lives.change name List.tail^[times]
  | _ => lives

end Lives

/-- The lives after some moves from `c` on, of which the first is the move number `i`. -/
def Machine.lives : Machine → Nat → Lives → List Move → Lives
  | _, _, lives, [] => lives
  | c, i, lives, m :: ms =>
    (m.perform c).lives (i + 1) (lives.after c.session i (m.plain c)) ms

namespace Arena

/-- The scopes of a stack, as their parents are, have been pushed so above the global scope `g`. -/
inductive Piled (a : Arena) (g : Ref) : List Push → List Ref → Prop
  | ground : Piled a g [] [g]
  | block {ps : List Push} {r top : Ref} {rs : List Ref} (hr : (a.scope r).parent = some top)
      (h : Piled a g ps (top :: rs)) : Piled a g (.block :: ps) (r :: top :: rs)
  | call {ps : List Push} {r p : Ref} {rs : List Ref} (hr : (a.scope r).parent = some p)
      (h : Piled a g ps rs) : Piled a g (.call p :: ps) (r :: rs)

variable {a b : Arena} {g r top : Ref} {p : Push} {ps above below : List Push} {rs : List Ref}

namespace Piled

theorem getLast?_eq (h : a.Piled g ps rs) : rs.getLast? = some g := by
  induction h with
  | ground => rfl
  | block hr h ih => rw [List.getLast?_cons_cons, ih]
  | call hr h ih => rw [List.getLast?_cons, ih, Option.getD_some]

theorem length_eq (h : a.Piled g ps rs) : rs.length = ps.length + 1 := by
  induction h with
  | ground => rfl
  | block hr h ih => rw [List.length_cons, ih, List.length_cons]
  | call hr h ih => rw [List.length_cons, ih, List.length_cons]

theorem ne_nil (h : a.Piled g ps rs) : rs ≠ [] := by
  apply List.ne_nil_of_length_pos
  have hlen := h.length_eq
  omega

theorem tail (h : a.Piled g (p :: ps) rs) : a.Piled g ps rs.tail := by
  cases h with
  | block hr h => exact h
  | call hr h => exact h

theorem of_parents (h : a.Piled g ps rs)
    (hparent : ∀ r ∈ rs, (b.scope r).parent = (a.scope r).parent) : b.Piled g ps rs := by
  induction h with
  | ground => exact .ground
  | block hr h ih =>
    refine .block ((hparent _ (by simp)).trans hr) (ih fun q hq => hparent q ?_)
    exact List.mem_cons_of_mem _ hq
  | call hr h ih =>
    refine .call ((hparent _ (by simp)).trans hr) (ih fun q hq => hparent q ?_)
    exact List.mem_cons_of_mem _ hq

/-- Where no call is on the stack, the stack is the chain of the scope on top of it. -/
theorem chain_of_blocks (h : a.Piled g ps rs) (hg : (a.scope g).parent = none)
    (hps : ∀ p ∈ ps, p = .block) : ∃ r, rs.head? = some r ∧ a.Chain r rs := by
  induction h with
  | ground => exact ⟨g, rfl, .root hg⟩
  | @block ps r top rs hr h ih =>
    obtain ⟨q, hq, hchain⟩ := ih fun p hp => hps p (by simp [hp])
    obtain rfl : top = q := Option.some.inj hq
    exact ⟨r, rfl, .inner hr hchain⟩
  | @call ps r p rs hr h ih =>
    have hcall := hps (.call p) (by simp)
    cases hcall

/-- Above the last call, the chain of the scope on top goes down the stack and then on from the
scope that was passed in for the call. -/
theorem chain_of_call {parent : Ref} {l : List Ref}
    (h : a.Piled g (above ++ .call parent :: below) rs) (habove : ∀ p ∈ above, p = .block)
    (hl : a.Chain parent l) :
    ∃ r, rs.head? = some r ∧ a.Chain r (rs.take (above.length + 1) ++ l) := by
  induction above generalizing rs with
  | nil =>
    cases h with
    | @call _ r _ rs hr h => exact ⟨r, rfl, .inner hr hl⟩
  | cons p above ih =>
    obtain rfl := habove p (by simp)
    cases h with
    | @block _ r top rs hr h =>
      obtain ⟨q, hq, hchain⟩ := ih h fun p hp => habove p (by simp [hp])
      obtain rfl : top = q := Option.some.inj hq
      exact ⟨r, rfl, .inner hr hchain⟩

end Piled

end Arena

/-! ### What a life leaves behind -/

/-- The scopes on a stack above its bottom are not on the other one. -/
def Environment.Apart (e f : Environment) : Prop :=
  (∀ r ∈ e.stack.dropLast, r ∉ f.stack) ∧ ∀ r ∈ f.stack.dropLast, r ∉ e.stack

/-- The environment is what the life has made of it. -/
structure Environment.Led (a : Arena) (e : Environment) (l : Life) : Prop where
  global_eq : e.global = l.global
  piled : a.Piled l.global l.pushes e.stack
  nodup : e.stack.Nodup

/-- The lives are those of the environments of a session, and have begun before the move `i`. -/
structure Session.Tracked (σ : Session) (lives : Lives) (i : Nat) : Prop where
  sound : σ.Sound
  known : ∀ n, σ.environments[n]?.isSome = (lives n).isSome
  led : ∀ (n : String) (e : Environment) (l : Life),
    σ.environments[n]? = some e → lives n = some l → e.Led σ.arena l
  apart : ∀ (n m : String) (e f : Environment),
    σ.environments[n]? = some e → σ.environments[m]? = some f → n ≠ m → e.Apart f
  origins : ∀ n m l k, lives n = some l → lives m = some k →
    (l.global = k.global ↔ l.origin = k.origin)
  past : ∀ n l, lives n = some l → l.origin < i

namespace Lives

open Function (update)

variable {lives : Lives} {n : String}

theorem update_cases {m : String} {l k : Life} (h : update lives n (some l) m = some k) :
    (n = m ∧ k = l) ∨ (n ≠ m ∧ lives m = some k) := by
  by_cases hm : n = m
  · subst hm
    rw [Function.update_self, Option.some.injEq] at h
    exact .inl ⟨rfl, h.symm⟩
  · rw [Function.update_of_ne (Ne.symm hm)] at h
    exact .inr ⟨hm, h⟩

theorem change_of_some {l : Life} (hl : lives n = some l) (f : List Push → List Push) :
    lives.change n f = update lives n (some { l with pushes := f l.pushes }) := by
  rw [change, hl, Option.map_some]

theorem change_of_none (hl : lives n = none) (f : List Push → List Push) :
    lives.change n f = lives := by
  rw [change, hl, Option.map_none, ← hl, Function.update_eq_self]

theorem change_change (lives : Lives) (n : String) (f g : List Push → List Push) :
    (lives.change n f).change n g = lives.change n (g ∘ f) := by
  rw [change, change, change, Function.update_self, Function.update_idem, Option.map_map]
  rfl

theorem change_id (lives : Lives) (n : String) : lives.change n id = lives := by
  rw [change]
  simp

end Lives

namespace Environment

variable {a b : Arena} {e f : Environment} {l : Life} {r : Ref} {p : Push}

theorem Apart.symm (h : e.Apart f) : f.Apart e := ⟨h.2, h.1⟩

/-- A scope that is on neither of two stacks keeps them apart when it is put onto one of them. -/
theorem Apart.topped (h : e.Apart f) (he : e.stack ≠ []) (hr : r ∉ f.stack) :
    (e.topped [r]).Apart f := by
  constructor
  · intro q hq
    have hcons : q ∈ (r :: e.stack).dropLast := hq
    rw [List.dropLast_cons_of_ne_nil he, List.mem_cons] at hcons
    rcases hcons with rfl | hq
    · exact hr
    · exact h.1 q hq
  · intro q hq hmem
    rcases List.mem_cons.mp hmem with rfl | hmem
    · exact hr ((List.dropLast_sublist _).mem hq)
    · exact h.2 q hq hmem

theorem Apart.tail (h : e.Apart f) : ({ e with stack := e.stack.tail } : Environment).Apart f := by
  constructor
  · intro q hq
    apply h.1 q
    rw [← List.tail_dropLast] at hq
    exact List.mem_of_mem_tail hq
  · exact fun q hq hmem => h.2 q hq (List.mem_of_mem_tail hmem)

namespace Led

theorem stack_ne_nil (h : e.Led a l) : e.stack ≠ [] := h.piled.ne_nil

theorem of_grows (h : e.Led a l) (he : e.Within a) (hgrows : Arena.Grows a b) : e.Led b l where
  global_eq := h.global_eq
  piled := h.piled.of_parents fun q hq => hgrows.parent_eq q (he q (List.mem_cons_of_mem _ hq))
  nodup := h.nodup

theorem current_eq (h : e.Led a l) : e.stack.head? = some e.current := by
  obtain ⟨r, rs, hstack⟩ := List.exists_cons_of_ne_nil h.stack_ne_nil
  rw [current, hstack]
  rfl

/-- The bottom of a stack is not above the bottom of any other, nor of its own. -/
theorem global_not_mem_dropLast (h : e.Led a l) : e.global ∉ e.stack.dropLast := by
  intro hmem
  have hlast := h.piled.getLast?_eq
  have hsplit := List.dropLast_append_getLast? e.global (by rw [hlast, h.global_eq]; rfl)
  have hnodup := h.nodup
  rw [← hsplit, List.nodup_append] at hnodup
  exact hnodup.2.2 e.global hmem e.global (by simp) rfl

end Led

end Environment

namespace Session.Tracked

open Function (update)
open Arena (Grows)

variable {σ τ : Session} {lives : Lives} {i j : Nat} {n : String} {e : Environment} {l : Life}

theorem keep (h : σ.Tracked lives i) (hτ : τ.Sound) (henv : τ.environments = σ.environments)
    (hgrows : Grows σ.arena τ.arena) (hij : i ≤ j) : τ.Tracked lives j where
  sound := hτ
  known n := by rw [henv, h.known]
  led n e l he hl := by
    rw [henv] at he
    exact (h.led n e l he hl).of_grows (h.sound.environment_within n e he) hgrows
  apart n m e f he hf := by
    rw [henv] at he hf
    exact h.apart n m e f he hf
  origins := h.origins
  past n l hl := Nat.lt_of_lt_of_le (h.past n l hl) hij

theorem mono (h : σ.Tracked lives i) (hij : i ≤ j) : σ.Tracked lives j :=
  h.keep h.sound rfl (.refl _) hij

/-- An environment with its life under one name, all others as they were. -/
theorem bind (h : σ.Tracked lives i) (hτ : τ.Sound) (hgrows : Grows σ.arena τ.arena)
    (henv : ∀ m, τ.environments[m]? = if n = m then some e else σ.environments[m]?)
    (hled : e.Led τ.arena l)
    (hapart : ∀ (m : String) (f : Environment), n ≠ m → σ.environments[m]? = some f → e.Apart f)
    (horigins : ∀ m k, n ≠ m → lives m = some k → (l.global = k.global ↔ l.origin = k.origin))
    (hpast : l.origin < j) (hij : i ≤ j) : τ.Tracked (update lives n (some l)) j where
  sound := hτ
  known m := by
    rw [henv]
    by_cases hm : n = m
    · subst hm
      simp
    · rw [if_neg hm, Function.update_of_ne (Ne.symm hm), h.known]
  led m f k hf hk := by
    rw [henv] at hf
    rcases bound_cases hf with ⟨rfl, rfl⟩ | ⟨hm, hf⟩
    · rw [Function.update_self, Option.some.injEq] at hk
      exact hk ▸ hled
    · rw [Function.update_of_ne (Ne.symm hm)] at hk
      exact (h.led m f k hf hk).of_grows (h.sound.environment_within m f hf) hgrows
  apart m k f g hf hg hmk := by
    rw [henv] at hf hg
    rcases bound_cases hf with ⟨rfl, rfl⟩ | ⟨hm, hf'⟩
    · rw [if_neg hmk] at hg
      exact hapart k g hmk hg
    · rcases bound_cases hg with ⟨rfl, rfl⟩ | ⟨hk, hg'⟩
      · exact (hapart m f hm hf').symm
      · exact h.apart m k f g hf' hg' hmk
  origins m k x y hx hy := by
    rcases Lives.update_cases hx with ⟨rfl, rfl⟩ | ⟨hm, hx'⟩
    · rcases Lives.update_cases hy with ⟨rfl, rfl⟩ | ⟨hk, hy'⟩
      · exact ⟨fun _ => rfl, fun _ => rfl⟩
      · exact horigins k y hk hy'
    · rcases Lives.update_cases hy with ⟨rfl, rfl⟩ | ⟨hk, hy'⟩
      · rw [eq_comm, horigins m x hm hx', eq_comm]
      · exact h.origins m k x y hx' hy'
  past m k hk := by
    rcases Lives.update_cases hk with ⟨rfl, rfl⟩ | ⟨hm, hk⟩
    · exact hpast
    · exact Nat.lt_of_lt_of_le (h.past m k hk) hij

/-- A change of one stack that leaves its environment in the line that it comes from. -/
theorem restack (h : σ.Tracked lives i) (hl : lives n = some l)
    {change : Environment → Arena → Environment × Arena} (f : List Push → List Push)
    (hfollows : Follows Grows σ (σ.restack n change e))
    (hled : (change e σ.arena).1.Led (change e σ.arena).2 { l with pushes := f l.pushes })
    (hapart : ∀ (m : String) (g : Environment), n ≠ m → σ.environments[m]? = some g →
      (change e σ.arena).1.Apart g) :
    (σ.restack n change e).Tracked (lives.change n f) i := by
  rw [Lives.change_of_some hl]
  exact h.bind hfollows.sound hfollows.arena (σ.environments_restack n change e) hled hapart
    (fun m k _ hk => h.origins n m l k hl hk) (h.past n l hl) (Nat.le_refl i)

/-- A scope that has just been made is put onto one stack, and is on no other. -/
theorem push (h : σ.Tracked lives i) (he : σ.environments[n]? = some e) (hl : lives n = some l)
    {change : Environment → Arena → Environment × Arena} (p : Push)
    (htop : (change e σ.arena).1 = e.topped [σ.arena.scopes.size])
    (hfollows : Follows Grows σ (σ.restack n change e))
    (hpiled : (change e σ.arena).2.Piled l.global (p :: l.pushes)
      (σ.arena.scopes.size :: e.stack)) :
    (σ.restack n change e).Tracked (lives.change n (List.cons p)) i := by
  have hled := h.led n e l he hl
  have hnew : ∀ (m : String) (f : Environment), σ.environments[m]? = some f →
      σ.arena.scopes.size ∉ f.stack := by
    intro m f hf hmem
    have hlt := h.sound.environment_within m f hf _ (List.mem_cons_of_mem _ hmem)
    exact Nat.lt_irrefl _ hlt
  refine h.restack hl _ hfollows ⟨?_, ?_, ?_⟩ fun m f hm hf => ?_
  · rw [htop]
    exact hled.global_eq
  · rw [htop]
    exact hpiled
  · rw [htop]
    exact List.nodup_cons.mpr ⟨hnew n e he, hled.nodup⟩
  · rw [htop]
    exact (h.apart n m e f he hf hm).topped hled.stack_ne_nil (hnew m f hf)

theorem pushBlock (h : σ.Tracked lives i) (he : σ.environments[n]? = some e)
    (hl : lives n = some l) :
    (σ.restack n Environment.push e).Tracked (lives.change n (List.cons .block)) i := by
  have hled := h.led n e l he hl
  have hwithin := h.sound.environment_within n e he
  have hfollows := (restack_follows h.sound n hwithin.push).grows
  have hold := (hled.of_grows hwithin hfollows.arena).piled
  have hparent : ((e.push σ.arena).2.scope σ.arena.scopes.size).parent = some e.current :=
    congrArg Scope.parent
      ((σ.arena.scopes.value_alloc (.enclosedBy e.current) _).trans (if_pos rfl))
  refine h.push he hl .block rfl hfollows ?_
  obtain ⟨rs, hstack⟩ := List.head?_eq_some_iff.mp hled.current_eq
  rw [hstack] at hold ⊢
  exact .block hparent hold

theorem pushCall (h : σ.Tracked lives i) (he : σ.environments[n]? = some e)
    (hl : lives n = some l) {r : Ref} (hr : r < σ.arena.scopes.size) :
    (σ.restack n (·.pushIn r) e).Tracked (lives.change n (List.cons (.call r))) i := by
  have hled := h.led n e l he hl
  have hwithin := h.sound.environment_within n e he
  have hfollows : Follows Grows σ (σ.restack n (·.pushIn r) e) :=
    (restack_follows h.sound n (hwithin.pushIn hr)).grows
  have hold := (hled.of_grows hwithin hfollows.arena).piled
  have hparent : ((e.pushIn r σ.arena).2.scope σ.arena.scopes.size).parent = some r :=
    congrArg Scope.parent ((σ.arena.scopes.value_alloc (.enclosedBy r) _).trans (if_pos rfl))
  exact h.push he hl (.call r) rfl hfollows (.call hparent hold)

theorem pop (h : σ.Tracked lives i) (he : σ.environments[n]? = some e) (hl : lives n = some l) :
    (σ.restack n Environment.pop e).Tracked (lives.change n List.tail) i := by
  have hled := h.led n e l he hl
  have hwithin := h.sound.environment_within n e he
  have hfollows := (restack_follows h.sound n hwithin.pop).grows
  have hlen := hled.piled.length_eq
  refine h.restack hl _ hfollows ?_ fun m f hm hf => ?_
  · have hold := hled.of_grows hwithin hfollows.arena
    cases hpushes : l.pushes with
    | nil =>
      have halone : ¬ 1 < e.stack.length := by
        rw [hlen, hpushes]
        simp
      have hkept : e.pop σ.arena = (e, σ.arena) := by
        simp only [Environment.pop, Environment.depth, halone, if_false]
      rw [hkept, List.tail_nil, ← hpushes]
      exact hled
    | cons p ps =>
      have hmore : 1 < e.stack.length := by
        rw [hlen, hpushes]
        simp
      have hpopped : (e.pop σ.arena).1 = { e with stack := e.stack.tail } := by
        simp only [Environment.pop, Environment.depth, hmore, if_true]
      have hpiled := hold.piled
      rw [hpushes] at hpiled
      rw [hpopped]
      exact ⟨hled.global_eq, hpiled.tail, hled.nodup.sublist (List.tail_sublist _)⟩
  · have hapart := h.apart n m e f he hf hm
    unfold Environment.pop
    split
    · exact hapart.tail
    · exact hapart

theorem unknown (h : σ.Tracked lives i) (he : σ.environments[n]? = none) : lives n = none := by
  have hknown := h.known n
  rwa [he, Option.isSome_none, eq_comm, Option.isSome_eq_false_iff,
    Option.isNone_iff_eq_none] at hknown

theorem exists_life (h : σ.Tracked lives i) (he : σ.environments[n]? = some e) :
    ∃ l, lives n = some l := by
  rw [← Option.isSome_iff_exists, ← h.known n, he]
  rfl

theorem exists_environment (h : σ.Tracked lives i) (hl : lives n = some l) :
    ∃ e, σ.environments[n]? = some e := by
  rw [← Option.isSome_iff_exists, h.known n, hl]
  rfl

/-- What is done to one stack many times over. -/
theorem repeated {change : Environment → Arena → Environment × Arena} {f : List Push → List Push}
    (hchange : ∀ {σ : Session} {lives : Lives} {e : Environment} {l : Life}, σ.Tracked lives i →
      σ.environments[n]? = some e → lives n = some l →
      (σ.restack n change e).Tracked (lives.change n f) i)
    (h : σ.Tracked lives i) (times : Nat) :
    (Session.repeated (Step.restack n change) times σ).2.Tracked (lives.change n f^[times]) i := by
  cases he : σ.environments[n]? with
  | none =>
    rw [Step.repeated_restack_unknown he, Lives.change_of_none (h.unknown he)]
    exact h
  | some e =>
    obtain ⟨l, hl⟩ := h.exists_life he
    induction times generalizing σ lives e l with
    | zero =>
      have hsame : lives.change n f^[0] = lives := lives.change_id n
      rw [hsame]
      exact h
    | succ times ih =>
      have hknown := (σ.environments_restack n change e n).trans (if_pos rfl)
      have hlife := congrFun (Lives.change_of_some hl f) n
      rw [Function.update_self] at hlife
      have hrest := ih (hchange h he hl) _ hknown _ hlife
      rw [Lives.change_change] at hrest
      rw [Step.repeated_restack_succ he]
      exact hrest

/-- A child starts from the global scope of its parent, which is above the bottom of no stack. -/
theorem child (h : σ.Tracked lives i) {k : String} (he : σ.environments[k]? = some e)
    (hl : lives k = some l) :
    (σ.bindEnvironment n e.child).Tracked (update lives n (some { l with pushes := [] })) i := by
  have hled := h.led k e l he hl
  have hbottom : e.global ∈ e.stack := by
    apply List.mem_of_getLast?
    rw [hled.piled.getLast?_eq, hled.global_eq]
  have hwithin : e.child.Within σ.arena := by
    intro r hr
    obtain rfl : r = e.global := by simpa [Environment.child, Environment.ofGlobal] using hr
    exact (h.sound.environment_within k e he).global_lt
  refine h.bind (h.sound.bindEnvironment hwithin n) (.refl _)
    (environments_bindEnvironment σ n e.child) ⟨hled.global_eq, ?_, List.pairwise_singleton _ _⟩
    (fun m f _ hf => ?_) (fun m x _ hx => h.origins k m l x hl hx) (h.past k l hl) (Nat.le_refl i)
  · show σ.arena.Piled l.global [] [e.global]
    rw [hled.global_eq]
    exact .ground
  · constructor
    · intro r hr
      cases hr
    · intro r hr hmem
      obtain rfl : r = e.global := List.mem_singleton.mp hmem
      by_cases hk : k = m
      · subst hk
        obtain rfl : e = f := Option.some.inj (he.symm.trans hf)
        exact hled.global_not_mem_dropLast hr
      · exact (h.apart k m e f he hf hk).2 _ hr hbottom

/-- A global scope that has just been made belongs to no other environment. -/
theorem create (h : σ.Tracked lives i) :
    ((Step.newEnvironment n).perform σ).2.Tracked
      (update lives n (some ⟨i, σ.arena.scopes.size, []⟩)) (i + 1) := by
  have hfollows := (Step.newEnvironment n).perform_grows h.sound
  have hnew : ∀ (m : String) (f : Environment), σ.environments[m]? = some f →
      ∀ r ∈ f.global :: f.stack, r ≠ σ.arena.scopes.size := by
    intro m f hf r hr
    exact Nat.ne_of_lt (h.sound.environment_within m f hf r hr)
  refine h.bind (e := .ofGlobal σ.arena.scopes.size) hfollows.sound hfollows.arena
    (environments_bindEnvironment _ n _) ⟨rfl, .ground, List.pairwise_singleton _ _⟩
    (fun m f _ hf => ?_) (fun m k _ hk => ?_) (Nat.lt_succ_self i) (Nat.le_succ i)
  · constructor
    · intro r hr
      cases hr
    · intro r hr hmem
      have hmem' := (List.dropLast_sublist f.stack).mem hr
      exact hnew m f hf r (List.mem_cons_of_mem _ hmem') (List.mem_singleton.mp hmem)
  · obtain ⟨f, hf⟩ := h.exists_environment hk
    have hglobal := hnew m f hf f.global (by simp)
    have hpast := h.past m k hk
    rw [(h.led m f k hf hk).global_eq] at hglobal
    constructor
    · exact fun heq => absurd heq.symm hglobal
    · intro heq
      exact absurd heq.symm (Nat.ne_of_lt hpast)

theorem keepEnvironments (h : σ.Tracked lives i) (s : Step)
    (henv : (s.perform σ).2.environments = σ.environments) :
    (s.perform σ).2.Tracked lives (i + 1) := by
  have hgrows := s.perform_grows h.sound
  exact h.keep hgrows.sound henv hgrows.arena (Nat.le_succ i)

theorem environment (h : σ.Tracked lives i) (k : String) (s : EnvironmentStep) :
    ((Step.environment k s).perform σ).2.Tracked (lives.after σ i (.environment k s)) (i + 1) := by
  cases he : σ.environments[k]? with
  | none =>
    have hlives : lives.after σ i (.environment k s) = lives := by
      cases s with
      | child x => simp only [Lives.after, h.unknown he, Option.elim_none]
      | _ => rfl
    rw [hlives]
    exact h.keepEnvironments _ (by simp only [Step.perform, onEnvironment, he])
  | some e =>
    have hkeep := h.keepEnvironments (.environment k s)
    rw [Step.perform_environment he] at hkeep ⊢
    cases s with
    | child x =>
      obtain ⟨l, hl⟩ := h.exists_life he
      simp only [Lives.after, hl, Option.elim_some]
      exact (h.child he hl).mono (Nat.le_succ i)
    | _ => exact hkeep (EnvironmentStep.environments_eq (by simp) e σ)

theorem pushIn (h : σ.Tracked lives i) (n parent : String) :
    ((Step.pushIn n parent).perform σ).2.Tracked (lives.after σ i (.pushIn n parent)) (i + 1) := by
  cases hr : σ.scopes[parent]? with
  | none =>
    simp only [Step.perform, onScope, hr, Lives.after, Option.elim_none]
    exact h.mono (Nat.le_succ i)
  | some r =>
    simp only [Step.perform, onScope, Step.restack, onEnvironment, hr, Lives.after,
      Option.elim_some]
    cases he : σ.environments[n]? with
    | none =>
      rw [Lives.change_of_none (h.unknown he)]
      exact h.mono (Nat.le_succ i)
    | some e =>
      obtain ⟨l, hl⟩ := h.exists_life he
      exact (h.pushCall he hl (h.sound.scope_lt parent r hr)).mono (Nat.le_succ i)

theorem perform (h : σ.Tracked lives i) (s : Step) :
    (s.perform σ).2.Tracked (lives.after σ i s) (i + 1) := by
  cases s with
  | environment k s => exact h.environment k s
  | scope k s =>
    refine h.keepEnvironments _ ?_
    exact onScope_cases (P := fun outcome => outcome.2.environments = σ.environments) k rfl
      fun r _ => s.environments_eq r σ
  | push n times => exact (h.repeated pushBlock times).mono (Nat.le_succ i)
  | pushIn n parent => exact h.pushIn n parent
  | pop n times => exact (h.repeated pop times).mono (Nat.le_succ i)
  | newEnvironment n => exact h.create
  | same left right =>
    refine h.keepEnvironments _ ?_
    refine onScope_cases (P := fun outcome => outcome.2.environments = σ.environments) left rfl
      fun r _ => ?_
    exact onScope_cases (P := fun outcome => outcome.2.environments = σ.environments) right rfl
      fun q _ => rfl
  | newScope n => exact h.keepEnvironments (.newScope n) rfl
  | forget n => exact h.keepEnvironments (.forget n) rfl
  | pass => exact h.keepEnvironments .pass rfl

end Session.Tracked

namespace Machine

variable {c : Machine} {lives : Lives} {i : Nat}

theorem tracked_move (h : c.session.Tracked lives i) (m : Move) :
    (m.perform c).session.Tracked (lives.after c.session i (m.plain c)) (i + 1) := by
  have hgrows := m.perform_grows c h.sound
  rcases m.plain_or_environments_eq c with heq | ⟨hpass, henv⟩
  · rw [heq]
    exact h.perform (m.plain c)
  · rw [hpass]
    exact h.keep hgrows.sound henv hgrows.arena (Nat.le_succ i)

theorem tracked_run (h : c.session.Tracked lives i) (ms : List Move) :
    (c.run ms).session.Tracked (c.lives i lives ms) (i + ms.length) := by
  induction ms generalizing c lives i with
  | nil => exact h
  | cons m ms ih =>
    have hrest := ih (tracked_move h m)
    rwa [Nat.add_assoc, Nat.add_comm 1] at hrest

end Machine

/-! ### How stacks stand -/

/-- How an environment stands that has led the life `l`. -/
structure Environment.Stands (a : Arena) (e : Environment) (l : Life) : Prop where
  global_eq : e.global = l.global
  bottom : e.stack.getLast? = some l.global
  top : e.stack.head? = some e.current
  pop_of_alone : e.depth = 1 → e.pop a = (e, a)
  nodup : e.stack.Nodup
  piled : a.Piled l.global l.pushes e.stack
  /-- Without a call on the stack, the chain of the current scope is as deep as the stack. -/
  length_of_blocks : (∀ p ∈ l.pushes, p = .block) → (a.outward e.current).length = e.depth
  /-- Else it goes down the stack to the last call and on from the scope passed in for that. -/
  length_of_call : ∀ above parent below, l.pushes = above ++ .call parent :: below →
    (∀ p ∈ above, p = .block) →
    (a.outward e.current).length = 1 + (a.outward parent).length + above.length
  depth_eq : a.Free → (a.depth e.current).1 = .ok (min (a.outward e.current).length Arena.maxCount)

/-- How the environments of a session stand with each other that have led these lives. -/
structure Session.StacksStand (σ : Session) (lives : Lives) : Prop where
  known : ∀ n, σ.environments[n]?.isSome = (lives n).isSome
  stands : ∀ (n : String) (e : Environment) (l : Life),
    σ.environments[n]? = some e → lives n = some l → e.Stands σ.arena l
  /-- A scope above the bottom of a stack is on no other stack. -/
  apart : ∀ (n m : String) (e f : Environment),
    σ.environments[n]? = some e → σ.environments[m]? = some f → n ≠ m → e.Apart f
  same_bottom_iff : ∀ (n m : String) (e f : Environment) (l k : Life),
    σ.environments[n]? = some e → lives n = some l →
    σ.environments[m]? = some f → lives m = some k →
    (e.stack.getLast? = f.stack.getLast? ↔ l.origin = k.origin)

theorem Environment.Led.stands {a : Arena} {e : Environment} {l : Life} (h : e.Led a l)
    (hrooted : a.Rooted) (hglobal : (a.scope e.global).parent = none) : e.Stands a l where
  global_eq := h.global_eq
  bottom := h.piled.getLast?_eq
  top := h.current_eq
  pop_of_alone halone := by
    have hdepth : ¬ 1 < e.depth := by omega
    simp only [pop, hdepth, if_false]
  nodup := h.nodup
  piled := h.piled
  length_of_blocks hblocks := by
    obtain ⟨r, hr, hchain⟩ := h.piled.chain_of_blocks (h.global_eq ▸ hglobal) hblocks
    obtain rfl : e.current = r := Option.some.inj (h.current_eq.symm.trans hr)
    rw [hchain.outward_eq, depth]
  length_of_call above parent below hpushes habove := by
    obtain ⟨l, hl⟩ := hrooted parent
    have hpiled := h.piled
    rw [hpushes] at hpiled
    obtain ⟨r, hr, hchain⟩ := hpiled.chain_of_call habove hl
    obtain rfl : e.current = r := Option.some.inj (h.current_eq.symm.trans hr)
    have hlen := hpiled.length_eq
    rw [List.length_append, List.length_cons] at hlen
    rw [hchain.outward_eq, hl.outward_eq, List.length_append, List.length_take]
    omega
  depth_eq hfree := by
    obtain ⟨l, hl⟩ := hrooted e.current
    rw [Arena.depth_of_free hl hfree, hl.outward_eq]
    rfl

namespace Machine

theorem tracked_start : start.session.Tracked (fun _ => none) 0 := by
  have hnone : ∀ n : String, start.session.environments[n]? = none := by
    simp [start, Session.empty]
  refine ⟨Session.sound_empty, fun n => congrArg _ (hnone n), fun n e l he => ?_,
    fun n m e f he => ?_, fun n m l k hl => ?_, fun n l hl => ?_⟩
  · cases (hnone n).symm.trans he
  · cases (hnone n).symm.trans he
  · cases hl
  · cases hl

/-- In every state of a run, the stack of each environment is what its life has made of it. At its
bottom is the global scope that the environment started from, which it shares just with those of its
line, and every scope above is its own, enclosed by the one below it or by the one that was passed
in for a call; so the stack tells how deep the chain of the current scope is. -/
theorem stacks_stand (ms : List Move) :
    (start.run ms).session.StacksStand (start.lives 0 (fun _ => none) ms) := by
  have hreach : (start.run ms).Reachable := ⟨ms, rfl⟩
  have h := tracked_run tracked_start ms
  refine ⟨h.known, fun n e l he hl => ?_, h.apart, fun n m e f l k he hl hf hk => ?_⟩
  · exact (h.led n e l he hl).stands hreach.rooted (hreach.outermost n e he)
  · rw [(h.led n e l he hl).piled.getLast?_eq, (h.led m f k hf hk).piled.getLast?_eq,
      Option.some.injEq]
    exact h.origins n m l k hl hk

/-- A child of an environment that is in a block and, from there, in a call. -/
example : ["e", "d"].map (start.lives 0 (fun _ => none)
    [.step (.newEnvironment "e"), .enter (.scoped "e"), .step (.environment "e" (.capture "c")),
      .enter (.scopedIn "e" "c"), .step (.environment "e" (.child "d"))]) =
    [some ⟨0, 0, [.call 1, .block]⟩, some ⟨0, 0, []⟩] := by
  decide +kernel

end Machine

end ScopeChain
