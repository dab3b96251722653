import Mathlib.Data.List.Induction
import ScopeChain.Proofs.Hosts

/-!
Environments that have nothing but the global scope in common. What is done with the one and with
the other may take turns in any order: as long as the other does not write to the global scope,
the one is as if it had been alone.
-/
namespace ScopeChain

open Arena (Embeds)
open Session (Guest Hosts)

/-- The turns of a host and those of a guest, in the order in which they happen. -/
abbrev Interleaving := List (Turn ⊕ BodyTurn)

namespace Interleaving

/-- All turns, the guest being the environment `n`. -/
def both (n : String) (ps : Interleaving) : List Turn := ps.map (Sum.elim id (BodyTurn.on n))

/-- The turns of the host. -/
def alone (ps : Interleaving) : List Turn := ps.filterMap (Sum.elim some fun _ => none)

/-- The handles that the guest has bound. -/
def captured (ps : Interleaving) : List String :=
  ps.flatMap (Sum.elim (fun _ => []) BodyTurn.captured)

theorem both_append (n : String) (ps qs : Interleaving) :
    both n (ps ++ qs) = both n ps ++ both n qs := List.map_append

theorem alone_append (ps qs : Interleaving) : alone (ps ++ qs) = alone ps ++ alone qs :=
  List.filterMap_append

theorem captured_append (ps qs : Interleaving) :
    captured (ps ++ qs) = captured ps ++ captured qs := List.flatMap_append

end Interleaving

namespace Session

variable {σ : Session} {ρ : Ref → Ref} {α β : Session} {m n : String} {g : Ref}
  {xs ys : List String}

theorem Hosts.congr (h : Hosts ρ α β m n g xs) (hxs : ∀ x, x ∈ ys ↔ x ∈ xs) :
    Hosts ρ α β m n g ys where
  embeds := h.embeds
  known := h.known
  scopes_eq x hx := h.scopes_eq x (mt (hxs x).mpr hx)
  guest := ⟨h.guest.host_lt, h.guest.root, h.guest.stack,
    fun x hx => h.guest.handles x ((hxs x).mp hx), h.guest.parents⟩

/-- A child has nothing but the global scope yet, so it is a guest among all scopes there are. -/
theorem hosts_child {e : Environment} (hroot : (σ.arena.scope e.global).parent = none)
    (hm : σ.environments[m]? = some e) (hn : σ.environments[n]? = some e.child) :
    Hosts id σ σ m n e.global [] where
  embeds := .refl σ.arena
  known := ⟨e, hm, by rw [hm, Environment.map_id]⟩
  scopes_eq x _ := by simp
  guest := by
    have hall : ∀ r, σ.arena.image id r ↔ r < σ.arena.scopes.size := by
      simp [Arena.image]
    refine ⟨fun r hr => (hall r).mp hr, hroot, ⟨[], hn, by simp⟩, by simp, fun r p hr hp _ => ?_⟩
    exact absurd ((hall r).mpr (Arena.lt_size_of_parent hp)) hr

/-- Through any number of turns the host has its scopes apart from those of the guest. -/
theorem hosts_take (hσ : σ.Sound) (hrooted : σ.arena.Rooted) (hmn : m ≠ n)
    (hchild : Hosts id σ σ m n g []) {ps : Interleaving} (hps : σ.Takes (ps.both n))
    (hys : ∀ x ∈ ps.captured, x ∈ ys) (hown : ∀ t, .inl t ∈ ps → t.IsOn m n ys)
    (hspares : ∀ pre u post, ps = pre ++ .inr u :: post →
      u.SparesGlobal n (Interleaving.captured pre) (σ.take (Interleaving.both n pre))) :
    σ.Takes ps.alone ∧ ∃ ρ : Ref → Ref, (∀ r < σ.arena.scopes.size, ρ r = r) ∧
      Hosts ρ (σ.take ps.alone) (σ.take (ps.both n)) m n g ps.captured := by
  induction ps using List.reverseRecOn with
  | nil => exact ⟨trivial, id, fun _ _ => rfl, hchild⟩
  | append_singleton qs p ih =>
    rw [Interleaving.both_append] at hps ⊢
    rw [Interleaving.alone_append, Interleaving.captured_append] at *
    obtain ⟨hqs, hlast⟩ := takes_append.mp hps
    obtain ⟨halone, ρ, hρ, hhosts⟩ := ih hqs (fun x hx => hys x (List.mem_append_left _ hx))
      (fun t ht => hown t (List.mem_append_left _ ht)) fun pre u post heq =>
        hspares pre u (post ++ [p]) (by simp [heq])
    have hα := hσ.take (Interleaving.alone qs)
    have hβ := hσ.take (Interleaving.both n qs)
    cases p with
    | inl t =>
      obtain ⟨hholds, ρ', hρ', hnext⟩ := Turn.together hhosts hα.sound hβ.sound
        (hrooted.of_grows hσ.closed hα.arena) (fun x hx => hys x (List.mem_append_left _ hx)) hmn
        (hown t (by simp)) hlast.1
      refine ⟨takes_append.mpr ⟨halone, hholds, trivial⟩, ρ', fun r hr => ?_, ?_⟩
      · rw [hρ' r (Nat.lt_of_lt_of_le hr hα.arena.size_le), hρ r hr]
      · rw [take_append, take_append]
        exact hnext.congr (by simp [Interleaving.captured])
    | inr u =>
      have hbehaves := u.behaves hhosts.guest hβ.sound (hrooted.of_grows hσ.closed hβ.arena)
        (hspares qs u [] rfl)
      have hnext := hhosts.of_behaves hmn hbehaves
      refine ⟨takes_append.mpr ⟨halone, trivial⟩, ρ, hρ, ?_⟩
      rw [take_append, take_append]
      exact hnext.congr (by simp [Interleaving.captured, or_comm])

end Session

namespace Machine

/-- In any state of a run, an environment and a child of it may take turns in any order. If
the child pushes in no scopes but those that it has captured itself, the environment has
nothing to do with these, and the child does not write to the global scope, then the
environment answers as it does alone, and it comes to the same stack with the same scopes on
it, up to the names of new ones. -/
theorem children_keep_apart {c : Machine} (hc : c.Reachable) {m n : String} (hmn : m ≠ n)
    {e : Environment} (hm : c.session.environments[m]? = some e)
    (hn : c.session.environments[n]? = some e.child) {ps : Interleaving}
    (hps : c.session.Takes (ps.both n)) (hown : ∀ t, .inl t ∈ ps → t.IsOn m n ps.captured)
    (hspares : ∀ pre u post, ps = pre ++ .inr u :: post →
      u.SparesGlobal n (Interleaving.captured pre) (c.session.take (Interleaving.both n pre))) :
    c.session.Takes ps.alone ∧ ∃ ρ : Ref → Ref, (∀ r < c.session.arena.scopes.size, ρ r = r) ∧
      Embeds ρ (c.session.take ps.alone).arena (c.session.take (ps.both n)).arena ∧
      ∃ d, (c.session.take ps.alone).environments[m]? = some d ∧
        d.Within (c.session.take ps.alone).arena ∧
        (c.session.take (ps.both n)).environments[m]? = some (d.map ρ) := by
  have hchild := Session.hosts_child (hc.outermost m e hm) hm hn
  obtain ⟨htakes, ρ, hρ, hhosts⟩ := Session.hosts_take hc.sound hc.rooted hmn hchild hps
    (fun _ hx => hx) hown hspares
  obtain ⟨d, hd, hd'⟩ := hhosts.known
  have hwithin := (hc.sound.take ps.alone).sound.environment_within m d hd
  exact ⟨htakes, ρ, hρ, hhosts.embeds, d, hd, hwithin, hd'⟩

/-- A global name, and a child of the environment. -/
def withChild : Machine := start.run
  [.step (.newEnvironment "e"), .step (.environment "e" (.define "x" .nil)),
    .step (.environment "e" (.child "c"))]

/-- Both are in a block of their own when the child hides the global name. -/
def hideInChild : Interleaving :=
  [.inr (.enter .frame), .inl (.enter (.scoped "e") (.frame "e")),
    .inr (.step (.define "x" (.bool true)) (.ok .done)),
    .inl (.step (.environment "e" (.get (.identifier "x" 1))) (.ok (.value .nil)))]

theorem children_keep_apart_hiding :
    withChild.Reachable ∧ withChild.session.environments["e"]? = some ⟨0, [0]⟩ ∧
      withChild.session.environments["c"]? = some (Environment.child ⟨0, [0]⟩) ∧
      withChild.session.Takes (hideInChild.both "c") ∧ withChild.session.Takes hideInChild.alone ∧
      ∃ ρ : Ref → Ref, (∀ r < 1, ρ r = r) ∧
        Embeds ρ (withChild.session.take hideInChild.alone).arena
          (withChild.session.take (hideInChild.both "c")).arena ∧
        ∃ d, (withChild.session.take hideInChild.alone).environments["e"]? = some d ∧
          d.Within (withChild.session.take hideInChild.alone).arena ∧
          (withChild.session.take (hideInChild.both "c")).environments["e"]? = some (d.map ρ) := by
  have hreach : withChild.Reachable := ⟨_, rfl⟩
  have hm : withChild.session.environments["e"]? = some ⟨0, [0]⟩ := rfl
  have hn : withChild.session.environments["c"]? = some (Environment.child ⟨0, [0]⟩) := rfl
  have htakes : withChild.session.Takes (hideInChild.both "c") :=
    ⟨⟨_, rfl⟩, ⟨_, rfl⟩, rfl, rfl, trivial⟩
  have hown : ∀ t, .inl t ∈ hideInChild → t.IsOn "e" "c" hideInChild.captured := by
    intro t ht
    obtain rfl | rfl : t = .enter (.scoped "e") (.frame "e") ∨
        t = .step (.environment "e" (.get (.identifier "x" 1))) (.ok (.value .nil)) := by
      simpa [hideInChild] using ht
    · exact ⟨rfl, by simp [Turn.steps, Block.steps, Step.IsOn]⟩
    · exact ⟨rfl, by simp [Turn.steps, Step.IsOn, EnvironmentStep.Avoids]⟩
  have hspares : ∀ pre u post, hideInChild = pre ++ .inr u :: post →
      u.SparesGlobal "c" (Interleaving.captured pre)
        (withChild.session.take (Interleaving.both "c" pre)) := by
    intro pre u post heq
    rcases pre with _ | ⟨p, _ | ⟨q, _ | ⟨r, _ | ⟨s, pre⟩⟩⟩⟩
    · obtain ⟨rfl, -⟩ : BodyTurn.enter .frame = u ∧ _ := by simpa [hideInChild] using heq
      simp [BodyTurn.SparesGlobal, BodyTurn.steps, BodyBlock.steps, BodyStep.SparesGlobal]
    · simp [hideInChild] at heq
    · obtain ⟨rfl, rfl, rfl, -⟩ : .inr (.enter .frame) = p ∧
          .inl (.enter (.scoped "e") (.frame "e")) = q ∧
          BodyTurn.step (.define "x" (.bool true)) (.ok .done) = u ∧ _ := by
        simpa [hideInChild] using heq
      intro s hs
      obtain rfl : s = .define "x" (.bool true) := by simpa [BodyTurn.steps] using hs
      intro d hd
      -- By now the child has a scope of its own on top.
      have hstack : (withChild.session.take
          (Interleaving.both "c" (hideInChild.take 2))).environments["c"]? = some ⟨0, [1, 0]⟩ := rfl
      obtain rfl := Option.some.inj (hstack.symm.trans hd)
      decide
    · simp [hideInChild] at heq
    · simp [hideInChild] at heq
  have hsize : withChild.session.arena.scopes.size = 1 := by decide +kernel
  obtain ⟨halone, ρ, hρ, hrest⟩ := children_keep_apart hreach (by decide) hm hn htakes hown hspares
  exact ⟨hreach, hm, hn, htakes, halone, ρ, fun r hr => hρ r (hsize ▸ hr), hrest⟩

end Machine

end ScopeChain
