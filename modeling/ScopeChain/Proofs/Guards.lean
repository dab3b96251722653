import ScopeChain.Proofs.Levels

/-!
Which scope a block pops when control leaves it. The pop takes whatever is on top by then, so it is
the scope that the block itself has pushed just if the body has popped its own pushes, and no more,
by the time it is left: at its end, at an error or by an abort.
-/
namespace ScopeChain

open Session (Fresh)

variable {σ τ : Session} {name : String} {e : Environment}

theorem Session.Alike.sound (h : σ.Alike τ) (hσ : σ.Sound) : τ.Sound := by
  obtain ⟨_, _, rfl⟩ := h
  exact ⟨hσ.closed, hσ.scope_lt, hσ.environment_within⟩

theorem Session.Alike.fresh {g : Ref} (h : σ.Alike τ) (hg : σ.Fresh e g) : τ.Fresh e g := by
  obtain ⟨_, _, rfl⟩ := h
  exact ⟨hg.made, hg.global_ne, hg.not_mem, hg.nonempty⟩

/-- A session in which the body of a block starts, `g` being the scope that the block has pushed
on the stack of `e`. -/
structure Session.Opens (σ : Session) (name : String) (e : Environment) (g : Ref) : Prop where
  sound : σ.Sound
  top : σ.environments[name]? = some (e.topped [g])
  fresh : σ.Fresh e g

/-- A frame has a scope of its own, which no stack has had before. -/
theorem Block.opens {b : Block} {entry : Option Report} (hσ : σ.Sound) (hground : σ.Grounded)
    (he : σ.environments[name]? = some e) (h : (b.enter σ).1 = .ok (.frame name, entry))
    (tag : Tag) :
    (b.opened tag σ).Opens name e σ.arena.scopes.size := by
  have halike := b.alike_opened tag σ
  have hsound := (b.enter_grows hσ).sound
  have henters := b.enters σ
  generalize b.enter σ = outcome at h halike hsound henters
  cases henters with
  | refused => cases h
  | hold => cases h
  | nothing => cases h
  | @frame _ _ f change hframe hf hchange =>
    cases h
    obtain rfl : f = e := Option.some.inj (hf.symm.trans he)
    have henv := σ.environments_restack name change f
    have htop : (σ.restack name change f).environments[name]? =
        some (f.topped [σ.arena.scopes.size]) := by rw [henv, if_pos rfl, hchange]
    have hwithin := hsound.environment_within name _ htop
    have hglobal : ∀ (n : String) (d : Environment), σ.environments[n]? = some d →
        d.global ≠ σ.arena.scopes.size :=
      fun n d hd => Nat.ne_of_lt (hσ.environment_within n d hd).global_lt
    have hfresh : (σ.restack name change f).Fresh f σ.arena.scopes.size := by
      refine ⟨hwithin _ (by simp [Environment.topped]), fun n d hd => ?_, fun hmem => ?_,
        hground.stack_ne_nil he⟩
      · rw [henv] at hd
        split at hd
        · obtain rfl : (change f σ.arena).1 = d := Option.some.inj hd
          rw [hchange]
          exact hglobal name f he
        · exact hglobal n d hd
      · exact Nat.lt_irrefl _ (hσ.environment_within name f he _ (List.mem_cons_of_mem _ hmem))
    exact ⟨halike.sound hsound, halike.environments_eq ▸ htop, halike.fresh hfresh⟩

/-- A pop takes off the scope on top, there being another below it. -/
theorem Environment.pop_topped {r : Ref} {rs : List Ref} (hbase : e.stack ≠ []) (a : Arena) :
    (e.topped (r :: rs)).pop a = (e.topped rs, a.emit (.popScope (e.topped rs).depth)) := by
  have hpos : 0 < e.stack.length := List.length_pos_iff.mpr hbase
  have hdepth : 1 < (e.topped (r :: rs)).depth := by
    simp only [depth, topped, List.length_append, List.length_cons]
    omega
  simp only [pop, hdepth, if_true]
  rfl

theorem Bracket.leave_topped {r : Ref} {rs : List Ref} (hbase : e.stack ≠ [])
    (he : σ.environments[name]? = some (e.topped (r :: rs))) :
    ((Bracket.frame name).leave σ).environments[name]? = some (e.topped rs) := by
  rw [leave]
  simp only [he]
  rw [σ.environments_restack, if_pos rfl, Environment.pop_topped hbase]

/-- A block run on its own leaves the stacks as its bracket does, closed right after the body. -/
theorem Block.environments_run {b : Block} {bracket : Bracket} {entry : Option Report}
    (h : (b.enter σ).1 = .ok (bracket, entry)) (tag : Tag) (inner : Bool) (body : Script)
    (strict : Bool) :
    ((Script.block tag b inner body .done).run strict σ).2.environments =
      (bracket.leave (body.run inner (b.opened tag σ)).2).environments := by
  obtain ⟨τ, hτ, hrun⟩ := Script.run_block (Prod.ext h rfl) tag inner body .done strict
  rw [hrun, ← hτ.environments_eq]
  cases (body.run inner (b.opened tag σ)).1.past strict b.catches <;> rfl

/-- When control leaves the block, the scope `g` is on top and is the one that is popped, so that
the stack is again that of `e`. -/
structure Block.PopsOwn (b : Block) (tag : Tag) (inner : Bool) (body : Script) (σ : Session)
    (name : String) (e : Environment) (g : Ref) : Prop where
  top : (body.run inner (b.opened tag σ)).2.environments[name]? = some (e.topped [g])
  restored : ∀ strict : Bool,
    ((Script.block tag b inner body .done).run strict σ).2.environments[name]? = some e

namespace Machine

/-- In any state of a run, a block that pushes a scope pops this very scope if the body is balanced
and not otherwise. Where the body leaves some scopes of its own behind, one of them is popped
instead and the scope of the block stays on the stack, below the others. -/
theorem guard_pops_own_iff {c : Machine} (hc : c.Reachable) {b : Block} {name : String}
    {e : Environment} {entry : Option Report} (he : c.session.environments[name]? = some e)
    (henter : (b.enter c.session).1 = .ok (.frame name, entry)) (tag : Tag) (inner : Bool)
    (body : Script) :
    ∃ g, c.session.arena.scopes.size ≤ g ∧
      (b.opened tag c.session).environments[name]? = some (e.topped [g]) ∧
      (b.PopsOwn tag inner body c.session name e g ↔
        body.Balanced inner name (b.opened tag c.session)) ∧
      ∀ ts x h, body.Unrolls inner ts x → (b.opened tag c.session).Takes ts →
        level name ts 0 = some (h + 1) → ∃ rs, rs.length = h ∧ ∀ strict : Bool,
          ((Script.block tag b inner body .done).run strict c.session).2.environments[name]? =
            some (e.topped (rs ++ [g])) := by
  obtain ⟨hsound, htop, hfresh⟩ := b.opens hc.sound hc.grounded he henter tag
  have hleft := fun strict => b.environments_run henter tag inner body strict
  refine ⟨c.session.arena.scopes.size, Nat.le_refl _, htop, ⟨fun h => ?_, ?_⟩, ?_⟩
  · obtain ⟨ts, hts⟩ := body.exists_traces inner (b.opened tag c.session)
    refine ⟨ts, _, hts.unrolls, hts.takes, ?_⟩
    rw [← Session.take_top_iff hsound hts.takes hfresh htop, ← hts.alike.environments_eq]
    exact h.top
  · rintro ⟨ts, x, hunrolls, htakes, hlevel⟩
    obtain ⟨hts, -⟩ := hunrolls.traces htakes
    have hown := (Session.take_top_iff hsound htakes hfresh htop).mpr hlevel
    rw [← hts.alike.environments_eq] at hown
    refine ⟨hown, fun strict => ?_⟩
    rw [hleft]
    exact Bracket.leave_topped hfresh.nonempty hown
  · intro ts x h hunrolls htakes hlevel
    obtain ⟨hts, -⟩ := hunrolls.traces htakes
    -- The scopes that the body has left lie above that of the block, so the pop takes one of them.
    have hbase : (e.topped [c.session.arena.scopes.size]).stack ≠ [] := by simp [Environment.topped]
    obtain ⟨m, hm, hlen, -⟩ := Session.take_topped (m := []) hsound htakes hbase htop hlevel
    obtain ⟨r, rs, rfl⟩ := List.exists_cons_of_length_eq_add_one hlen
    rw [← hts.alike.environments_eq] at hm
    refine ⟨rs, by simpa using hlen, fun strict => ?_⟩
    rw [hleft, Bracket.leave_topped hbase hm]
    simp [Environment.topped]

open Session (withEnvironment pushGetPop unknownName)

/-- Not strict, the body goes on behind its error and pops what it has pushed. -/
theorem balanced_pushGetPop :
    pushGetPop.Balanced false "e" ((Block.scoped "e").opened ⟨"with_scope", .environment "e"⟩
      (withEnvironment "e")) :=
  ⟨[.step (.push "e" 1) (.ok .done),
      .step (.environment "e" (.get (.identifier "x" 1))) (.error unknownName),
      .step (.pop "e" 1) (.ok .done)], .finished,
    .step (.rest (.step (.rest (.step (.rest .done))))), ⟨rfl, rfl, rfl, trivial⟩, rfl⟩

theorem guard_pops_own_pushGetPop :
    (⟨withEnvironment "e", []⟩ : Machine).Reachable ∧
      (withEnvironment "e").environments["e"]? = some ⟨0, [0]⟩ ∧
      ∃ g, 1 ≤ g ∧ (Block.scoped "e").PopsOwn ⟨"with_scope", .environment "e"⟩ false pushGetPop
        (withEnvironment "e") "e" ⟨0, [0]⟩ g := by
  have hreach := reachable_withEnvironment "e"
  have he : (withEnvironment "e").environments["e"]? = some ⟨0, [0]⟩ := rfl
  obtain ⟨g, hg, -, hiff, -⟩ := guard_pops_own_iff hreach (b := .scoped "e") he rfl
    ⟨"with_scope", .environment "e"⟩ false pushGetPop
  exact ⟨hreach, he, g, hg, hiff.mpr balanced_pushGetPop⟩

/-- Strict, the same body ends at its error, and the scope it has pushed is popped in place of the
one that the block has pushed. -/
theorem guard_leaves_own_pushGetPop :
    (withEnvironment "e").environments["e"]? = some ⟨0, [0]⟩ ∧
      ((Block.scoped "e").opened ⟨"with_scope", .environment "e"⟩
        (withEnvironment "e")).environments["e"]? = some ⟨0, [1, 0]⟩ ∧
      ((Script.block ⟨"with_scope", .environment "e"⟩ (.scoped "e") true pushGetPop .done).run false
        (withEnvironment "e")).2.environments["e"]? = some ⟨0, [1, 0]⟩ :=
  ⟨rfl, rfl, rfl⟩

end Machine

end ScopeChain
