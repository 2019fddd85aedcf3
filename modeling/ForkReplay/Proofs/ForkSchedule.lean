import ForkReplay.Proofs.Planning

/-!
# Hard forks in chain order

The main network activates its hard forks at block numbers up to the merge and at times after
it. A block runs under the newest hard fork whose own activation has come, so along a chain,
where numbers and times only grow, no block runs under older rules than one before it.
-/

namespace ForkReplay

/-- What activates a hard fork. -/
inductive Activation where
  /-- The block with the given number is the first one under the hard fork. -/
  | byNumber (first : UInt64)
  /-- Blocks from the given time on are under the hard fork. -/
  | byTime (first : UInt64)

/-- Whether a block is late enough for an activation. -/
def Activation.Holds (number timestamp : UInt64) : Activation → Prop
  | .byNumber first => first ≤ number
  | .byTime first => first ≤ timestamp

instance (number timestamp : UInt64) (activation : Activation) :
    Decidable (activation.Holds number timestamp) := by
  cases activation <;> exact inferInstanceAs (Decidable (_ ≤ _))

theorem Activation.Holds.mono {number number' timestamp timestamp' : UInt64}
    {activation : Activation} (h : activation.Holds number timestamp) (hnumber : number ≤ number')
    (htimestamp : timestamp ≤ timestamp') : activation.Holds number' timestamp' := by
  cases activation with
  | byNumber first => exact UInt64.le_trans h hnumber
  | byTime first => exact UInt64.le_trans h htimestamp

namespace Mainnet

variable {number number' timestamp timestamp' : UInt64} {fork fork' : HardFork}

/-- The hard forks of the main network with what activates them, newest first. -/
def activations : List (HardFork × Activation) :=
  [(.prague, .byTime 1746612311), (.cancun, .byTime 1710338135), (.shanghai, .byTime 1681338455),
   (.merge, .byNumber 15537394), (.london, .byNumber 12965000), (.berlin, .byNumber 12244000)]

/-- A hard fork whose own activation has come. -/
def Active (number timestamp : UInt64) (fork : HardFork) : Prop :=
  ∃ activation, (fork, activation) ∈ activations ∧ activation.Holds number timestamp

/-- The newest hard fork whose activation has come, and Istanbul before the first one. -/
structure IsNewest (number timestamp : UInt64) (fork : HardFork) : Prop where
  active : Active number timestamp fork ∨
    fork = .istanbul ∧ ∀ other, ¬ Active number timestamp other
  newest : ∀ other, Active number timestamp other → other ≤ fork

theorem Active.mono (h : Active number timestamp fork) (hnumber : number ≤ number')
    (htimestamp : timestamp ≤ timestamp') : Active number' timestamp' fork := by
  obtain ⟨activation, hmem, hholds⟩ := h
  exact ⟨activation, hmem, hholds.mono hnumber htimestamp⟩

theorem istanbul_le_of_active (h : Active number timestamp fork) : .istanbul ≤ fork := by
  have hall : ∀ entry ∈ activations, HardFork.istanbul ≤ entry.1 := by decide
  obtain ⟨activation, hmem, -⟩ := h
  exact hall _ hmem

/-- What is active stays so along a chain, and the newest is at least as new. -/
theorem IsNewest.mono (h : IsNewest number timestamp fork) (h' : IsNewest number' timestamp' fork')
    (hnumber : number ≤ number') (htimestamp : timestamp ≤ timestamp') : fork ≤ fork' := by
  rcases h.active with hactive | ⟨rfl, -⟩
  · exact h'.newest fork (hactive.mono hnumber htimestamp)
  · rcases h'.active with hactive' | ⟨rfl, -⟩
    · exact istanbul_le_of_active hactive'
    · exact Nat.le_refl _

/-- The first entry that has come is the one that decides. -/
theorem forkAt_eq_find? (number timestamp : UInt64) :
    forkAt number timestamp =
      ((activations.find? fun entry => entry.2.Holds number timestamp).map Prod.fst).getD
        .istanbul := by
  have hcons (entry : HardFork × Activation) (older : List (HardFork × Activation)) :
      (((entry :: older).find? fun entry => entry.2.Holds number timestamp).map Prod.fst).getD
          .istanbul =
        if entry.2.Holds number timestamp then entry.1
        else ((older.find? fun entry => entry.2.Holds number timestamp).map Prod.fst).getD
          .istanbul := by
    rw [List.find?_cons]
    by_cases hholds : entry.2.Holds number timestamp <;> simp [hholds]
  rw [activations, hcons, hcons, hcons, hcons, hcons, hcons]
  rfl

/-- The activations are listed from the newest one on, so the first that has come is newest. -/
theorem isNewest_forkAt (number timestamp : UInt64) :
    IsNewest number timestamp (forkAt number timestamp) := by
  have hsorted : activations.Pairwise fun entry older => older.1 ≤ entry.1 := by decide
  rw [forkAt_eq_find?]
  cases hfind : activations.find? fun entry => decide (entry.2.Holds number timestamp) with
  | none =>
      have hnone : ∀ other, ¬ Active number timestamp other := by
        rintro other ⟨activation, hmem, hholds⟩
        exact List.find?_eq_none.mp hfind _ hmem (decide_eq_true hholds)
      exact ⟨.inr ⟨rfl, hnone⟩, fun other hother => absurd hother (hnone other)⟩
  | some entry =>
      obtain ⟨hholds, later, earlier, hsplit, hlater⟩ := List.find?_eq_some_iff_append.mp hfind
      refine ⟨.inl ⟨entry.2, ?_, of_decide_eq_true hholds⟩, ?_⟩
      · exact List.mem_of_find?_eq_some hfind
      · rintro other ⟨activation, hmem, hother⟩
        rw [hsplit, List.mem_append, List.mem_cons] at hmem
        rcases hmem with hmem | rfl | hmem
        · have hnot := hlater _ hmem
          simp [hother] at hnot
        · exact Nat.le_refl _
        · rw [hsplit, List.pairwise_append, List.pairwise_cons] at hsorted
          exact hsorted.2.1.1 _ hmem

end Mainnet

theorem forkForBlock_of_other {chainId : UInt64} (h : chainId ≠ 1) (number timestamp : UInt64)
    (fallback : HardFork) : forkForBlock chainId number timestamp fallback = fallback :=
  if_neg h

/-- On every chain the rules of a block are not newer than those of a block after it. -/
theorem forkForBlock_mono {number number' timestamp timestamp' : UInt64} (chainId : UInt64)
    (fallback : HardFork) (hnumber : number ≤ number') (htimestamp : timestamp ≤ timestamp') :
    forkForBlock chainId number timestamp fallback ≤
      forkForBlock chainId number' timestamp' fallback := by
  by_cases hchain : chainId = 1
  · subst hchain
    exact (Mainnet.isNewest_forkAt number timestamp).mono
      (Mainnet.isNewest_forkAt number' timestamp') hnumber htimestamp
  · rw [forkForBlock_of_other hchain, forkForBlock_of_other hchain]
    exact Nat.le_refl _

namespace Simulator

open Simulating (talk)

/-- The executor on which a replay runs that was planned with some node, or a call, and the block
whose transaction it takes. -/
inductive RunsIn (simulator : Simulator) : BlockContext → Executor → Prop where
  | replay {σ : Type} (answer : σ → (query : Node.Query) → query.Reply × σ) (state : σ)
      (target : Hash) (plan : Plan)
      (hplan : (talk answer state (simulator.plan target)).2 = .ok plan) :
      RunsIn simulator plan.block
        (simulator.executor plan.fork plan.block simulator.skipSenders)
  | call (context : BlockContext) :
      RunsIn simulator context (simulator.executor (simulator.forkFor context) context [])

theorem RunsIn.fork_eq {simulator : Simulator} {block : BlockContext} {executor : Executor}
    (h : simulator.RunsIn block executor) : executor.config.fork = simulator.forkFor block := by
  cases h with
  | replay answer state target plan hplan =>
      rcases talk_plan answer state simulator target with
        ⟨exchanges, error, htalk, -⟩ | ⟨report, number, block, fetched, earlier, htalk, -⟩
      · rw [htalk] at hplan
        cases hplan
      · rw [htalk] at hplan
        cases hplan
        rfl
  | call context => rfl

end Simulator

namespace Sample

/-- A node that knows one transaction of the chain's own, alone in the first block after the
merge. -/
def atMerge (_ : Unit) : (query : Node.Query) → query.Reply × Unit
  | .chainId => (.ok (1 : UInt64), ())
  | .transaction hash =>
      (.ok (some { hash, sender := 0, envelope := .foreign 100, blockNumber := some 15537394 }), ())
  | .block _ _ =>
      (.ok (some
        { hash := 0
          header := { (default : Header) with number := 15537394, timestamp := 1663224179 }
          listing := .hashes [] }), ())
  | .state _ _ _ => (.error .undecodable, ())

end Sample

/-- A block of the main network runs under the newest hard fork whose own activation has come,
whatever the fallback is, and a block of any other chain under the fallback. So of two blocks
of the main network the earlier one never runs under newer rules, and neither do the replays
and calls of one simulator that take such blocks. -/
theorem rules_in_chain_order :
    (∀ number timestamp fallback,
      Mainnet.IsNewest number timestamp (forkForBlock 1 number timestamp fallback)) ∧
    (∀ number timestamp fallback fallback',
      forkForBlock 1 number timestamp fallback = forkForBlock 1 number timestamp fallback') ∧
    (∀ number number' timestamp timestamp' fallback, number ≤ number' → timestamp ≤ timestamp' →
      forkForBlock 1 number timestamp fallback ≤ forkForBlock 1 number' timestamp' fallback) ∧
    (∀ chainId number timestamp fallback, chainId ≠ 1 →
      forkForBlock chainId number timestamp fallback = fallback) ∧
    ∀ (simulator : Simulator) (block block' : BlockContext) (executor executor' : Executor),
      simulator.RunsIn block executor → simulator.RunsIn block' executor' →
      block.number ≤ block'.number → block.timestamp ≤ block'.timestamp →
      executor.config.fork ≤ executor'.config.fork := by
  refine ⟨fun number timestamp _ => Mainnet.isNewest_forkAt number timestamp,
    fun _ _ _ _ => rfl, fun _ _ _ _ fallback => forkForBlock_mono 1 fallback,
    fun _ number timestamp fallback hchain => forkForBlock_of_other hchain number timestamp fallback,
    ?_⟩
  intro simulator block block' executor executor' hruns hruns' hnumber htimestamp
  rw [hruns.fork_eq, hruns'.fork_eq]
  exact forkForBlock_mono simulator.chainId simulator.settings.fallback hnumber htimestamp

/-- A call on the last block before the merge and a replay of the first one after it. -/
theorem rules_across_merge :
    let simulator : Simulator := { settings := { url := "ws://localhost" }, chainId := 1 }
    let before : BlockContext := { number := 15537393, timestamp := 1663224162 }
    let calls := simulator.executor (simulator.forkFor before) before []
    ∃ plan, (Simulating.talk Sample.atMerge () (simulator.plan 7)).2 = .ok plan ∧
      let replays := simulator.executor plan.fork plan.block simulator.skipSenders
      simulator.RunsIn before calls ∧ simulator.RunsIn plan.block replays ∧
        before.number ≤ plan.block.number ∧ before.timestamp ≤ plan.block.timestamp ∧
        calls.config.fork = .london ∧ replays.config.fork = .merge ∧
        calls.config.fork ≤ replays.config.fork ∧
        forkForBlock 1 before.number before.timestamp .osaka ≤
          forkForBlock 1 plan.block.number plan.block.timestamp .osaka ∧
        (56 : UInt64) ≠ 1 ∧ forkForBlock 56 before.number before.timestamp .osaka = .osaka := by
  intro simulator before calls
  refine ⟨_, rfl, ?_⟩
  intro replays
  obtain ⟨-, -, hmono, hother, hruns⟩ := rules_in_chain_order
  have hcall : simulator.RunsIn before calls := .call before
  have hreplay : simulator.RunsIn _ replays := .replay Sample.atMerge () 7 _ rfl
  have hnumber : before.number ≤ 15537394 := by decide
  have htimestamp : before.timestamp ≤ 1663224179 := by decide
  exact ⟨hcall, hreplay, hnumber, htimestamp, rfl, rfl,
    hruns simulator _ _ _ _ hcall hreplay hnumber htimestamp,
    hmono _ _ _ _ .osaka hnumber htimestamp, by decide, hother 56 _ _ .osaka (by decide)⟩

end ForkReplay
