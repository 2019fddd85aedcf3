import ForkReplay.Proofs.StandIn

/-!
# Refunds for signers

An authorization earns a refund if the account of its signer exists. That is all that a fork
cannot see in a nonce, a balance and a code: what it has asked for counts as existing. A state
of its own takes only the accounts that it holds for existing, so it may refund less. The two
come to the same if the state holds every signer whose account begins with an authorization.
-/

namespace ForkReplay

open Node (Query)

/-! ## Replays -/

namespace Executor

/-- The outcome of a transaction whose machine ended with this result, and that many of whose
signers exist. -/
def settled (executor : Executor) (tx : Transaction) (result : Evm.Result) (existing : Nat) :
    Outcome :=
  .ofResult (.ofResult result (Evm.settle executor.config.fork tx.gasLimit.toNat
    (Evm.intrinsicGas executor.config.fork tx).floor result (12500 * existing)))

/-- Two replays of a target fail alike, or their machines end with the same result and the
second replay has refunded at most as many signers. -/
def RefundsFewer (executor : Executor) (target : BlockTransaction)
    (first second : Except ReplayError Outcome) : Prop :=
  (∃ error, first = .error error ∧ second = .error error) ∨
    ∃ tx result existing existing', target.payload = .executable tx ∧ existing' ≤ existing ∧
      existing ≤ tx.authorizations.length ∧
      first = .ok (executor.settled tx result existing) ∧
      second = .ok (executor.settled tx result existing')

end Executor

namespace GivenState

variable {state : GivenState} {signer : Address}

theorem confirms_forked (state : GivenState) (address : Address) :
    state.forked.overlay.Confirms address :=
  ⟨.inl rfl, rfl⟩

theorem confirms_preloaded (h : signer ∈ state.accounts) :
    state.preloaded.overlay.Confirms signer := by
  obtain ⟨given, hgiven⟩ :=
    Option.isSome_iff_exists.mp (Std.ExtTreeMap.isSome_getElem?_iff_mem.mpr h)
  have hheld : state.preloaded.overlay.accounts[signer]? =
      some (given.heldOver { standing := .absent }) := by
    rw [getElem?_preloaded, hgiven]
    rfl
  refine ⟨.inr (Overlay.holds_account_iff.mpr ⟨_, hheld⟩), ?_⟩
  rw [Overlay.isAbsent, hheld]
  rfl

/-- A target alone, on a fork and on the state that holds all accounts. -/
theorem replay_on_both (state : GivenState) (executor : Executor) (target : BlockTransaction) :
    ∃ result result' after after',
      state.forked.run (executor.replayInBlock [] target) = (result, after) ∧
      state.preloaded.run (executor.replayInBlock [] target) = (result', after') ∧
      executor.RefundsFewer target result result' ∧
      ((∀ tx signer, target.payload = .executable tx → tx.Introduces executor.config signer →
        signer ∈ state.accounts) → result' = result ∧ after'.StandsIn after) := by
  have hnothing (db : Database) :
      db.run (executor.applyPreceding (Executor.before target.hash [])) = (.ok 0, db) := rfl
  rw [executor.run_replayInBlock_of_ok (hnothing _), executor.run_replayInBlock_of_ok (hnothing _)]
  cases hpayload : target.payload with
  | system kind =>
      rw [executor.run_executeTarget_of_system _ hpayload,
        executor.run_executeTarget_of_system _ hpayload]
      exact ⟨_, _, _, _, rfl, rfl, .inl ⟨_, rfl, rfl⟩, fun _ => ⟨rfl, state.preloaded_standsIn⟩⟩
  | executable tx =>
      rw [executor.run_executeTarget_of_executable _ hpayload,
        executor.run_executeTarget_of_executable _ hpayload, Executor.attempt, Executor.attempt]
      rcases state.preloaded_standsIn.settles (fun _ => state.confirms_forked) executor.config
        executor.block with ⟨failure, after, after', hrun, hrun', hstands⟩ |
        ⟨value, value', after, after', hrun, hrun',
          ⟨result, existing, existing', hle, hmost, hfirst, hsecond, hsame⟩, hstands⟩
      · rw [hrun, hrun']
        exact ⟨_, _, _, _, rfl, rfl, .inl ⟨_, rfl, rfl⟩, fun _ => ⟨rfl, hstands⟩⟩
      · rw [hrun, hrun']
        refine ⟨_, _, _, _, rfl, rfl,
          .inr ⟨tx, result, existing, existing', hpayload, hle, hmost, ?_, ?_⟩, fun hsigners => ?_⟩
        · rw [hfirst]
          rfl
        · rw [hsecond]
          rfl
        · have heq := hsame fun signer hintroduces =>
            confirms_preloaded (hsigners tx signer rfl hintroduces)
          exact ⟨by rw [heq], hstands heq (state.forked_remembers after)⟩

end GivenState

/-- Of a target alone, a fork and the state that holds all accounts make the same but for the
signers that the fork refunds in addition. They make the same altogether, and read the same
afterwards, if the state holds the accounts that begin with an authorization, be they empty. -/
theorem Executor.memory_refunds_signers_it_holds (executor : Executor) {state : GivenState}
    {number : UInt64} {answer : (query : Query) → query.Reply}
    (hserved : state.ServedBy number answer) (target : BlockTransaction) :
    executor.RefundsFewer target
      ((Node.onFork number .fork (executor.replayInBlock [] target)).run answer).1
      (state.preloaded.run (executor.replayInBlock [] target)).1 ∧
    ((∀ tx signer, target.payload = .executable tx → tx.Introduces executor.config signer →
        signer ∈ state.accounts) →
      state.SameOnFork number answer (executor.replayInBlock [] target)) := by
  obtain ⟨result, result', after, after', hrun, hrun', hfewer, hsame⟩ :=
    state.replay_on_both executor target
  refine ⟨?_, fun hsigners => ?_⟩
  · rw [hserved.run_onFork, hrun, hrun']
    exact hfewer
  · obtain ⟨rfl, hstands⟩ := hsame hsigners
    exact hserved.sameOnFork hrun hrun' hstands

namespace Sample

/-- A free transaction with the first authorization of an account. -/
def delegating : BlockTransaction where
  hash := 1
  sender := 0xa11ce
  payload := .executable
    { kind := 4
      caller := 0xa11ce
      callee := some 0x888
      gasLimit := 100000
      chainId := some 1
      authorizations := [{ chainId := 0, address := 0x777, nonce := 0, authority := some 0x999 }] }

/-- A state that holds that account, with nothing in it. -/
def unused : GivenState where
  accounts := (∅ : AddressMap GivenAccount).insert 0x999 { isPlain := by decide }

end Sample

/-- An account that is held is refunded on both, though it is empty. -/
theorem Executor.refund_of_held_signer :
    let executor : Executor := { config := Sample.config, block := Sample.block 1 }
    let replay := executor.replayInBlock [] Sample.delegating
    Sample.unused.ServedBy 4 Sample.unused.node ∧
      (∀ tx signer, Sample.delegating.payload = .executable tx →
        tx.Introduces executor.config signer → signer ∈ Sample.unused.accounts) ∧
      Sample.unused.SameOnFork 4 Sample.unused.node replay ∧
      (Sample.unused.preloaded.run replay).1 =
        .ok (.success 36800 9200 (Bytes.ofList []) none) := by
  intro executor replay
  have hserved := Sample.unused.servedBy_node 4
  have hsigners : ∀ tx signer, Sample.delegating.payload = .executable tx →
      tx.Introduces executor.config signer → signer ∈ Sample.unused.accounts := by
    rintro _ signer ⟨⟩ ⟨-, -, authorization, hmem, hsigner, -⟩
    obtain rfl := List.mem_singleton.mp hmem
    cases hsigner
    decide +kernel
  obtain ⟨-, hsame⟩ := executor.memory_refunds_signers_it_holds hserved Sample.delegating
  exact ⟨hserved, hsigners, hsame hsigners, by decide +kernel⟩

/-- Nobody has used the account, so a state of its own charges it as new. Only the fork refunds
it. -/
theorem Executor.refund_of_new_signer_on_fork_alone :
    let executor : Executor := { config := Sample.config, block := Sample.block 1 }
    let replay := executor.replayInBlock [] Sample.delegating
    let state : GivenState := {}
    state.ServedBy 4 state.node ∧
      ((Node.onFork 4 .fork replay).run state.node).1 =
        .ok (.success 36800 9200 (Bytes.ofList []) none) ∧
      (state.preloaded.run replay).1 = .ok (.success 46000 0 (Bytes.ofList []) none) := by
  intro executor replay state
  exact ⟨state.servedBy_node 4, by decide +kernel, by decide +kernel⟩

end ForkReplay
