import ForkReplay.Chain.Sample
import ForkReplay.Proofs.BlockReplay

/-!
# Replaying the transactions of a block one by one

In a block without repeated hashes, replaying a transaction is the same as executing
the block up to it. The replays of all its members, each from the same database, come
to what one pass over the block comes to.
-/

namespace ForkReplay

namespace Executor

variable {executor : Executor} {db start after : Database}

/-- What the members come to when they are executed once, in order. From the first one
that fails on, none comes to an outcome. -/
def outcomes (executor : Executor) : Database → List Member → List (Option Outcome)
  | _, [] => []
  | db, member :: rest =>
      match executor.attempt db member.tx with
      | (.ok result, after) => some (.ofResult result) :: executor.outcomes after rest
      | (.error _, _) => none :: rest.map fun _ => none

theorem Commits.append {first second : List Member} {results later : List Evm.ExecutionResult}
    (hfirst : executor.Commits db first results start)
    (hsecond : executor.Commits start second later after) :
    executor.Commits db (first ++ second) (results ++ later) after := by
  induction hfirst with
  | nil db => exact hsecond
  | cons hmember _ ih => exact .cons hmember (ih hsecond)

theorem members_append (executor : Executor) (txs later : List BlockTransaction) :
    executor.members (txs ++ later) = executor.members txs ++ executor.members later :=
  List.filterMap_append

/-- The start of a block that can be applied has members that all commit. -/
theorem commits_of_run_applyPreceding {txs : List BlockTransaction} {executed : Nat}
    (h : db.run (executor.applyPreceding txs) = (.ok executed, start)) :
    ∃ results, executor.Commits db (executor.members txs) results start ∧
      executed = results.length := by
  rcases executor.commits_or_fails db (executor.members txs) with ⟨results, after, hcommits⟩ |
    ⟨done, failing, rest, results, middle, failure, after, hmembers, hdone, hfailing⟩
  · rw [run_applyPreceding_of_commits hcommits] at h
    cases h
    exact ⟨results, hcommits, rfl⟩
  · rw [run_applyPreceding_of_failure hmembers hdone hfailing] at h
    cases h

/-- Applying more of a block goes on from the state that its start has left. -/
theorem run_applyPreceding_append_of_ok {txs : List BlockTransaction} {executed : Nat}
    (h : db.run (executor.applyPreceding txs) = (.ok executed, start))
    (later : List BlockTransaction) :
    db.run (executor.applyPreceding (txs ++ later)) =
      ((start.run (executor.applyPreceding later)).1.map (executed + ·),
        (start.run (executor.applyPreceding later)).2) := by
  obtain ⟨results, hcommits, rfl⟩ := commits_of_run_applyPreceding h
  rcases executor.commits_or_fails start (executor.members later) with
    ⟨others, after, hlater⟩ |
    ⟨done, failing, rest, others, middle, failure, after, hmembers, hdone, hfailing⟩
  · have hall := hcommits.append hlater
    rw [← members_append] at hall
    rw [run_applyPreceding_of_commits hall, run_applyPreceding_of_commits hlater,
      List.length_append]
    rfl
  · have hall : executor.members (txs ++ later) =
        (executor.members txs ++ done) ++ failing :: rest := by
      rw [members_append, hmembers, List.append_assoc]
    rw [run_applyPreceding_of_failure hall (hcommits.append hdone) hfailing,
      run_applyPreceding_of_failure hmembers hdone hfailing]
    rfl

/-- What comes after a member that fails does not matter. -/
theorem run_applyPreceding_append_of_error {txs : List BlockTransaction} {error : ReplayError}
    (h : db.run (executor.applyPreceding txs) = (.error error, after))
    (later : List BlockTransaction) :
    db.run (executor.applyPreceding (txs ++ later)) = (.error error, after) := by
  rcases executor.commits_or_fails db (executor.members txs) with ⟨results, middle, hcommits⟩ |
    ⟨done, failing, rest, results, middle, failure, last, hmembers, hdone, hfailing⟩
  · rw [run_applyPreceding_of_commits hcommits] at h
    cases h
  · have hall : executor.members (txs ++ later) =
        done ++ failing :: (rest ++ executor.members later) := by
      rw [members_append, hmembers, List.append_assoc, List.cons_append]
    rw [run_applyPreceding_of_failure hmembers hdone hfailing] at h
    rw [run_applyPreceding_of_failure hall hdone hfailing, h]

/-! ## One transaction of a block -/

section Member

variable {block earlier rest : List BlockTransaction} {target : BlockTransaction}
  {member : Member} {executed : Nat}

theorem run_applyPreceding_member (htarget : executor.member? target = some member)
    (db : Database) :
    db.run (executor.applyPreceding [target]) =
      match executor.attempt db member.tx with
      | (.error failure, after) =>
          (.error (blamed (.precedingTransaction member.hash) failure), after)
      | (.ok _, after) => (.ok 1, after) :=
  run_applyPreceding_cons_of_some db htarget []

/-- A target that succeeds after the start of its block succeeds in the same way as the
next transaction of a pass over the block. -/
theorem replay_and_pass_of_ok (htarget : executor.member? target = some member)
    (hbefore : before target.hash block = earlier)
    (hstart : db.run (executor.applyPreceding earlier) = (.ok executed, start))
    {result : Evm.ExecutionResult}
    (hattempt : executor.attempt start member.tx = (.ok result, after)) :
    db.run (executor.replayInBlock block target) = (.ok (.ofResult result), after) ∧
      db.run (executor.applyPreceding (earlier ++ [target])) = (.ok (executed + 1), after) := by
  have hpayload := (member?_eq_some.mp htarget).1
  subst hbefore
  refine ⟨?_, ?_⟩
  · rw [run_replayInBlock_of_ok hstart, run_executeTarget_of_executable start hpayload, hattempt]
  · rw [run_applyPreceding_append_of_ok hstart, run_applyPreceding_member htarget, hattempt]
    rfl

/-- A target that fails after the start of its block fails in the pass as well. -/
theorem replay_and_pass_of_failure (htarget : executor.member? target = some member)
    (hbefore : before target.hash block = earlier)
    (hstart : db.run (executor.applyPreceding earlier) = (.ok executed, start))
    {failure : Evm.Failure}
    (hattempt : executor.attempt start member.tx = (.error failure, after)) :
    db.run (executor.replayInBlock block target) =
        (.error (blamed (.execution target.hash) failure), after) ∧
      db.run (executor.applyPreceding (earlier ++ [target])) =
        (.error (blamed (.precedingTransaction member.hash) failure), after) := by
  have hpayload := (member?_eq_some.mp htarget).1
  subst hbefore
  refine ⟨?_, ?_⟩
  · rw [run_replayInBlock_of_ok hstart, run_executeTarget_of_executable start hpayload, hattempt]
  · rw [run_applyPreceding_append_of_ok hstart, run_applyPreceding_member htarget, hattempt]
    rfl

end Member

theorem before_of_nodup {earlier rest : List BlockTransaction} {target : BlockTransaction}
    (hdistinct : ((earlier ++ target :: rest).map BlockTransaction.hash).Nodup) :
    before target.hash (earlier ++ target :: rest) = earlier :=
  (beforeFirst_of_nodup hdistinct).takeWhile_eq

/-! ## All transactions of a block -/

/-- What the replays of the members of a block come to. -/
def replays (executor : Executor) (db : Database) (block txs : List BlockTransaction) :
    List (Option Outcome) :=
  (txs.filter fun tx => (executor.member? tx).isSome).map fun tx =>
    (db.run (executor.replayInBlock block tx)).1.toOption

theorem replays_cons_of_none {tx : BlockTransaction} (h : executor.member? tx = none)
    (db : Database) (block rest : List BlockTransaction) :
    executor.replays db block (tx :: rest) = executor.replays db block rest := by
  rw [replays, List.filter_cons_of_neg (by simp [h])]
  rfl

theorem replays_cons_of_some {tx : BlockTransaction} {member : Member}
    (h : executor.member? tx = some member) (db : Database) (block rest : List BlockTransaction) :
    executor.replays db block (tx :: rest) =
      (db.run (executor.replayInBlock block tx)).1.toOption :: executor.replays db block rest := by
  rw [replays, List.filter_cons_of_pos (by simp [h])]
  rfl

/-- The replays of the rest of a block come to nothing if its start cannot be applied. -/
theorem replays_of_error {earlier rest : List BlockTransaction} {error : ReplayError}
    (hdistinct : ((earlier ++ rest).map BlockTransaction.hash).Nodup)
    (hstart : db.run (executor.applyPreceding earlier) = (.error error, after)) :
    executor.replays db (earlier ++ rest) rest = (executor.members rest).map fun _ => none := by
  induction rest generalizing earlier with
  | nil => rfl
  | cons tx rest ih =>
      have hnext := @ih (earlier ++ [tx]) (by simpa using hdistinct)
        (run_applyPreceding_append_of_error hstart [tx])
      rw [List.append_assoc, List.singleton_append] at hnext
      cases hmember : executor.member? tx with
      | none =>
          rw [replays_cons_of_none hmember, members_cons_of_none hmember]
          exact hnext
      | some member =>
          rw [← before_of_nodup hdistinct] at hstart
          rw [replays_cons_of_some hmember, members_cons_of_some hmember,
            run_replayInBlock_of_error hstart, hnext]
          rfl

/-- The replays of the rest of a block come to what one pass over the rest comes to,
from the state that the start of the block has left. -/
theorem replays_of_ok {earlier rest : List BlockTransaction} {executed : Nat}
    (hdistinct : ((earlier ++ rest).map BlockTransaction.hash).Nodup)
    (hstart : db.run (executor.applyPreceding earlier) = (.ok executed, start)) :
    executor.replays db (earlier ++ rest) rest =
      executor.outcomes start (executor.members rest) := by
  -- The block stays the same while one transaction after the other moves from `rest` to
  -- `earlier`; `start` is always the state that `earlier` leaves.
  induction rest generalizing earlier executed start with
  | nil => rfl
  | cons tx rest ih =>
      have hdistinct' : ((earlier ++ [tx] ++ rest).map BlockTransaction.hash).Nodup := by
        simpa using hdistinct
      have hblock : earlier ++ [tx] ++ rest = earlier ++ tx :: rest := by simp
      cases hmember : executor.member? tx with
      | none =>
          have hsame : db.run (executor.applyPreceding (earlier ++ [tx])) =
              (.ok executed, start) := by
            rw [run_applyPreceding_append_of_ok hstart, applyPreceding_cons_of_none hmember]
            rfl
          rw [replays_cons_of_none hmember, members_cons_of_none hmember, ← hblock]
          exact ih hdistinct' hsame
      | some member =>
          have hbefore := before_of_nodup hdistinct
          rw [replays_cons_of_some hmember, members_cons_of_some hmember, outcomes]
          rcases hattempt : executor.attempt start member.tx with ⟨failure | result, after⟩
          · obtain ⟨hreplay, hpass⟩ := replay_and_pass_of_failure hmember hbefore hstart hattempt
            rw [hreplay, ← hblock, replays_of_error hdistinct' hpass]
            rfl
          · obtain ⟨hreplay, hpass⟩ := replay_and_pass_of_ok hmember hbefore hstart hattempt
            rw [hreplay, ← hblock, ih hdistinct' hpass]
            rfl

theorem before_getElem {txs : List BlockTransaction}
    (hdistinct : (txs.map BlockTransaction.hash).Nodup) {i : Nat} (hi : i < txs.length) :
    before txs[i].hash txs = txs.take i := by
  have hsplit : txs.take i ++ txs[i] :: txs.drop (i + 1) = txs := by
    rw [← List.drop_eq_getElem_cons hi, List.take_append_drop]
  have hbefore := @before_of_nodup (txs.take i) (txs.drop (i + 1)) txs[i] (by rwa [hsplit])
  rwa [hsplit] at hbefore

/-- Replaying a member of a block and passing over the block up to it both succeed or
both fail, and leave the same database. -/
theorem replay_or_pass_at (db : Database) {txs : List BlockTransaction}
    (hdistinct : (txs.map BlockTransaction.hash).Nodup) {i : Nat} (hi : i < txs.length)
    {member : Member} (hmember : executor.member? txs[i] = some member) :
    (∃ results result executed after,
        executor.Commits db (executor.members (txs.take (i + 1))) (results ++ [result]) after ∧
        db.run (executor.replayInBlock txs txs[i]) = (.ok (.ofResult result), after) ∧
        db.run (executor.applyPreceding (txs.take (i + 1))) = (.ok executed, after)) ∨
      ∃ error error' after, db.run (executor.replayInBlock txs txs[i]) = (.error error, after) ∧
        db.run (executor.applyPreceding (txs.take (i + 1))) = (.error error', after) := by
  have hbefore := before_getElem hdistinct hi
  rw [← List.take_append_getElem hi]
  rcases hstart : db.run (executor.applyPreceding (txs.take i)) with ⟨error | executed, start⟩
  · refine .inr ⟨error, error, start, ?_, run_applyPreceding_append_of_error hstart _⟩
    exact run_replayInBlock_of_error (by rwa [hbefore])
  · rcases hattempt : executor.attempt start member.tx with ⟨failure | result, after⟩
    · obtain ⟨hreplay, hpass⟩ := replay_and_pass_of_failure hmember hbefore hstart hattempt
      exact .inr ⟨_, _, after, hreplay, hpass⟩
    · obtain ⟨hreplay, hpass⟩ := replay_and_pass_of_ok hmember hbefore hstart hattempt
      obtain ⟨results, hcommits, -⟩ := commits_of_run_applyPreceding hstart
      refine .inl ⟨results, result, executed + 1, after, ?_, hreplay, hpass⟩
      rw [members_append, members_cons_of_some hmember]
      exact hcommits.append (.cons hattempt (.nil after))

/-- Passing over transactions that are not executed changes nothing. -/
theorem run_applyPreceding_take_of_none_between {txs : List BlockTransaction} {i j executed : Nat}
    (hij : i < j)
    (hbetween : ∀ k (hk : k < txs.length), i < k → k < j → executor.member? txs[k] = none)
    (hpass : db.run (executor.applyPreceding (txs.take (i + 1))) = (.ok executed, after)) :
    db.run (executor.applyPreceding (txs.take j)) = (.ok executed, after) := by
  have hnone : executor.members ((txs.take j).drop (i + 1)) = [] := by
    refine List.filterMap_eq_nil_iff.mpr ?_
    intro tx htx
    obtain ⟨k, hk, rfl⟩ := List.mem_iff_getElem.mp htx
    simp only [List.length_drop, List.length_take] at hk
    rw [List.getElem_drop, List.getElem_take]
    exact hbetween _ (by omega) (by omega) (by omega)
  have hskipped :
      executor.Commits after (executor.members ((txs.take j).drop (i + 1))) [] after := by
    rw [hnone]
    exact .nil after
  have htake : (txs.take j).take (i + 1) = txs.take (i + 1) := by
    rw [List.take_take, Nat.min_eq_left hij]
  rw [← List.take_append_drop (i + 1) (txs.take j), htake,
    run_applyPreceding_append_of_ok hpass, run_applyPreceding_of_commits hskipped]
  rfl

/-- In a block without repeated hashes, replaying a member succeeds exactly when the
block can be applied up to it. Both leave the same database, and the outcome is that of
the member in the pass. So the replays of all members, each from the same database,
come to what one pass over the block comes to, and each one leaves the state on which
the next one's target runs. -/
theorem replays_eq_pass (executor : Executor) (db : Database) {txs : List BlockTransaction}
    (hdistinct : (txs.map BlockTransaction.hash).Nodup) :
    (∀ i (hi : i < txs.length) tx, txs[i].payload = .executable tx →
        txs[i].sender ∉ executor.skipSenders →
      ((∃ outcome, (db.run (executor.replayInBlock txs txs[i])).1 = .ok outcome) ↔
        ∃ executed, (db.run (executor.applyPreceding (txs.take (i + 1)))).1 = .ok executed) ∧
      (db.run (executor.replayInBlock txs txs[i])).2 =
        (db.run (executor.applyPreceding (txs.take (i + 1)))).2 ∧
      ∀ outcome, (db.run (executor.replayInBlock txs txs[i])).1 = .ok outcome →
        ∃ results result, executor.Commits db (executor.members (txs.take (i + 1)))
            (results ++ [result]) (db.run (executor.applyPreceding (txs.take (i + 1)))).2 ∧
          outcome = .ofResult result) ∧
    executor.replays db txs txs = executor.outcomes db (executor.members txs) ∧
    ∀ i j (hi : i < txs.length) (hj : j < txs.length), i < j →
      (executor.member? txs[i]).isSome → (executor.member? txs[j]).isSome →
      (∀ k (hk : k < txs.length), i < k → k < j → executor.member? txs[k] = none) →
      ∀ outcome, (db.run (executor.replayInBlock txs txs[i])).1 = .ok outcome →
        ∃ executed, db.run (executor.applyPreceding (before txs[j].hash txs)) =
          (.ok executed, (db.run (executor.replayInBlock txs txs[i])).2) := by
  refine ⟨?_, ?_, ?_⟩
  · intro i hi tx hpayload hkept
    have hmember : executor.member? txs[i] = some { hash := txs[i].hash, tx } :=
      member?_eq_some.mpr ⟨hpayload, hkept, rfl⟩
    rcases replay_or_pass_at db hdistinct hi hmember with
      ⟨results, result, executed, after, hcommits, hreplay, hpass⟩ |
      ⟨error, error', after, hreplay, hpass⟩
    · rw [hreplay, hpass]
      refine ⟨⟨fun _ => ⟨executed, rfl⟩, fun _ => ⟨_, rfl⟩⟩, rfl, ?_⟩
      rintro outcome houtcome
      cases houtcome
      exact ⟨results, result, hcommits, rfl⟩
    · rw [hreplay, hpass]
      refine ⟨⟨?_, ?_⟩, rfl, ?_⟩
      · rintro ⟨outcome, houtcome⟩
        cases houtcome
      · rintro ⟨executed, hexecuted⟩
        cases hexecuted
      · rintro outcome houtcome
        cases houtcome
  · -- Nothing is before the first transaction, and applying nothing leaves the database.
    exact @replays_of_ok _ _ _ [] txs 0 hdistinct rfl
  · intro i j hi hj hij hfirst hsecond hbetween outcome houtcome
    obtain ⟨member, hmember⟩ := Option.isSome_iff_exists.mp hfirst
    rcases replay_or_pass_at db hdistinct hi hmember with
      ⟨results, result, executed, after, hcommits, hreplay, hpass⟩ |
      ⟨error, error', after, hreplay, hpass⟩
    · refine ⟨executed, ?_⟩
      rw [before_getElem hdistinct hj, hreplay]
      exact run_applyPreceding_take_of_none_between hij hbetween hpass
    · rw [hreplay] at houtcome
      cases houtcome

end Executor

namespace Sample

/-- A fork of a chain whose accounts are all empty. -/
def emptyFork : Database where
  overlay := .fork
  source := { account := fun _ => {}, slot := fun _ _ => 0, blockHash := fun _ => 0 }

/-- A free transfer without a value. -/
def transfer (hash : Hash) (sender : Address) (nonce : UInt64) : BlockTransaction where
  hash := hash
  sender := sender
  payload := .executable (transaction sender nonce (some 0x777) (Bytes.ofList []) 0)

end Sample

/-- Of the transactions that are executed the second has a nonce that was used already,
which also keeps the third from an outcome. -/
theorem Executor.replays_of_mixed_block :
    let executor : Executor :=
      { config := Sample.config, block := Sample.block 1, skipSenders := [0x999] }
    let txs := [{ hash := 1, sender := 0x888, payload := .system 0x7e },
      Sample.transfer 2 0x999 5, Sample.transfer 3 0x888 0, Sample.transfer 4 0x888 0,
      Sample.transfer 5 0x888 1]
    (txs.map BlockTransaction.hash).Nodup ∧
      executor.replays Sample.emptyFork txs txs =
        [some (.success 21000 0 (Bytes.ofList []) none), none, none] := by
  intro executor txs
  have hdistinct : (txs.map BlockTransaction.hash).Nodup := by decide
  refine ⟨hdistinct, ?_⟩
  rw [(executor.replays_eq_pass Sample.emptyFork hdistinct).2.1]
  decide +kernel

end ForkReplay
