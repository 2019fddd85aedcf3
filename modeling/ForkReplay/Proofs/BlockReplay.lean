import ForkReplay.Proofs.BlockOrder
import ForkReplay.Proofs.Database
import ForkReplay.Replay.Executor

/-!
# Replaying a block up to a transaction

The transactions of a block that an executor runs before the target are its members.
They are committed one after the other; the first one that fails ends the replay and
leaves the state that those before it have left.
-/

namespace ForkReplay

/-- A transaction of a block that is executed before the target. -/
structure Member where
  hash : Hash
  tx : Transaction
deriving DecidableEq

namespace Executor

variable {executor : Executor} {db start after : Database}

/-- How a transaction takes part in the start of a block, if it does. -/
def member? (executor : Executor) (tx : BlockTransaction) : Option Member :=
  match tx.payload with
  | .system _ => none
  | .executable inner =>
      if tx.sender ∈ executor.skipSenders then none else some { hash := tx.hash, tx := inner }

/-- The transactions of a block that are executed, in order. -/
def members (executor : Executor) (txs : List BlockTransaction) : List Member :=
  txs.filterMap executor.member?

/-- Tries to execute and commit a transaction. -/
def attempt (executor : Executor) (db : Database) (tx : Transaction) :
    Except Evm.Failure Evm.ExecutionResult × Database :=
  db.run (Evm.transact executor.config executor.block tx)

/-- All members are committed one after the other, each on the state that the one
before it has left. -/
inductive Commits (executor : Executor) :
    Database → List Member → List Evm.ExecutionResult → Database → Prop where
  | nil (db : Database) : Commits executor db [] [] db
  | cons {db middle after : Database} {member : Member} {rest : List Member}
      {result : Evm.ExecutionResult} {results : List Evm.ExecutionResult}
      (hfirst : executor.attempt db member.tx = (.ok result, middle))
      (hrest : Commits executor middle rest results after) :
      Commits executor db (member :: rest) (result :: results) after

/-! ## Runs of the executor -/

theorem blamed_of_ne_crashed {failure : Evm.Failure} (h : failure ≠ .crashed)
    (blame : String → ReplayError) : blamed blame failure = blame failure.message := by
  cases failure with
  | crashed => exact absurd rfl h
  | incompleteBlock lack => rfl
  | invalid cause => rfl
  | database message => rfl

theorem run_commit (db : Database) (config : Evm.Config) (block : BlockEnv) (tx : Transaction)
    (blame : String → ReplayError) :
    db.run (commit config block tx blame) =
      ((db.run (Evm.transact config block tx)).1.mapError (blamed blame),
        (db.run (Evm.transact config block tx)).2) :=
  db.run_adapt _ _

theorem members_cons_of_none {tx : BlockTransaction} (h : executor.member? tx = none)
    (rest : List BlockTransaction) : executor.members (tx :: rest) = executor.members rest :=
  List.filterMap_cons_none h

theorem members_cons_of_some {tx : BlockTransaction} {member : Member}
    (h : executor.member? tx = some member) (rest : List BlockTransaction) :
    executor.members (tx :: rest) = member :: executor.members rest :=
  List.filterMap_cons_some h

theorem member?_eq_some {tx : BlockTransaction} {member : Member} :
    executor.member? tx = some member ↔
      tx.payload = .executable member.tx ∧ tx.sender ∉ executor.skipSenders ∧
        member.hash = tx.hash := by
  rcases member with ⟨hash, inner⟩
  unfold member?
  cases hpayload : tx.payload with
  | system kind => simp
  | executable inner =>
      by_cases hskipped : tx.sender ∈ executor.skipSenders
      · simp [hskipped]
      · simp [hskipped, and_comm, eq_comm]

theorem applyPreceding_cons_of_none {tx : BlockTransaction} (h : executor.member? tx = none)
    (rest : List BlockTransaction) :
    executor.applyPreceding (tx :: rest) = executor.applyPreceding rest := by
  cases hpayload : tx.payload with
  | system kind => rw [applyPreceding, hpayload]
  | executable inner =>
      have hskipped : tx.sender ∈ executor.skipSenders := by
        simpa [member?, hpayload] using h
      rw [applyPreceding, hpayload]
      simp [hskipped]

theorem applyPreceding_cons_of_some {tx : BlockTransaction} {member : Member}
    (h : executor.member? tx = some member) (rest : List BlockTransaction) :
    executor.applyPreceding (tx :: rest) = do
      let _ ← commit executor.config executor.block member.tx (.precedingTransaction member.hash)
      let executed ← executor.applyPreceding rest
      return executed + 1 := by
  obtain ⟨hpayload, hkept, hhash⟩ := member?_eq_some.mp h
  rw [applyPreceding, hpayload, hhash]
  simp [hkept]

/-- A member is attempted, and what comes after it goes on from the state it leaves. -/
theorem run_applyPreceding_cons_of_some (db : Database) {tx : BlockTransaction} {member : Member}
    (h : executor.member? tx = some member) (rest : List BlockTransaction) :
    db.run (executor.applyPreceding (tx :: rest)) =
      match executor.attempt db member.tx with
      | (.error failure, after) =>
          (.error (blamed (.precedingTransaction member.hash) failure), after)
      | (.ok _, middle) =>
          ((middle.run (executor.applyPreceding rest)).1.map (· + 1),
            (middle.run (executor.applyPreceding rest)).2) := by
  rw [applyPreceding_cons_of_some h, Database.run_bind, run_commit, attempt]
  rcases db.run (Evm.transact executor.config executor.block member.tx) with
    ⟨failure | result, middle⟩
  · rfl
  · simp only [Except.mapError]
    rw [bind_pure_comp, Database.run_map]

/-- A block whose members all commit is applied, and its members are counted. -/
theorem run_applyPreceding_of_commits {txs : List BlockTransaction}
    {results : List Evm.ExecutionResult}
    (h : executor.Commits db (executor.members txs) results after) :
    db.run (executor.applyPreceding txs) = (.ok results.length, after) := by
  induction txs generalizing db results with
  | nil =>
      cases h
      exact Database.run_pure _ 0
  | cons tx rest ih =>
      cases hmember : executor.member? tx with
      | none =>
          rw [members_cons_of_none hmember] at h
          rw [applyPreceding_cons_of_none hmember]
          exact ih h
      | some member =>
          rw [members_cons_of_some hmember] at h
          cases h with
          | cons hfirst hrest =>
              rw [run_applyPreceding_cons_of_some db hmember, hfirst]
              dsimp only
              rw [ih hrest]
              rfl

/-- A block stops at its first member that fails, whatever comes after it. -/
theorem run_applyPreceding_of_failure {txs : List BlockTransaction} {done rest : List Member}
    {failing : Member} {results : List Evm.ExecutionResult} {failure : Evm.Failure}
    (hmembers : executor.members txs = done ++ failing :: rest)
    (hdone : executor.Commits db done results start)
    (hfailing : executor.attempt start failing.tx = (.error failure, after)) :
    db.run (executor.applyPreceding txs) =
      (.error (blamed (.precedingTransaction failing.hash) failure), after) := by
  -- A transaction that is passed over leaves `done` as it is, a member takes its first.
  induction txs generalizing db done results with
  | nil => simp [members] at hmembers
  | cons tx txs ih =>
      cases hmember : executor.member? tx with
      | none =>
          rw [members_cons_of_none hmember] at hmembers
          rw [applyPreceding_cons_of_none hmember]
          exact ih hmembers hdone
      | some member =>
          rw [members_cons_of_some hmember] at hmembers
          rw [run_applyPreceding_cons_of_some db hmember]
          cases hdone with
          | nil =>
              obtain ⟨rfl, -⟩ := List.cons.inj hmembers
              rw [hfailing]
          | cons hfirst hdone =>
              obtain ⟨rfl, htail⟩ := List.cons.inj hmembers
              rw [hfirst]
              dsimp only
              rw [ih htail hdone]
              rfl

/-- Either all members commit, or there is a first one that fails. -/
theorem commits_or_fails (executor : Executor) (db : Database) (members : List Member) :
    (∃ results after, executor.Commits db members results after) ∨
      ∃ done failing rest results start failure after, members = done ++ failing :: rest ∧
        executor.Commits db done results start ∧
        executor.attempt start failing.tx = (.error failure, after) := by
  induction members generalizing db with
  | nil => exact .inl ⟨[], db, .nil db⟩
  | cons member rest ih =>
      rcases hattempt : executor.attempt db member.tx with ⟨failure | result, middle⟩
      · exact .inr ⟨[], member, rest, [], db, failure, middle, rfl, .nil db, hattempt⟩
      · rcases ih middle with ⟨results, after, hrest⟩ |
          ⟨done, failing, later, results, start, failure, after, rfl, hdone, hfailing⟩
        · exact .inl ⟨result :: results, after, .cons hattempt hrest⟩
        · exact .inr ⟨member :: done, failing, later, result :: results, start, failure, after, rfl,
            .cons hattempt hdone, hfailing⟩

theorem run_executeTarget_of_system {target : BlockTransaction} {kind : UInt8} (db : Database)
    (h : target.payload = .system kind) :
    db.run (executor.executeTarget target) =
      (.error (.unsupportedTransactionType target.hash kind), db) := by
  rw [executeTarget, h]
  exact db.run_throw _

/-- The target is attempted whoever has sent it. -/
theorem run_executeTarget_of_executable {target : BlockTransaction} {tx : Transaction}
    (db : Database) (h : target.payload = .executable tx) :
    db.run (executor.executeTarget target) =
      match executor.attempt db tx with
      | (.error failure, after) => (.error (blamed (.execution target.hash) failure), after)
      | (.ok result, after) => (.ok (.ofResult result), after) := by
  rw [executeTarget, h, Database.run_map, run_commit, attempt]
  rcases db.run (Evm.transact executor.config executor.block tx) with ⟨failure | result, middle⟩
  · rfl
  · rfl

theorem run_replayInBlock_of_ok {txs : List BlockTransaction} {target : BlockTransaction}
    {executed : Nat}
    (h : db.run (executor.applyPreceding (before target.hash txs)) = (.ok executed, start)) :
    db.run (executor.replayInBlock txs target) = start.run (executor.executeTarget target) := by
  rw [replayInBlock, Database.run_bind, h]

theorem run_replayInBlock_of_error {txs : List BlockTransaction} {target : BlockTransaction}
    {error : ReplayError}
    (h : db.run (executor.applyPreceding (before target.hash txs)) = (.error error, after)) :
    db.run (executor.replayInBlock txs target) = (.error error, after) := by
  rw [replayInBlock, Database.run_bind, h]

/-- A replay commits the members of what comes before the target in the block. If they
all commit, it runs the target on the state that they leave. Otherwise it ends at the
first one that fails, with that one's hash, and in the state that those before it have
left. Only a crash is not put down to a transaction. -/
theorem replayInBlock_commits_members (executor : Executor) (db : Database)
    (txs : List BlockTransaction) (target : BlockTransaction) :
    ∃ earlier, BeforeFirst BlockTransaction.hash target.hash txs earlier ∧
      ((∃ results start, executor.Commits db (executor.members earlier) results start ∧
          (∀ kind, target.payload = .system kind →
            db.run (executor.replayInBlock txs target) =
              (.error (.unsupportedTransactionType target.hash kind), start)) ∧
          (∀ tx result after, target.payload = .executable tx →
            executor.attempt start tx = (.ok result, after) →
            db.run (executor.replayInBlock txs target) = (.ok (.ofResult result), after)) ∧
          ∀ tx failure after, target.payload = .executable tx →
            executor.attempt start tx = (.error failure, after) →
            db.run (executor.replayInBlock txs target) =
                (.error (blamed (.execution target.hash) failure), after) ∧
              (failure ≠ .crashed → blamed (.execution target.hash) failure =
                .execution target.hash failure.message) ∧
              after.SameState start) ∨
        ∃ done failing rest results start failure after,
          executor.members earlier = done ++ failing :: rest ∧
          executor.Commits db done results start ∧
          executor.attempt start failing.tx = (.error failure, after) ∧
          db.run (executor.replayInBlock txs target) =
            (.error (blamed (.precedingTransaction failing.hash) failure), after) ∧
          (failure ≠ .crashed → blamed (.precedingTransaction failing.hash) failure =
            .precedingTransaction failing.hash failure.message) ∧
          after.SameState start) := by
  refine ⟨before target.hash txs, beforeFirst_takeWhile _ _ _, ?_⟩
  rcases executor.commits_or_fails db (executor.members (before target.hash txs)) with
    ⟨results, start, hcommits⟩ |
    ⟨done, failing, rest, results, start, failure, after, hmembers, hdone, hfailing⟩
  · have hreplay := run_replayInBlock_of_ok (run_applyPreceding_of_commits hcommits)
    refine .inl ⟨results, start, hcommits, ?_, ?_, ?_⟩
    · intro kind hpayload
      rw [hreplay, run_executeTarget_of_system start hpayload]
    · intro tx result after hpayload hattempt
      rw [hreplay, run_executeTarget_of_executable start hpayload, hattempt]
    · intro tx failure after hpayload hattempt
      rw [hreplay, run_executeTarget_of_executable start hpayload, hattempt]
      exact ⟨rfl, fun hfailure => blamed_of_ne_crashed hfailure _,
        Database.sameState_of_transact_error hattempt⟩
  · have hreplay := run_replayInBlock_of_error
      (run_applyPreceding_of_failure hmembers hdone hfailing)
    exact .inr ⟨done, failing, rest, results, start, failure, after, hmembers, hdone, hfailing,
      hreplay, fun hfailure => blamed_of_ne_crashed hfailure _,
      Database.sameState_of_transact_error hfailing⟩

end Executor

end ForkReplay
