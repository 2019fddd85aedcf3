import ForkReplay.Proofs.Calls

/-!
# Operations of an executor

An executor serves any number of operations on one database. Each of them is a pass over some
transactions, under the rules of the executor or, for a call, under rules that are relaxed for
that call alone. A transaction that fails ends its pass and leaves no trace in the state.
-/

namespace ForkReplay

namespace Executor

/-- An operation of an executor. -/
inductive Operation where
  | applyPreceding (txs : List BlockTransaction)
  | executeTarget (target : BlockTransaction)
  | replayInBlock (txs : List BlockTransaction) (target : BlockTransaction)
  | call (request : CallRequest)

/-- What an operation answers if nothing fails. -/
inductive Answer where
  | executed (count : Nat)
  | outcome (outcome : Outcome)

/-- A transaction that was tried, with the database it started from and the one it left. -/
structure Trial where
  tx : Transaction
  start : Database
  reply : Except Evm.Failure Evm.ExecutionResult
  after : Database

/-- Trials one after the other, each on the database that the one before it has left. -/
structure Pass where
  trials : List Trial
  after : Database

namespace Pass

variable {config : Evm.Config} {block : BlockEnv} {db : Database}

/-- Tries transactions under the given rules, up to the first one that fails. -/
def along (config : Evm.Config) (block : BlockEnv) : Database → List Transaction → Pass
  | db, [] => ⟨[], db⟩
  | db, tx :: rest =>
      match db.run (Evm.transact config block tx) with
      | (.error failure, after) => ⟨[⟨tx, db, .error failure, after⟩], after⟩
      | (.ok result, middle) =>
          let pass := along config block middle rest
          ⟨⟨tx, db, .ok result, middle⟩ :: pass.trials, pass.after⟩

/-- All trials have succeeded. -/
def Completes (pass : Pass) : Prop := ∀ trial ∈ pass.trials, ∃ result, trial.reply = .ok result

theorem completes_nil (db : Database) : (along config block db []).Completes :=
  fun _ hmem => nomatch hmem

/-- Each trial of a pass is a run of its transaction. -/
theorem run_of_mem {txs : List Transaction} {trial : Trial}
    (h : trial ∈ (along config block db txs).trials) :
    trial.start.run (Evm.transact config block trial.tx) = (trial.reply, trial.after) := by
  induction txs generalizing db with
  | nil => cases h
  | cons tx rest ih =>
      rw [along] at h
      split at h
      next hrun =>
        obtain rfl := List.mem_singleton.mp h
        exact hrun
      next hrun =>
        rcases List.mem_cons.mp h with rfl | hlater
        · exact hrun
        · exact ih hlater

theorem along_cons_of_error {tx : Transaction} {failure : Evm.Failure} {after : Database}
    (h : db.run (Evm.transact config block tx) = (.error failure, after))
    (rest : List Transaction) :
    along config block db (tx :: rest) = ⟨[⟨tx, db, .error failure, after⟩], after⟩ := by
  rw [along, h]

theorem along_cons_of_ok {tx : Transaction} {result : Evm.ExecutionResult} {middle : Database}
    (h : db.run (Evm.transact config block tx) = (.ok result, middle))
    (rest : List Transaction) :
    along config block db (tx :: rest) =
      ⟨⟨tx, db, .ok result, middle⟩ :: (along config block middle rest).trials,
        (along config block middle rest).after⟩ := by
  rw [along, h]

theorem not_completes_of_error {txs : List Transaction} {tx : Transaction}
    {failure : Evm.Failure} {after : Database}
    (h : db.run (Evm.transact config block tx) = (.error failure, after)) :
    ¬ (along config block db (tx :: txs)).Completes := by
  intro hcompletes
  rw [along_cons_of_error h] at hcompletes
  obtain ⟨result, hresult⟩ := hcompletes _ (List.mem_singleton_self _)
  cases hresult

theorem completes_cons_of_ok {txs : List Transaction} {tx : Transaction}
    {result : Evm.ExecutionResult} {middle : Database}
    (h : db.run (Evm.transact config block tx) = (.ok result, middle)) :
    (along config block db (tx :: txs)).Completes ↔ (along config block middle txs).Completes := by
  rw [along_cons_of_ok h]
  simp [Completes]

/-- A pass that is completed goes on with what comes after it. -/
theorem along_append_of_completes {first : List Transaction}
    (h : (along config block db first).Completes) (second : List Transaction) :
    along config block db (first ++ second) =
      ⟨(along config block db first).trials ++
          (along config block (along config block db first).after second).trials,
        (along config block (along config block db first).after second).after⟩ := by
  induction first generalizing db with
  | nil => rfl
  | cons tx rest ih =>
      rcases hrun : db.run (Evm.transact config block tx) with ⟨failure | result, middle⟩
      · exact absurd h (not_completes_of_error hrun)
      · rw [List.cons_append, along_cons_of_ok hrun, along_cons_of_ok hrun,
          ih ((completes_cons_of_ok hrun).mp h)]
        rfl

/-- What comes after a pass that is not completed does not matter. -/
theorem along_append_of_not_completes {first : List Transaction}
    (h : ¬ (along config block db first).Completes) (second : List Transaction) :
    along config block db (first ++ second) = along config block db first := by
  induction first generalizing db with
  | nil => exact absurd (completes_nil db) h
  | cons tx rest ih =>
      rcases hrun : db.run (Evm.transact config block tx) with ⟨failure | result, middle⟩
      · rw [List.cons_append, along_cons_of_error hrun, along_cons_of_error hrun]
      · rw [List.cons_append, along_cons_of_ok hrun, along_cons_of_ok hrun,
          ih fun hrest => h ((completes_cons_of_ok hrun).mpr hrest)]

end Pass

namespace Operation

variable {executor : Executor}

/-- The rules for the transactions of an operation. -/
def config (executor : Executor) : Operation → Evm.Config
  | .call _ => executor.callConfig
  | _ => executor.config

/-- The block for the transactions of an operation. -/
def block (executor : Executor) : Operation → BlockEnv
  | .call _ => executor.callBlock
  | _ => executor.block

/-- What is executed of a target. -/
def ofTarget (target : BlockTransaction) : List Transaction :=
  match target.payload with
  | .system _ => []
  | .executable tx => [tx]

/-- The transactions that an operation is to execute, in order. -/
def transactions (executor : Executor) : Operation → List Transaction
  | .applyPreceding txs => (executor.members txs).map Member.tx
  | .executeTarget target => ofTarget target
  | .replayInBlock txs target =>
      (executor.members (Executor.before target.hash txs)).map Member.tx ++ ofTarget target
  | .call request => [executor.callTransaction request]

/-- The pass of an operation. -/
def pass (executor : Executor) (db : Database) (op : Operation) : Pass :=
  .along (op.config executor) (op.block executor) db (op.transactions executor)

/-- The operation has no target, or one that can be executed. -/
def Supported : Operation → Prop
  | .executeTarget target | .replayInBlock _ target => ∃ tx, target.payload = .executable tx
  | _ => True

end Operation

variable {executor : Executor} {db : Database}

/-- Performs an operation. -/
def perform (executor : Executor) : Operation → Replaying Answer
  | .applyPreceding txs => .executed <$> executor.applyPreceding txs
  | .executeTarget target => .outcome <$> executor.executeTarget target
  | .replayInBlock txs target => .outcome <$> executor.replayInBlock txs target
  | .call request => .outcome <$> executor.call request

/-- Performs operations one after the other, each on the database that the one before it has
left, and collects the answers. -/
def serve (executor : Executor) :
    Database → List Operation → List (Except ReplayError Answer) × Database
  | db, [] => ([], db)
  | db, op :: rest =>
      let (answer, middle) := db.run (executor.perform op)
      let (answers, after) := executor.serve middle rest
      (answer :: answers, after)

theorem serve_append (executor : Executor) (db : Database) (earlier later : List Operation) :
    executor.serve db (earlier ++ later) =
      ((executor.serve db earlier).1 ++
          (executor.serve (executor.serve db earlier).2 later).1,
        (executor.serve (executor.serve db earlier).2 later).2) := by
  induction earlier generalizing db with
  | nil => rfl
  | cons op rest ih => simp only [List.cons_append, serve, ih]

/-! ## Each operation is a pass -/

/-- A run leaves the database of a pass, and has a value if the pass is completed and `more`
holds. -/
structure IsPass {α : Type} (pass : Pass) (more : Prop) (ending : Except ReplayError α × Database) :
    Prop where
  after : ending.2 = pass.after
  answers : (∃ value, ending.1 = .ok value) ↔ more ∧ pass.Completes

theorem exists_map_eq_ok {ε α β : Type} (x : Except ε α) (f : α → β) :
    (∃ value, x.map f = .ok value) ↔ ∃ value, x = .ok value := by
  cases x with
  | error error => simp [Except.map]
  | ok value => simp [Except.map]

theorem IsPass.map {α β : Type} {pass : Pass} {more : Prop} {x : Replaying α}
    (h : IsPass pass more (db.run x)) (f : α → β) : IsPass pass more (db.run (f <$> x)) := by
  rw [Database.run_map]
  exact ⟨h.after, (exists_map_eq_ok _ f).trans h.answers⟩

theorem isPass_commit (db : Database) (config : Evm.Config) (block : BlockEnv) (tx : Transaction)
    (blame : String → ReplayError) :
    IsPass (.along config block db [tx]) True (db.run (commit config block tx blame)) := by
  rw [run_commit]
  rcases hrun : db.run (Evm.transact config block tx) with ⟨failure | result, after⟩
  · refine ⟨by rw [Pass.along_cons_of_error hrun], ?_⟩
    simp [Except.mapError, Pass.not_completes_of_error hrun]
  · refine ⟨by rw [Pass.along_cons_of_ok hrun]; rfl, ?_⟩
    rw [Pass.completes_cons_of_ok hrun]
    simp [Except.mapError, Pass.completes_nil]

theorem isPass_applyPreceding (executor : Executor) (db : Database) (txs : List BlockTransaction) :
    IsPass (.along executor.config executor.block db ((executor.members txs).map Member.tx)) True
      (db.run (executor.applyPreceding txs)) := by
  induction txs generalizing db with
  | nil => exact ⟨rfl, fun _ => ⟨trivial, Pass.completes_nil db⟩, fun _ => ⟨0, rfl⟩⟩
  | cons tx rest ih =>
      cases hmember : executor.member? tx with
      | none =>
          rw [members_cons_of_none hmember, applyPreceding_cons_of_none hmember]
          exact ih db
      | some member =>
          rw [members_cons_of_some hmember, run_applyPreceding_cons_of_some db hmember,
            List.map_cons]
          rcases hrun : executor.attempt db member.tx with ⟨failure | result, middle⟩
          · refine ⟨by rw [Pass.along_cons_of_error hrun], ?_⟩
            simp [Pass.not_completes_of_error hrun]
          · refine ⟨?_, ?_⟩
            · rw [Pass.along_cons_of_ok hrun]
              exact (ih middle).after
            · rw [Pass.completes_cons_of_ok hrun, ← (ih middle).answers]
              exact exists_map_eq_ok _ _

theorem isPass_executeTarget (executor : Executor) (db : Database) (target : BlockTransaction) :
    IsPass (.along executor.config executor.block db (Operation.ofTarget target))
      (∃ tx, target.payload = .executable tx) (db.run (executor.executeTarget target)) := by
  cases hpayload : target.payload with
  | system kind =>
      rw [run_executeTarget_of_system db hpayload, Operation.ofTarget, hpayload]
      refine ⟨rfl, ?_⟩
      simp
  | executable tx =>
      have hcommit := (isPass_commit db executor.config executor.block tx
        (.execution target.hash)).map Outcome.ofResult
      rw [executeTarget, Operation.ofTarget, hpayload]
      refine ⟨hcommit.after, hcommit.answers.trans ?_⟩
      simp

/-- The target goes on from the pass over what comes before it, if that is completed. -/
theorem isPass_replayInBlock (executor : Executor) (db : Database) (txs : List BlockTransaction)
    (target : BlockTransaction) :
    IsPass ((Operation.replayInBlock txs target).pass executor db)
      (∃ tx, target.payload = .executable tx) (db.run (executor.replayInBlock txs target)) := by
  have hstart := executor.isPass_applyPreceding db (before target.hash txs)
  change IsPass (.along executor.config executor.block db
    ((executor.members (before target.hash txs)).map Member.tx ++ Operation.ofTarget target)) _ _
  generalize (executor.members (before target.hash txs)).map Member.tx = earlier at hstart ⊢
  rcases hrun : db.run (executor.applyPreceding (before target.hash txs)) with
    ⟨error | executed, start⟩
  · rw [hrun] at hstart
    have hnot : ¬ (Pass.along executor.config executor.block db earlier).Completes :=
      fun hcompletes => nomatch hstart.answers.mpr ⟨trivial, hcompletes⟩
    rw [run_replayInBlock_of_error hrun, Pass.along_append_of_not_completes hnot]
    refine ⟨hstart.after, ?_⟩
    simp [hnot]
  · rw [hrun] at hstart
    obtain rfl : start = _ := hstart.after
    have hcompletes := (hstart.answers.mp ⟨executed, rfl⟩).2
    have htarget := executor.isPass_executeTarget
      (Pass.along executor.config executor.block db earlier).after target
    rw [run_replayInBlock_of_ok hrun, Pass.along_append_of_completes hcompletes]
    refine ⟨htarget.after, htarget.answers.trans (and_congr_right fun _ => ?_)⟩
    simp only [Pass.Completes, List.forall_mem_append]
    exact (and_iff_right hcompletes).symm

/-- Every operation is the pass over its transactions. -/
theorem isPass_perform (executor : Executor) (db : Database) (op : Operation) :
    IsPass (op.pass executor db) op.Supported (db.run (executor.perform op)) := by
  cases op with
  | applyPreceding txs => exact (executor.isPass_applyPreceding db txs).map _
  | executeTarget target => exact (executor.isPass_executeTarget db target).map _
  | replayInBlock txs target => exact (executor.isPass_replayInBlock db txs target).map _
  | call request => exact ((isPass_commit ..).map _).map _

/-! ## Any number of operations -/

/-- What a transaction that ran has met under rules that check everything. -/
theorem fees_and_nonce_of_ok {config : Evm.Config} {block : BlockEnv} {tx : Transaction}
    {after : Database} {result : Evm.ExecutionResult}
    (hrun : db.run (Evm.transact config block tx) = (.ok result, after)) :
    (config.checksNonce → tx.nonce = (db.account tx.caller).nonce) ∧
      (tx.kind ≤ 4 → block.baseFee.toNat ≤ tx.effectiveGasPrice block.baseFee.toNat) := by
  have hcourse := Evm.course_transact config block tx db
  rw [hrun] at hcourse
  cases hcourse with
  | ran hpassed _ =>
      exact ⟨(Evm.checkCaller_eq_ok.mp hpassed.accepted).2.1,
        Evm.baseFee_le_of_checkKind (Evm.checkTransaction_eq_ok.mp hpassed.valid).2.1⟩

/-- Whatever was performed before, an operation answers what an executor with the same rules
answers that has performed nothing yet. It has a value if it is supported and none of its
transactions fails, and it leaves the database of its pass. A transaction that fails leaves
nothing behind. One that does not, if it is no call, has had the nonce of its caller and has paid
the base fee, where the rules of the executor ask for that. -/
theorem serve_keeps_rules (executor : Executor) (db : Database) (earlier later : List Operation)
    (op : Operation) :
    ∃ current answer pass, current = (executor.serve db earlier).2 ∧
      pass = op.pass executor current ∧
      current.run (executor.perform op) = (answer, pass.after) ∧
      executor.serve db (earlier ++ op :: later) =
        ((executor.serve db earlier).1 ++ answer :: (executor.serve pass.after later).1,
          (executor.serve pass.after later).2) ∧
      ((∃ value, answer = .ok value) ↔ op.Supported ∧ pass.Completes) ∧
      ∀ trial ∈ pass.trials,
        (∀ failure, trial.reply = .error failure → trial.after.SameState trial.start) ∧
        ∀ result, trial.reply = .ok result → (∀ request, op ≠ .call request) →
          (executor.config.checksNonce →
            trial.tx.nonce = (trial.start.account trial.tx.caller).nonce) ∧
          (trial.tx.kind ≤ 4 → executor.block.baseFee.toNat ≤
            trial.tx.effectiveGasPrice executor.block.baseFee.toNat) := by
  have hperform := executor.isPass_perform (executor.serve db earlier).2 op
  refine ⟨_, _, _, rfl, rfl, Prod.ext rfl hperform.after, ?_, hperform.answers, ?_⟩
  · rw [serve_append, ← hperform.after]
    rfl
  · intro trial htrial
    have hrun := Pass.run_of_mem htrial
    refine ⟨?_, ?_⟩
    · intro failure hfailure
      rw [hfailure] at hrun
      exact Database.sameState_of_transact_error hrun
    · intro result hresult hcall
      rw [hresult] at hrun
      have hmet := fees_and_nonce_of_ok hrun
      cases op with
      | call request => exact absurd rfl (hcall request)
      | applyPreceding txs | executeTarget target | replayInBlock txs target => exact hmet

end Executor

end ForkReplay
