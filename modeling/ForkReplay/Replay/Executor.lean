import ForkReplay.Replay.Outcome
import ForkReplay.Replay.ReplayError

/-!
# Executing the transactions of a block

An executor runs transactions under the rules of one block. Each one that runs is
committed, so it sees what those before it did. Transactions of the chain's own and
those of skipped senders are passed over at the start of a block, but never as the
target.
-/

namespace ForkReplay

/-- The rules under which the transactions of one block run. -/
structure Executor where
  config : Evm.Config
  block : BlockEnv
  /-- Senders whose transactions are passed over at the start of the block. -/
  skipSenders : List Address := []

/-- A computation that changes an overlay, looks up state and may fail. -/
abbrev Replaying := ExceptT ReplayError (StateT Overlay Lookups)

/-- A call that is not part of a block. -/
structure CallRequest where
  caller : Address
  callee : Address
  data : Bytes := Bytes.ofList []
  value : Word := 0
  gasLimit : Option UInt64 := none
deriving DecidableEq

namespace CallRequest

/-- The caller of calls that name none. -/
def defaultCaller : Address := 0x9a6dcf5e566fa65c67a5f82aa98d03207e065726

/-- The gas limit of calls that give none. -/
def defaultGasLimit : UInt64 := 30000000

def new (callee : Address) (data : Bytes) : CallRequest := { caller := defaultCaller, callee, data }

end CallRequest

namespace Executor

/-- The error that a failed transaction comes to. A crash ends the whole task; of
anything else `blame` makes an error. -/
def blamed (blame : String → ReplayError) : Evm.Failure → ReplayError
  | .crashed => .taskFailed Evm.Failure.crashed.message
  | failure => blame failure.message

/-- Executes and commits a transaction. `blame` makes an error of what is said of a
transaction that could not be executed. -/
def commit (config : Evm.Config) (block : BlockEnv) (tx : Transaction)
    (blame : String → ReplayError) : Replaying Evm.ExecutionResult :=
  ExceptT.adapt (blamed blame) (Evm.transact config block tx)

/-- Executes the transactions in order and counts those that ran. The first one that
cannot be executed ends it. -/
def applyPreceding (executor : Executor) : List BlockTransaction → Replaying Nat
  | [] => return 0
  | tx :: rest =>
      match tx.payload with
      | .system _ => executor.applyPreceding rest
      | .executable inner =>
          if executor.skipSenders.contains tx.sender then executor.applyPreceding rest
          else do
            let _ ← commit executor.config executor.block inner (.precedingTransaction tx.hash)
            let executed ← executor.applyPreceding rest
            return executed + 1

def executeTarget (executor : Executor) (target : BlockTransaction) : Replaying Outcome :=
  match target.payload with
  | .system kind => throw (.unsupportedTransactionType target.hash kind)
  | .executable inner =>
      Outcome.ofResult <$> commit executor.config executor.block inner (.execution target.hash)

/-- The transactions before the first one with the target's hash; all if there is
none. -/
def before (target : Hash) (txs : List BlockTransaction) : List BlockTransaction :=
  txs.takeWhile fun tx => tx.hash ≠ target

/-- Executes the target after everything that precedes it in the block. -/
def replayInBlock (executor : Executor) (txs : List BlockTransaction)
    (target : BlockTransaction) : Replaying Outcome := do
  let _ ← executor.applyPreceding (before target.hash txs)
  executor.executeTarget target

/-- The transaction that carries a call: free of charge, with a gas limit capped by
that of the block. -/
def callTransaction (executor : Executor) (request : CallRequest) : Transaction where
  caller := request.caller
  callee := some request.callee
  data := request.data
  value := request.value
  gasLimit := min (request.gasLimit.getD CallRequest.defaultGasLimit) executor.block.gasLimit
  chainId := some executor.config.chainId

/-- Executes a call. Any nonce will do, and no base fee applies. -/
def call (executor : Executor) (request : CallRequest) : Replaying Outcome :=
  Outcome.ofResult <$> commit { executor.config with checksNonce := false }
    { executor.block with baseFee := 0 } (executor.callTransaction request) .call

end Executor

end ForkReplay
