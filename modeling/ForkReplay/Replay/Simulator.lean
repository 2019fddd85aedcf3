import ForkReplay.Chain.Network
import ForkReplay.Node.Lookup
import ForkReplay.Replay.Executor
import ForkReplay.Replay.Settings

/-!
# Simulators

A simulator replays mined transactions on forks of a node's state. A replay is planned
first: the target, its block and the transactions before it are fetched. The plan is
then executed on a fork of the state after the parent block. A call runs on a fork of
the state after its own block.
-/

namespace ForkReplay

/-- A computation that asks a node and may fail. -/
abbrev Simulating := ExceptT ReplayError Node.Asking

namespace Simulating

/-- Asks a node; a failed query is an error. -/
def ask (query : Node.Query) : Simulating query.Answer :=
  ExceptT.adapt .node (ExceptT.mk (Dialogue.question query))

/-- The value of a reply that may be unknown to the node. -/
def known {α : Type} (error : ReplayError) : Option α → Simulating α
  | some value => pure value
  | none => throw error

/-- Runs a computation on a fork of the state after the given block, and forgets the
fork. -/
def onFork {α : Type} (number : UInt64) (computation : Replaying α) : Simulating α :=
  ExceptT.mk (Prod.fst <$> Node.forkAt number (computation.run.run Overlay.fork))

end Simulating

/-- Everything needed to replay a transaction. -/
structure Plan where
  target : BlockTransaction
  /-- The transactions before the target in its block. -/
  preceding : List BlockTransaction
  /-- The block whose state is forked, the parent of the target's block. -/
  forkBlock : UInt64
  /-- The rules of the target's block. -/
  fork : HardFork
  block : BlockContext
deriving DecidableEq

/-- What replays transactions against a node. -/
structure Simulator where
  settings : Settings
  chainId : UInt64
  /-- Whether the state of the node can be forked. It cannot where lookups must not
  wait for answers. -/
  canFork : Bool := true
  precompiles : Evm.Precompiles := Evm.Precompiles.basic

namespace Simulator

open Simulating

/-- Makes a simulator for a node. The chain id is asked only if the settings give
none. -/
def start (settings : Settings) (canFork : Bool := true)
    (precompiles : Evm.Precompiles := Evm.Precompiles.basic) : Simulating Simulator :=
  match settings.chainId with
  | some chainId => return { settings, chainId, canFork, precompiles }
  | none => return { settings, chainId := ← ask .chainId, canFork, precompiles }

/-- The senders whose transactions are passed over at the start of a block. -/
def skipSenders (simulator : Simulator) : List Address :=
  systemSenders simulator.chainId ++ simulator.settings.skipSenders

/-- The rules of a block. -/
def forkFor (simulator : Simulator) (block : BlockContext) : HardFork :=
  forkForBlock simulator.chainId block.number block.timestamp simulator.settings.fallback

/-- The executor of transactions of a block. -/
def executor (simulator : Simulator) (fork : HardFork) (block : BlockContext)
    (skipSenders : List Address) : Executor where
  config := { fork, chainId := simulator.chainId, precompiles := simulator.precompiles }
  block := block.env fork
  skipSenders := skipSenders

def fetchTransactions : List Hash → Simulating (List BlockTransaction)
  | [] => return []
  | hash :: rest => do
      let report ← known (.transactionNotFound hash) (← ask (.transaction hash))
      let txs ← fetchTransactions rest
      return report.transaction :: txs

/-- The transactions of a block before the first one with the target's hash; all if
there is none. -/
def preceding (target : Hash) : Node.Listing → Simulating (List BlockTransaction)
  | .full reports =>
      return (reports.takeWhile fun report => report.hash ≠ target).map fun report =>
        report.transaction
  | .hashes hashes => fetchTransactions (hashes.takeWhile fun hash => hash ≠ target)

/-- Plans the replay of a reported transaction: fetches its block, which has the given
number, and the transactions before it. -/
def planIn (simulator : Simulator) (target : Hash) (report : Node.TransactionReport)
    (number : UInt64) : Simulating Plan := do
  let block ← known (.blockNotFound number) (← ask (.block (.number number) true))
  let context := BlockContext.ofHeader block.header
  let preceding ← preceding target block.listing
  return {
    target := report.transaction
    preceding
    forkBlock := number - 1
    fork := simulator.forkFor context
    block := context }

/-- Fetches the target, its block and the transactions before it. -/
def plan (simulator : Simulator) (target : Hash) : Simulating Plan := do
  let report ← known (.transactionNotFound target) (← ask (.transaction target))
  let number ← known (.transactionPending target) report.blockNumber
  if number = 0 then throw (.genesisTransaction target)
  else simulator.planIn target report number

/-- Executes a plan on a fork of the state after the parent block. -/
def execute (simulator : Simulator) (plan : Plan) : Simulating Outcome :=
  if simulator.canFork then
    onFork plan.forkBlock
      ((simulator.executor plan.fork plan.block simulator.skipSenders).replayInBlock plan.preceding
        plan.target)
  else throw .forkUnavailable

def replay (simulator : Simulator) (target : Hash) : Simulating Outcome := do
  let plan ← simulator.plan target
  simulator.execute plan

/-- Executes a call on a fork of the state after a block, the newest one if none is
given. -/
def call (simulator : Simulator) (request : CallRequest) (block : Option UInt64) :
    Simulating Outcome := do
  let tag := match block with
    | some number => .number number
    | none => .latest
  let report ← known (.blockNotFound (block.getD 0)) (← ask (.block tag false))
  let context := BlockContext.ofHeader report.header
  if simulator.canFork then
    onFork context.number
      ((simulator.executor (simulator.forkFor context) context []).call request)
  else throw .forkUnavailable

end Simulator

end ForkReplay
