import ForkReplay.Chain.Address
import ForkReplay.Node.Failure

/-!
# Errors of a replay

Everything that keeps a replay from coming to an outcome, and the wording of each.
-/

namespace ForkReplay

/-- Why a replay came to no outcome. -/
inductive ReplayError where
  /-- The endpoint is not the address of a websocket. -/
  | invalidUrl (url reason : String)
  /-- Nobody answers at the endpoint. -/
  | connection (url detail : String)
  | node (failure : Node.Failure)
  | invalidTransactionHash (text : String)
  | transactionNotFound (hash : Hash)
  | transactionPending (hash : Hash)
  | blockNotFound (number : UInt64)
  /-- A transaction of the first block has no state before it. -/
  | genesisTransaction (hash : Hash)
  | unsupportedTransactionType (hash : Hash) (kind : UInt8)
  /-- A transaction before the target could not be executed. -/
  | precedingTransaction (hash : Hash) (reason : String)
  | execution (hash : Hash) (reason : String)
  | call (reason : String)
  /-- Forks cannot be made where lookups must not wait. -/
  | forkUnavailable
  | taskFailed (detail : String)
  | notInitialized
deriving DecidableEq, Repr

def ReplayError.message : ReplayError → String
  | .invalidUrl url reason => s!"Invalid websocket URL '{url}': {reason}"
  | .connection url detail => s!"Failed to connect to {url}: {detail}"
  | .node failure => "RPC transport error: " ++ failure.message
  | .invalidTransactionHash text => s!"Invalid transaction hash '{text}'"
  | .transactionNotFound hash => "Transaction not found: " ++ Hash.text hash
  | .transactionPending hash =>
      "Transaction " ++ Hash.text hash ++ " is pending and has no block to replay against"
  | .blockNotFound number => s!"Block not found: {number}"
  | .genesisTransaction hash =>
      "Transaction " ++ Hash.text hash ++ " is in the genesis block and cannot be replayed"
  | .unsupportedTransactionType hash kind =>
      "Transaction " ++ Hash.text hash ++ " has unsupported type 0x" ++
        String.ofList (Text.Hex.byteDigits kind)
  | .precedingTransaction hash reason =>
      "Failed to execute preceding transaction " ++ Hash.text hash ++ ": " ++ reason
  | .execution hash reason =>
      "Failed to execute transaction " ++ Hash.text hash ++ ": " ++ reason
  | .call reason => "Failed to execute call: " ++ reason
  | .forkUnavailable => "Forked state needs a multi-threaded tokio runtime"
  | .taskFailed detail => "Execution task failed: " ++ detail
  | .notInitialized => "Simulator is not initialized, call async_init first"

/-- Reads the hash of a transaction. The error shows the text as it was given. -/
def Hash.read (text : String) : Except ReplayError Hash :=
  match Hash.ofText? text with
  | some hash => .ok hash
  | none => .error (.invalidTransactionHash text)

end ForkReplay
