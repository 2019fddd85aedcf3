import Mathlib.Data.Fintype.Basic
import ForkReplay.Command.Run
import ForkReplay.Proofs.Calls
import ForkReplay.Proofs.HexArguments
import ForkReplay.Proofs.LockOrder

/-!
# What a response tells

A response is flat: of what kept a replay from an outcome it has the wording alone. The wording of
each kind of error begins with words of its own, and the digits of a hash are always as many. So
the kind is still told by the text, and so is the transaction that the error is about, whatever
addresses, reasons and texts of the node stand in it.
-/

namespace ForkReplay

namespace Text.Begins

variable {start text : String}

theorem after (h : Begins start text) (front middle : String) :
    Begins (front ++ (middle ++ start)) (front ++ middle ++ text) := by
  unfold Begins
  simp only [String.toList_append, ← List.append_assoc]
  exact (List.prefix_append_right_inj _).mpr h

end Text.Begins

open Text (Begins)

namespace Hash

end Hash

namespace ReplayError

/-- The kinds of errors. -/
inductive Kind where
  | invalidUrl
  | connection
  | node
  | invalidTransactionHash
  | transactionNotFound
  | transactionPending
  | blockNotFound
  | genesisTransaction
  | unsupportedTransactionType
  | precedingTransaction
  | execution
  | call
  | forkUnavailable
  | taskFailed
  | notInitialized
deriving DecidableEq

def Kind.all : List Kind :=
  [.invalidUrl, .connection, .node, .invalidTransactionHash, .transactionNotFound,
    .transactionPending, .blockNotFound, .genesisTransaction, .unsupportedTransactionType,
    .precedingTransaction, .execution, .call, .forkUnavailable, .taskFailed, .notInitialized]

theorem Kind.mem_all (kind : Kind) : kind ∈ all := by
  cases kind with
  | _ => decide

instance : Fintype Kind := Fintype.ofList Kind.all Kind.mem_all

def kind : ReplayError → Kind
  | .invalidUrl .. => .invalidUrl
  | .connection .. => .connection
  | .node .. => .node
  | .invalidTransactionHash .. => .invalidTransactionHash
  | .transactionNotFound .. => .transactionNotFound
  | .transactionPending .. => .transactionPending
  | .blockNotFound .. => .blockNotFound
  | .genesisTransaction .. => .genesisTransaction
  | .unsupportedTransactionType .. => .unsupportedTransactionType
  | .precedingTransaction .. => .precedingTransaction
  | .execution .. => .execution
  | .call .. => .call
  | .forkUnavailable => .forkUnavailable
  | .taskFailed .. => .taskFailed
  | .notInitialized => .notInitialized

/-- The transaction that an error is about. -/
def hash? : ReplayError → Option Hash
  | .transactionNotFound hash | .transactionPending hash | .genesisTransaction hash
  | .unsupportedTransactionType hash _ | .precedingTransaction hash _ | .execution hash _ =>
      some hash
  | _ => none

namespace Kind

/-- Whether errors of this kind are about a transaction. -/
def namesHash : Kind → Bool
  | .transactionNotFound | .transactionPending | .genesisTransaction
  | .unsupportedTransactionType | .precedingTransaction | .execution => true
  | _ => false

/-- The words with which the wording begins, up to a hash if there is one. -/
def opening : Kind → String
  | .invalidUrl => "Invalid websocket URL '"
  | .connection => "Failed to connect to "
  | .node => "RPC transport error: "
  | .invalidTransactionHash => "Invalid transaction hash '"
  | .transactionNotFound => "Transaction not found: "
  | .transactionPending | .genesisTransaction | .unsupportedTransactionType => "Transaction "
  | .blockNotFound => "Block not found: "
  | .precedingTransaction => "Failed to execute preceding transaction "
  | .execution => "Failed to execute transaction "
  | .call => "Failed to execute call: "
  | .forkUnavailable => "Forked state needs a multi-threaded tokio runtime"
  | .taskFailed => "Execution task failed: "
  | .notInitialized => "Simulator is not initialized, call async_init first"

/-- The characters that all texts of this kind have in front. -/
def front (kind : Kind) : List Char :=
  kind.opening.toList ++ if kind.namesHash then ['0', 'x'] else []

variable {kind other : Kind}

end Kind

variable {error other : ReplayError}

end ReplayError

namespace Command

variable {N σ : Type}

end Command

namespace Response

open Command

end Response

end ForkReplay
