import ForkReplay.Chain.Transaction

/-!
# Envelopes

The kinds of transactions that a node reports. Those of Ethereum can be executed once
their sender is known; any other is known by its type byte alone.
-/

namespace ForkReplay.Node

/-- What every Ethereum transaction says. -/
structure Body where
  nonce : UInt64
  gasLimit : UInt64
  /-- None for a creation. -/
  callee : Option Address
  value : Word
  data : Bytes
deriving DecidableEq

/-- The fees that a transaction offers for a unit of gas. -/
structure Fees where
  max : Nat
  priority : Nat
deriving DecidableEq

/-- A transaction without its sender. -/
inductive Envelope where
  | legacy (body : Body) (chainId : Option UInt64) (gasPrice : Nat)
  | listed (body : Body) (chainId : UInt64) (gasPrice : Nat) (accessList : List AccessEntry)
  | dynamic (body : Body) (chainId : UInt64) (fees : Fees) (accessList : List AccessEntry)
  | blob (body : Body) (chainId : UInt64) (fees : Fees) (accessList : List AccessEntry)
      (maxFeePerBlobGas : Nat) (blobHashes : List Hash)
  | delegating (body : Body) (chainId : UInt64) (fees : Fees) (accessList : List AccessEntry)
      (authorizations : List Authorization)
  /-- An envelope of the chain's own, with its type byte. -/
  | foreign (kind : UInt8)
deriving DecidableEq

/-- The transaction of `sender` with the given type byte and chain, and no fees. -/
def Body.transaction (body : Body) (sender : Address) (kind : UInt8) (chainId : Option UInt64) :
    Transaction where
  kind := kind
  caller := sender
  nonce := body.nonce
  callee := body.callee
  data := body.data
  value := body.value
  gasLimit := body.gasLimit
  chainId := chainId

/-- Adds the fees and the access list of a transaction of kind 2 or later. -/
def Fees.offer (fees : Fees) (accessList : List AccessEntry) (tx : Transaction) : Transaction :=
  { tx with gasPrice := fees.max, priorityFee := some fees.priority, accessList }

/-- How an envelope of `sender` takes part in a replay. -/
def Envelope.payload (sender : Address) : Envelope → Payload
  | .legacy body chainId gasPrice =>
      .executable { body.transaction sender 0 chainId with gasPrice }
  | .listed body chainId gasPrice accessList =>
      .executable { body.transaction sender 1 (some chainId) with gasPrice, accessList }
  | .dynamic body chainId fees accessList =>
      .executable (fees.offer accessList (body.transaction sender 2 (some chainId)))
  | .blob body chainId fees accessList maxFeePerBlobGas blobHashes =>
      .executable
        { fees.offer accessList (body.transaction sender 3 (some chainId)) with
          maxFeePerBlobGas, blobHashes }
  | .delegating body chainId fees accessList authorizations =>
      .executable
        { fees.offer accessList (body.transaction sender 4 (some chainId)) with authorizations }
  | .foreign kind => .system kind

/-- A transaction as a node reports it. Its hash and its sender are trusted. -/
structure TransactionReport where
  hash : Hash
  sender : Address
  envelope : Envelope
  /-- The block that holds the transaction; none while it is pending. -/
  blockNumber : Option UInt64
deriving DecidableEq

/-- The transaction as a replay sees it. -/
def TransactionReport.transaction (report : TransactionReport) : BlockTransaction where
  hash := report.hash
  sender := report.sender
  payload := report.envelope.payload report.sender

/-- The transaction that runs has the reported sender as its caller. -/
theorem Envelope.caller_of_payload {sender : Address} {envelope : Envelope} {tx : Transaction}
    (h : envelope.payload sender = .executable tx) : tx.caller = sender := by
  cases envelope <;> simp only [payload, Payload.executable.injEq, reduceCtorEq] at h <;>
    subst h <;> rfl

end ForkReplay.Node
