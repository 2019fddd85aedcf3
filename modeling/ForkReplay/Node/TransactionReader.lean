import ForkReplay.Chain.Signature
import ForkReplay.Json.Bytes
import ForkReplay.Json.Quantity
import ForkReplay.Node.Envelope

/-!
# Reading reported transactions

A transaction is read as one of Ethereum if it fits the form of its type. One that
does not, but has a hash, a sender and a type byte, is an envelope of the chain's own.
-/

namespace ForkReplay.Node

open Json (optional? address? hash? bytes? quantity? quantity64? quantity256?)

/-- Reads a member that has to be there. -/
def field? {α : Type} (json : Json) (name : String) (read : Json → Option α) : Option α :=
  json.member? name >>= read

def items? {α : Type} (read : Json → Option α) (json : Json) : Option (List α) :=
  json.array? >>= List.mapM read

/-- The gas limit, which goes by one of two names. -/
def gasLimit? (json : Json) : Option UInt64 :=
  match json.member? "gas", json.member? "gasLimit" with
  | some gas, none | none, some gas => gas.quantity64?
  | _, _ => none

def Body.ofJson? (json : Json) : Option Body := do
  let nonce ← field? json "nonce" quantity64?
  let gasLimit ← gasLimit? json
  let callee ← optional? address? (json.member? "to")
  let value ← field? json "value" quantity256?
  let data ← field? json "input" bytes?
  return { nonce, gasLimit, callee, value, data }

/-- A body with a callee. -/
def Body.calling? (json : Json) : Option Body := do
  let body ← ofJson? json
  if body.callee.isSome then return body else none

def Fees.ofJson? (json : Json) : Option Fees := do
  let max ← field? json "maxFeePerGas" (quantity? 128)
  let priority ← field? json "maxPriorityFeePerGas" (quantity? 128)
  return { max, priority }

/-- An entry of an access list: an object, or an array of its two values. -/
def accessEntry? : Json → Option AccessEntry
  | .array [address, keys] => return ⟨← address.address?, ← items? hash? keys⟩
  | json => return ⟨← field? json "address" address?, ← field? json "storageKeys" (items? hash?)⟩

def accessList? (json : Json) : Option (List AccessEntry) :=
  field? json "accessList" (items? accessEntry?)

/-- The access list of a transaction of kind 2, where `null` is an empty list. -/
def lenientAccessList? (json : Json) : Option (List AccessEntry) :=
  match json.member? "accessList" with
  | some .null => some []
  | _ => accessList? json

/-- Whether a typed transaction is signed: it has both halves of a signature, and a
parity or a value from which a parity follows. -/
def isSigned (json : Json) : Bool :=
  let halves := (field? json "r" quantity256?).isSome && (field? json "s" quantity256?).isSome
  let parity :=
    match json.member? "yParity", json.member? "v" with
    | some yParity, none => (yParity.quantity? 1).isSome
    | none, some v => isParityValue v
    | some yParity, some v => (yParity.quantity? 1).isSome && isParityValue v
    | none, none => false
  halves && parity
where
  /-- Whether a parity follows from the value. -/
  isParityValue (v : Json) : Bool :=
    match v.quantity64? with
    | some v => v ≤ 1 || v = 27 || v = 28 || 35 ≤ v
    | none => false

/-- The chain that the signature of a legacy transaction is for, if it is for one
alone. -/
def signedChain? (v : Nat) : Option (Option UInt64) :=
  if v = 27 ∨ v = 28 then some none
  else if 35 ≤ v ∧ (v - 35) / 2 < UInt64.size then some (some (UInt64.ofNat ((v - 35) / 2)))
  else none

/-- The chain of a legacy transaction. It follows from the signature, except where the
signature is all zero. -/
def legacyChain? (json : Json) : Option (Option UInt64) := do
  let named ← optional? quantity64? (json.member? "chainId")
  let r ← field? json "r" quantity256?
  let s ← field? json "s" quantity256?
  let v ← field? json "v" (quantity? 128)
  if r = 0 ∧ s = 0 ∧ v = 0 then return named else signedChain? v

/-- The price of a legacy transaction, at most the largest fee. -/
def legacyPrice? (json : Json) : Option Nat :=
  (field? json "gasPrice" (quantity? 256)).map (min · maxFee)

/-- An entry of an authorization list, with the signer that its signature tells. -/
def authorization? (json : Json) : Option Authorization := do
  let chainId ← field? json "chainId" quantity256?
  let address ← field? json "address" address?
  let nonce ← field? json "nonce" quantity64?
  let parity ← match json.member? "yParity", json.member? "v" with
    | some parity, none | none, some parity => parity.quantity? 8
    | _, _ => none
  let r ← field? json "r" quantity256?
  let s ← field? json "s" quantity256?
  let unsigned : Authorization := { chainId, address, nonce, authority := none }
  return { unsigned with authority := Signature.signer? { r, s, parity } unsigned.digest }

/-- The Ethereum type of an envelope: legacy if none is given, else by its written form
or by its place. -/
def ethereumKind? : Option Json → Option Nat
  | none | some .null => some 0
  | some (.string name) =>
      (List.range 5).find? fun kind => name = s!"0x{kind}" || name = s!"0x0{kind}"
  | some json => json.quantity? 64 |>.filter (· < 5)

/-- An Ethereum envelope of the given type. -/
def Envelope.ofKind? (kind : Nat) (json : Json) : Option Envelope := do
  match kind with
  | 0 => return .legacy (← Body.ofJson? json) (← legacyChain? json) (← legacyPrice? json)
  | kind =>
      let chainId ← field? json "chainId" quantity64?
      if !isSigned json then none
      match kind with
      | 1 =>
          let gasPrice ← field? json "gasPrice" (quantity? 128)
          return .listed (← Body.ofJson? json) chainId gasPrice (← accessList? json)
      | 2 =>
          return .dynamic (← Body.ofJson? json) chainId (← Fees.ofJson? json)
            (← lenientAccessList? json)
      | 3 =>
          let maxFeePerBlobGas ← field? json "maxFeePerBlobGas" (quantity? 128)
          let blobHashes ← field? json "blobVersionedHashes" (items? hash?)
          return .blob (← Body.calling? json) chainId (← Fees.ofJson? json) (← accessList? json)
            maxFeePerBlobGas blobHashes
      | 4 =>
          let authorizations ← field? json "authorizationList" (items? authorization?)
          return .delegating (← Body.calling? json) chainId (← Fees.ofJson? json)
            (← accessList? json) authorizations
      | _ => none

/-- An envelope of Ethereum, if the object has the form of one. -/
def Envelope.ethereum? (json : Json) : Option Envelope :=
  (ethereumKind? (json.member? "type")).bind fun kind => ofKind? kind json

/-- An envelope that is known by its type byte alone. -/
def Envelope.foreign? (json : Json) : Option Envelope :=
  (field? json "type" (quantity? 8)).map fun kind => .foreign (UInt8.ofNat kind)

def Envelope.ofJson? (json : Json) : Option Envelope :=
  (ethereum? json).or (foreign? json)

def TransactionReport.ofJson? (json : Json) : Option TransactionReport := do
  let hash ← field? json "hash" hash?
  let sender ← field? json "from" address?
  let blockNumber ← optional? quantity64? (json.member? "blockNumber")
  let _ ← optional? hash? (json.member? "blockHash")
  let _ ← optional? quantity64? (json.member? "transactionIndex")
  let _ ← optional? quantity256? (json.member? "gasPrice")
  let envelope ← Envelope.ofJson? json
  return { hash, sender, envelope, blockNumber }

end ForkReplay.Node
