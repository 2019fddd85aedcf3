import ForkReplay.Chain.Block
import ForkReplay.Node.TransactionReader

/-!
# Reported blocks

A block as a node reports it, with its transactions in full or by their hashes, and
the reading of its JSON form.
-/

namespace ForkReplay.Node

/-- The transactions of a reported block. -/
inductive Listing where
  | full (transactions : List TransactionReport)
  | hashes (hashes : List Hash)
deriving DecidableEq

/-- A block as a node reports it. -/
structure BlockReport where
  hash : Hash
  header : Header
  listing : Listing
deriving DecidableEq

open Json (optional? address? hash? bytes? fixedBytes? quantity64? quantity256?)

/-- A quantity of 64 bits that is zero if its member is missing. -/
def quantityOrZero? (json : Json) (name : String) : Option UInt64 :=
  match json.member? name with
  | none => some 0
  | some value => value.quantity64?

/-- Whether every member that a header has to have, and every one that it may have, is
of the right form, apart from those that a replay uses. -/
def isHeader (json : Json) : Bool :=
  let required (name : String) (width : Nat) : Bool := (field? json name (fixedBytes? width)).isSome
  let bytes (name : String) (width : Nat) : Bool :=
    (optional? (fixedBytes? width) (json.member? name)).isSome
  let number (name : String) : Bool := (optional? quantity64? (json.member? name)).isSome
  let word (name : String) : Bool := (optional? quantity256? (json.member? name)).isSome
  required "parentHash" 32 && required "sha3Uncles" 32 && required "stateRoot" 32 &&
    required "transactionsRoot" 32 && required "receiptsRoot" 32 && required "logsBloom" 256 &&
    (field? json "extraData" bytes?).isSome && (quantityOrZero? json "gasUsed").isSome &&
    bytes "nonce" 8 && bytes "withdrawalsRoot" 32 && bytes "parentBeaconBlockRoot" 32 &&
    bytes "requestsHash" 32 && number "blobGasUsed" && word "totalDifficulty" && word "size"

def headerOfJson? (json : Json) : Option (Hash × Header) := do
  let hash ← field? json "hash" hash?
  let header : Header := {
    number := ← field? json "number" quantity64?
    timestamp := ← quantityOrZero? json "timestamp"
    beneficiary := ← field? json "miner" address?
    gasLimit := ← quantityOrZero? json "gasLimit"
    baseFee := ← optional? quantity64? (json.member? "baseFeePerGas")
    difficulty := ← field? json "difficulty" quantity256?
    mixHash := ← optional? hash? (json.member? "mixHash")
    excessBlobGas := ← optional? quantity64? (json.member? "excessBlobGas") }
  if isHeader json then return (hash, header) else none

/-- The transactions of a block: none, all in full, or all by their hashes. -/
def Listing.ofJson? : Option Json → Option Listing
  | none | some .null => some (.hashes [])
  | some json =>
      ((items? TransactionReport.ofJson? json).map .full).or ((items? hash? json).map .hashes)

/-- Whether a withdrawal is of the right form. -/
def isWithdrawal (json : Json) : Bool :=
  (field? json "index" quantity64?).isSome && (field? json "validatorIndex" quantity64?).isSome &&
    (field? json "address" address?).isSome && (field? json "amount" quantity64?).isSome

/-- Whether the lists of a block that a replay does not use are of the right form. -/
def hasSoundLists (json : Json) : Bool :=
  let uncles := match json.member? "uncles" with
    | none => true
    | some uncles => (items? hash? uncles).isSome
  let withdrawals := match json.present? "withdrawals" with
    | none => true
    | some withdrawals => (withdrawals.array?.map (List.all · isWithdrawal)).getD false
  uncles && withdrawals

def BlockReport.ofJson? (json : Json) : Option BlockReport := do
  let (hash, header) ← headerOfJson? json
  let listing ← Listing.ofJson? (json.member? "transactions")
  if hasSoundLists json then return { hash, header, listing } else none

end ForkReplay.Node
