import ForkReplay.Chain.Address

/-!
# Transactions

A transaction as the virtual machine takes it, and a transaction of a block as a
replay sees it: either executable, or of an envelope that only its own chain
understands.
-/

namespace ForkReplay

/-- The largest fee and the largest payment for gas: both are 128 bits wide. -/
def maxFee : Nat := 0xffffffffffffffffffffffffffffffff

structure Authorization where
  chainId : Word
  /-- The account whose code is delegated to. -/
  address : Address
  nonce : UInt64
  /-- The signer, if the signature could be recovered. -/
  authority : Option Address
deriving DecidableEq, Inhabited

/-- The digest that the signer of an authorization signs: of the byte `0x05` and the encoded
list of the chain, the address and the nonce. -/
def Authorization.digest (authorization : Authorization) : Hash :=
  let items := Address.listItem (Bytes.ofNatShort authorization.chainId.toNat) ++
    Address.listItem authorization.address.toBytes ++
    Address.listItem (Bytes.ofNatShort authorization.nonce.toNat)
  let size := UInt8.ofNat items.size
  let leader := if size < 56 then [0xc0 + size] else [0xf8, size]
  keccak256 (Bytes.ofList (0x05 :: leader) ++ items)

structure AccessEntry where
  address : Address
  keys : List Word
deriving DecidableEq, Inhabited

/-- A transaction as the virtual machine takes it. -/
structure Transaction where
  kind : UInt8 := 0
  caller : Address
  nonce : UInt64 := 0
  /-- None for a creation. -/
  callee : Option Address
  data : Bytes := Bytes.ofList []
  value : Word := 0
  gasLimit : UInt64
  /-- The price, or the highest fee for kinds from 2 on. -/
  gasPrice : Nat := 0
  chainId : Option UInt64
  priorityFee : Option Nat := none
  maxFeePerBlobGas : Nat := 0
  blobHashes : List Hash := []
  accessList : List AccessEntry := []
  authorizations : List Authorization := []
deriving DecidableEq

/-- The price that a transaction pays for a unit of gas. Kinds from 2 on pay the base
fee and their tip, up to their highest fee. -/
def Transaction.effectiveGasPrice (tx : Transaction) (baseFee : Nat) : Nat :=
  if tx.kind < 2 then tx.gasPrice
  else
    match tx.priorityFee with
    | none => tx.gasPrice
    | some tip => min tx.gasPrice (baseFee + tip)

/-- How a transaction of a block takes part in a replay. -/
inductive Payload where
  /-- An Ethereum envelope, ready to run. -/
  | executable (tx : Transaction)
  /-- An envelope of the chain's own, with its type byte. -/
  | system (kind : UInt8)
deriving DecidableEq

structure BlockTransaction where
  hash : Hash
  sender : Address
  payload : Payload
deriving DecidableEq

end ForkReplay
