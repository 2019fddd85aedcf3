import ForkReplay.Chain.Block
import ForkReplay.Chain.Transaction
import ForkReplay.Evm.Gas
import ForkReplay.Evm.Precompile

/-!
# Validity of transactions

The conditions that a transaction has to meet before it may run, in the order in
which they are checked. First come those on the transaction and its block, then its
intrinsic gas, and last those on the state of its caller.
-/

namespace ForkReplay.Evm

/-- Why a transaction is not valid. -/
inductive Invalid where
  | chainId
  | missingChainId
  /-- The kind of the transaction came with a later hard fork. -/
  | notSupported (proposal : Nat)
  | gasPriceBelowBaseFee
  | priorityFeeAboveMaxFee
  | blobPriceAboveMaxFee
  | emptyBlobs
  | blobVersionNotSupported
  | emptyAuthorizationList
  | gasLimitAboveBlock
  | initCodeSizeLimit
  | gasCostAboveLimit (cost limit : Nat)
  | gasFloorAboveLimit (floor limit : Nat)
  | callerWithCode
  | nonceTooHigh (given expected : UInt64)
  | nonceTooLow (given expected : UInt64)
  | overflowPayment
  | lackOfFunds (balance cost : Nat)
deriving DecidableEq, Repr

def Invalid.message : Invalid → String
  | .chainId => "invalid chain ID"
  | .missingChainId => "missing chain ID"
  | .notSupported proposal => s!"Eip{proposal} is not supported"
  | .gasPriceBelowBaseFee => "gas price is less than basefee"
  | .priorityFeeAboveMaxFee => "priority fee is greater than max fee"
  | .blobPriceAboveMaxFee => "blob gas price is greater than max fee per blob gas"
  | .emptyBlobs => "empty blobs"
  | .blobVersionNotSupported => "blob version not supported"
  | .emptyAuthorizationList => "empty authorization list"
  | .gasLimitAboveBlock => "caller gas limit exceeds the block gas limit"
  | .initCodeSizeLimit => "create initcode size limit"
  | .gasCostAboveLimit cost limit => s!"call gas cost ({cost}) exceeds the gas limit ({limit})"
  | .gasFloorAboveLimit floor limit => s!"gas floor ({floor}) exceeds the gas limit ({limit})"
  | .callerWithCode => "reject transactions from senders with deployed code"
  | .nonceTooHigh given expected => s!"nonce {given} too high, expected {expected}"
  | .nonceTooLow given expected => s!"nonce {given} too low, expected {expected}"
  | .overflowPayment => "overflow payment in transaction"
  | .lackOfFunds balance cost => s!"lack of funds ({balance}) for max fee ({cost})"

/-- What a block lacks to run transactions at all. -/
inductive IncompleteBlock where
  | prevRandao
  | excessBlobGas
deriving DecidableEq, Repr

def IncompleteBlock.message : IncompleteBlock → String
  | .prevRandao => "`prevrandao` not set"
  | .excessBlobGas => "`excess_blob_gas` not set"

/-- Why a transaction could not be executed. -/
inductive Failure where
  | incompleteBlock (lack : IncompleteBlock)
  | invalid (cause : Invalid)
  /-- A lookup of state failed. -/
  | database (message : String)
  /-- A lookup of state brought something that makes no sense. -/
  | crashed
deriving DecidableEq, Repr

def Failure.message : Failure → String
  | .incompleteBlock lack => "header validation error: " ++ lack.message
  | .invalid cause => "transaction validation error: " ++ cause.message
  | .database message => "database error: " ++ message
  | .crashed => "execution crashed"

/-- The rules under which transactions run. -/
structure Config where
  fork : HardFork
  chainId : UInt64
  /-- Whether the nonce of a transaction has to be its caller's. -/
  checksNonce : Bool := true
  precompiles : Precompiles := Precompiles.basic
deriving Inhabited

/-- The blob gas of one blob. -/
def gasPerBlob : Nat := 131072

/-- The checks on the fee of a kind with a highest fee and a tip. -/
def checkDynamicFee (tx : Transaction) (baseFee : Nat) : Except Invalid Unit :=
  let tip := tx.priorityFee.getD 0
  if tx.gasPrice < tip then .error .priorityFeeAboveMaxFee
  else if min tx.gasPrice (baseFee + tip) < baseFee then .error .gasPriceBelowBaseFee
  else .ok ()

/-- The check on the fee of a kind with one price. -/
def checkPlainFee (tx : Transaction) (baseFee : Nat) : Except Invalid Unit :=
  if tx.gasPrice < baseFee then .error .gasPriceBelowBaseFee else .ok ()

/-- The check that a kind of transaction is known to the rules. -/
def checkSupport (fork since : HardFork) (proposal : Nat) : Except Invalid Unit :=
  if fork.has since then .ok () else .error (.notSupported proposal)

def checkBlobs (tx : Transaction) (price : Nat) : Except Invalid Unit :=
  if tx.maxFeePerBlobGas < price then .error .blobPriceAboveMaxFee
  else if tx.blobHashes.isEmpty then .error .emptyBlobs
  else if tx.blobHashes.any fun hash => hash.toNat >>> 248 ≠ 1 then
    .error .blobVersionNotSupported
  else .ok ()

/-- The checks that depend on the kind of a transaction. -/
def checkKind (fork : HardFork) (block : BlockEnv) (tx : Transaction) : Except Invalid Unit := do
  let baseFee := block.baseFee.toNat
  match tx.kind.toNat with
  | 0 => checkPlainFee tx baseFee
  | 1 => do
      checkSupport fork .berlin 2930
      checkPlainFee tx baseFee
  | 2 => do
      checkSupport fork .london 1559
      checkDynamicFee tx baseFee
  | 3 => do
      checkSupport fork .cancun 4844
      checkDynamicFee tx baseFee
      checkBlobs tx ((block.blob.map BlobGas.price).getD 0)
  | 4 => do
      checkSupport fork .prague 7702
      checkDynamicFee tx baseFee
      if tx.authorizations.isEmpty then .error .emptyAuthorizationList else .ok ()
  | _ => .ok ()

/-- The check that a transaction is meant for this chain. Only kind 0 and kinds
beyond 4 may leave the chain open. -/
def checkChain (config : Config) (tx : Transaction) : Except Invalid Unit :=
  match tx.chainId with
  | some chainId => if chainId = config.chainId then .ok () else .error .chainId
  | none => if 1 ≤ tx.kind ∧ tx.kind ≤ 4 then .error .missingChainId else .ok ()

/-- The check that a block has what its rules ask for. -/
def checkBlock (fork : HardFork) (block : BlockEnv) : Except IncompleteBlock Unit :=
  if fork.has .merge && block.prevRandao.isNone then .error .prevRandao
  else if fork.has .cancun && block.blob.isNone then .error .excessBlobGas
  else .ok ()

/-- The checks on a transaction that need neither gas nor state. -/
def checkTransaction (config : Config) (block : BlockEnv) (tx : Transaction) :
    Except Invalid Unit := do
  checkChain config tx
  checkKind config.fork block tx
  if block.gasLimit < tx.gasLimit then .error .gasLimitAboveBlock
  else if config.fork.has .shanghai && tx.callee.isNone && Gas.maxInitCodeSize < tx.data.size then
    .error .initCodeSizeLimit
  else .ok ()

/-- What a transaction costs before it runs, and the least that it costs in the end. -/
structure IntrinsicGas where
  initial : Nat
  floor : Nat
deriving DecidableEq, Repr

/-- The calldata of a transaction in tokens: one for a zero byte, four for another. -/
def tokens (data : Bytes) : Nat :=
  let zeros := Bytes.zeroCount data
  zeros + 4 * (data.size - zeros)

def keyCount (accessList : List AccessEntry) : Nat :=
  accessList.foldr (fun entry count => entry.keys.length + count) 0

/-- The intrinsic gas of a transaction. The floor came with Prague. -/
def intrinsicGas (fork : HardFork) (tx : Transaction) : IntrinsicGas :=
  let accessList := if tx.kind = 0 then [] else tx.accessList
  let data := 4 * tokens tx.data
  let access := 2400 * accessList.length + 1900 * keyCount accessList
  let base := if tx.callee.isNone then 53000 else 21000
  let initCode := if fork.has .shanghai && tx.callee.isNone then Gas.initCode tx.data.size else 0
  let authorizations := if fork.has .prague then 25000 * tx.authorizations.length else 0
  { initial := data + access + base + initCode + authorizations
    floor := if fork.has .prague then 21000 + 10 * tokens tx.data else 0 }

/-- The check that the gas limit covers the intrinsic gas. -/
def checkIntrinsicGas (gas : IntrinsicGas) (tx : Transaction) : Except Invalid Unit :=
  let limit := tx.gasLimit.toNat
  if limit < gas.initial then .error (.gasCostAboveLimit gas.initial limit)
  else if limit < gas.floor then .error (.gasFloorAboveLimit gas.floor limit)
  else .ok ()

/-- The most that a transaction can take from its caller: gas at its highest fee, its
value, and the highest fee of its blobs. It has to fit a word, and the gas the width of a fee. -/
def maxSpending? (tx : Transaction) : Option Nat :=
  let gas := tx.gasLimit.toNat * tx.gasPrice
  let payment := gas + tx.value.toNat
  let blobs :=
    if tx.kind = 3 then
      min (gasPerBlob * tx.blobHashes.length * tx.maxFeePerBlobGas) maxFee
    else 0
  if maxFee < gas ∨ Word.size ≤ payment ∨ Word.size ≤ payment + blobs then none
  else some (payment + blobs)

/-- What a transaction pays for gas and blobs before it runs. -/
def prepayment (block : BlockEnv) (tx : Transaction) : Nat :=
  let gas := tx.gasLimit.toNat * tx.effectiveGasPrice block.baseFee.toNat
  let blobs :=
    if tx.kind = 3 then
      min (gasPerBlob * tx.blobHashes.length * (block.blob.map BlobGas.price).getD 0)
        maxFee
    else 0
  gas + blobs

def checkCaller (config : Config) (tx : Transaction) (caller : Account) : Except Invalid Unit :=
  if !caller.code.isEmpty && caller.code.delegate?.isNone then .error .callerWithCode
  else if config.checksNonce && caller.nonce < tx.nonce then
    .error (.nonceTooHigh tx.nonce caller.nonce)
  else if config.checksNonce && tx.nonce < caller.nonce then
    .error (.nonceTooLow tx.nonce caller.nonce)
  else
    match maxSpending? tx with
    | none => .error .overflowPayment
    | some cost =>
        if caller.balance.toNat < cost then .error (.lackOfFunds caller.balance.toNat cost)
        else .ok ()

end ForkReplay.Evm
