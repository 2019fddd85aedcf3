import ForkReplay.Evm.Delegation
import ForkReplay.Evm.Run
import ForkReplay.Evm.Settlement

/-!
# Executing transactions

A transaction is checked, paid for, run to its end, and settled; only then does the
overlay change in anything but what it holds of the state behind it. A transaction
that fails on the way leaves the overlay with what was looked up and nothing else.
-/

namespace ForkReplay.Evm

open Stage

/-- The environment that a transaction sees. -/
def environment (config : Config) (block : BlockEnv) (tx : Transaction) : Env where
  fork := config.fork
  precompiles := config.precompiles
  chainId := config.chainId
  number := block.number
  timestamp := block.timestamp
  beneficiary := block.beneficiary
  gasLimit := block.gasLimit
  baseFee := block.baseFee
  difficulty := block.difficulty
  prevRandao := block.prevRandao.getD 0
  blobBaseFee := (block.blob.map BlobGas.price).getD 0
  origin := tx.caller
  gasPrice := tx.effectiveGasPrice block.baseFee.toNat
  blobHashes := if tx.kind = 3 then tx.blobHashes else []

/-- Takes the payment for gas and blobs from the caller, and counts its nonce up for a call.
The nonce of a creation is counted when its frame opens. -/
def takePayment (overlay : Overlay) (block : BlockEnv) (tx : Transaction) (world : World) : World :=
  let caller := world.account overlay tx.caller
  let balance := BitVec.ofNat 256 (caller.balance.toNat - prepayment block tx)
  let nonce :=
    if tx.callee.isSome ∧ caller.nonce ≠ Account.lastNonce then caller.nonce + 1 else caller.nonce
  world.modify overlay tx.caller fun entry =>
    { entry with touched := true, account := { entry.account with balance, nonce } }

/-- Checks the caller and lets it pay. -/
def payUp (config : Config) (block : BlockEnv) (tx : Transaction) (world : World) :
    Stage World := do
  obtainAccount world tx.caller
  let overlay ← get
  check (checkCaller config tx (world.account overlay tx.caller))
  return takePayment overlay block tx world

/-- The world in which nothing is accessed yet. Reserved addresses are warm, and from
Shanghai on the beneficiary of the block. -/
def openingWorld (fork : HardFork) (block : BlockEnv) : World :=
  let reserved := Precompile.addresses fork
  let addresses := if fork.has .shanghai then block.beneficiary :: reserved else reserved
  { warmed := addresses.foldl (fun warmed address => warmed.insert address ()) ∅ }

def loadKeys (address : Address) : List Word → World → Stage World
  | [], world => return world
  | key :: keys, world => do
      obtain (fun overlay => world.missingSlot? overlay address key) 2
      let overlay ← get
      loadKeys address keys (world.putSlot overlay address key (world.slot overlay address key))

def loadAccessList : List AccessEntry → World → Stage World
  | [], world => return world
  | entry :: entries, world => do
      obtainAccount world entry.address
      let world := world.load (← get) entry.address
      loadAccessList entries (← loadKeys entry.address entry.keys world)

/-- Accesses the access list of a transaction. Only kinds from 1 on have one. -/
def accessListed (tx : Transaction) (world : World) : Stage World :=
  if tx.kind = 0 then return world else loadAccessList tx.accessList world

/-- Applies the authorizations of a transaction, and counts the signers whose accounts
exist. Only kind 4 has some. -/
def authorize (config : Config) (tx : Transaction) (world : World) : Stage (World × Nat) :=
  if tx.kind = 4 then applyAuthorizations config tx.authorizations world 0 else return (world, 0)

/-- Goes on with a creation that has begun: opens its frame, unless it is over already. -/
def openBegun (caller : Address) (operands : CreateOperands) (world : World) :
    Except Result (Address × World) → Stage Step
  | .error result => return .done result world
  | .ok (address, world) => do
      obtainAccount world address
      return (openCreate (← get) caller address 0 operands world).enter []

def openFirst (env : Env) (tx : Transaction) (gas : Nat) (world : World) : Stage Step :=
  match tx.callee with
  | some callee => do
      obtain (fun overlay => missingCallee? world overlay callee) 2
      let message : Message :=
        { caller := tx.caller
          address := callee
          codeAddress := callee
          value := tx.value
          moves := true
          input := tx.data
          gas
          isStatic := false
          depth := 0 }
      return (openCall env (← get) message world).enter []
  | none => do
      let operands : CreateOperands := { gas, value := tx.value, initCode := tx.data, salt := none }
      openBegun tx.caller operands world (beginCreate (← get) tx.caller 0 operands world)

/-- Runs the machine to the end of its outermost frame. -/
def runMachine (env : Env) (fuel : Nat) (first : Step) : Stage (Result × World) :=
  keeping fun overlay => run env fuel overlay first

/-- Gives unused gas back to the caller and pays the beneficiary of the block. -/
def payOut (config : Config) (block : BlockEnv) (tx : Transaction) (settlement : Settlement)
    (world : World) : Stage World := do
  let price := tx.effectiveGasPrice block.baseFee.toNat
  let unused := tx.gasLimit.toNat - settlement.spent + settlement.refunded
  let world := world.credit (← get) tx.caller (price * unused)
  obtainAccount world block.beneficiary
  let reward := if config.fork.has .london then price - block.baseFee.toNat else price
  return world.credit (← get) block.beneficiary (reward * (settlement.spent - settlement.refunded))

/-- Runs a valid transaction up to its settlement, in a world of its own. -/
def runTransaction (config : Config) (block : BlockEnv) (tx : Transaction) (gas : IntrinsicGas) :
    Stage (ExecutionResult × World) := do
  let world ← payUp config block tx (openingWorld config.fork block)
  let world ← accessListed tx world
  let (world, existing) ← authorize config tx world
  let limit := tx.gasLimit.toNat
  let env := environment config block tx
  let first ← openFirst env tx (limit - gas.initial) world
  let (result, world) ← runMachine env (fuelFor limit) first
  let settlement := settle config.fork limit gas.floor result (12500 * existing)
  let world ← payOut config block tx settlement world
  return (.ofResult result settlement, world)

/-- Checks a transaction and runs it up to its settlement. -/
def checkAndRun (config : Config) (block : BlockEnv) (tx : Transaction) :
    Stage (ExecutionResult × World) :=
  match checkBlock config.fork block with
  | .error lack => throw (.incompleteBlock lack)
  | .ok () => do
      check (checkTransaction config block tx)
      let gas := intrinsicGas config.fork tx
      check (checkIntrinsicGas gas tx)
      runTransaction config block tx gas

/-- Checks and runs a transaction, and commits what it changed. -/
def transact (config : Config) (block : BlockEnv) (tx : Transaction) : Stage ExecutionResult := do
  let (result, world) ← checkAndRun config block tx
  modify fun overlay => overlay.commit world
  return result

end ForkReplay.Evm
