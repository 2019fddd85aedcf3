import ForkReplay.Evm.Instruction

/-!
# Opening and closing frames

A call or a creation either opens a frame or is over at once: because it is nested
too deeply, because the value cannot be moved, because a precompiled contract
answers, or because there is no code to run. Closing a frame settles whether its
changes stay.
-/

namespace ForkReplay.Evm

/-- A call whose gas is settled. -/
structure Message where
  caller : Address
  /-- The account that the code acts for. -/
  address : Address
  /-- The account whose code runs. -/
  codeAddress : Address
  value : Word
  /-- Whether the value is moved from the caller to `address`, or only shown. -/
  moves : Bool
  input : Bytes
  gas : Nat
  isStatic : Bool
  depth : Nat
  outputOffset : Nat := 0
  outputSize : Nat := 0

/-- What comes of opening a frame. -/
inductive Opening where
  | frame (f : Frame) (world : World)
  | over (purpose : Purpose) (result : Result) (world : World)

/-- The lookups that come before an access to an account and to the one that it
delegates to. -/
def missingCallee? (world : World) (overlay : Overlay) (address : Address) : Option Lookup :=
  match world.missingAccount? overlay address with
  | some lookup => some lookup
  | none =>
      match (world.account overlay address).code.delegate? with
      | some target => world.missingAccount? overlay target
      | none => none

/-- Accesses an account and the one that it delegates to. -/
def loadCallee (world : World) (overlay : Overlay) (address : Address) : World :=
  let loaded := world.load overlay address
  match (loaded.account overlay address).code.delegate? with
  | some target => loaded.load overlay target
  | none => loaded

/-- The code that runs for an account: its own, or that of the account that it
delegates to. -/
def runningCode (world : World) (overlay : Overlay) (address : Address) : Code :=
  let code := (world.account overlay address).code
  match code.delegate? with
  | some target => (world.account overlay target).code
  | none => code

/-- Opens the frame of a call. -/
def openCall (env : Env) (overlay : Overlay) (message : Message) (world : World) : Opening :=
  let purpose := Purpose.call message.outputOffset message.outputSize
  if depthLimit < message.depth then .over purpose (.refused message.gas) world
  else
    let saved := loadCallee world overlay message.codeAddress
    let moved :=
      if message.moves then saved.transfer overlay message.caller message.address message.value
      else .ok saved
    match moved with
    | .error .outOfFunds => .over purpose (.refused message.gas) saved
    | .error .overflow =>
        -- What the payer has paid is not given back.
        let owned := (saved.account overlay message.caller).balance
        .over purpose (.halted .overflowPayment)
          (saved.setBalance overlay message.caller (owned - message.value))
    | .ok world =>
        match env.precompiles.at? env.fork message.codeAddress with
        | some contract =>
            let cost := contract.gas message.input
            if message.gas < cost then .over purpose (.halted (.outOfGas .precompile)) saved
            else
              match contract.output message.input with
              | none => .over purpose (.halted .precompileError) saved
              | some output =>
                  .over purpose { exit := .ok, output, gas := message.gas - cost } world
        | none =>
            let code := runningCode world overlay message.codeAddress
            if code.isEmpty then .over purpose { exit := .ok, gas := message.gas } world
            else
              .frame
                { address := message.address
                  caller := message.caller
                  value := message.value
                  input := message.input
                  code := code.bytes
                  jumpTable := jumpTable code.bytes
                  isStatic := message.isStatic
                  depth := message.depth
                  purpose
                  saved
                  gas := message.gas }
                world

/-- The first half of a creation: counts the creator's nonce up and finds the new
address. -/
def beginCreate (overlay : Overlay) (creator : Address) (depth : Nat) (operands : CreateOperands)
    (world : World) : Except Result (Address × World) :=
  if depthLimit < depth then .error (.refused operands.gas)
  else
    let account := world.account overlay creator
    if account.balance < operands.value then .error (.refused operands.gas)
    else if account.nonce = Account.lastNonce then .error { exit := .ok, gas := operands.gas }
    else
      let counted := world.modify overlay creator fun entry =>
        { entry with account := { entry.account with nonce := entry.account.nonce + 1 } }
      let address :=
        match operands.salt with
        | none => Address.ofCreation creator account.nonce
        | some salt => Address.ofSaltedCreation creator salt (keccak256 operands.initCode)
      .ok (address, counted)

/-- The second half of a creation: opens the frame of the init code at the new
address, unless something is there already. -/
def openCreate (overlay : Overlay) (creator address : Address) (depth : Nat)
    (operands : CreateOperands) (world : World) : Opening :=
  let purpose := Purpose.create address
  let saved := world.load overlay address
  let existing := saved.account overlay address
  if !existing.code.isEmpty || existing.nonce ≠ 0 then
    .over purpose (.halted .createCollision) saved
  else if Word.size ≤ existing.balance.toNat + operands.value.toNat then
    .over purpose (.halted .overflowPayment) saved
  else
    let world := saved.modify overlay address fun entry =>
      { entry with
        created := true
        touched := true
        account := { entry.account with
          nonce := 1
          balance := entry.account.balance + operands.value } }
    let owned := (world.account overlay creator).balance
    let world := world.setBalance overlay creator (owned - operands.value)
    .frame
      { address
        caller := creator
        value := operands.value
        input := Bytes.ofList []
        code := operands.initCode
        jumpTable := jumpTable operands.initCode
        isStatic := false
        depth
        purpose
        saved
        gas := operands.gas }
      world

/-- Settles a creation whose init code returned `output`. -/
def deploy (env : Env) (overlay : Overlay) (address : Address) (f : Frame) (output : Bytes)
    (world : World) : Result × World :=
  if env.fork.has .london && output[0]?.getD 0 = 0xef then
    (.halted .createContractStartingWithEf, f.saved)
  else if Gas.maxCodeSize < output.size then (.halted .createContractSizeLimit, f.saved)
  else if f.gas < Gas.codeDeposit output.size then (.halted (.outOfGas .basic), f.saved)
  else
    ({ exit := .ok, output, gas := f.gas - Gas.codeDeposit output.size, refund := f.refund
       created := some address },
      world.setCode overlay address (.plain output))

/-- Closes a frame that keeps its changes. -/
def closeFinished (env : Env) (overlay : Overlay) (f : Frame) (output : Bytes) (world : World) :
    Result × World :=
  match f.purpose with
  | .call _ _ => ({ exit := .ok, output, gas := f.gas, refund := f.refund }, world)
  | .create address => deploy env overlay address f output world

end ForkReplay.Evm
