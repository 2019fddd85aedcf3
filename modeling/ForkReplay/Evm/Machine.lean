import ForkReplay.Evm.Activation

/-!
# The machine

The machine runs one frame at a time, above the frames that wait for it. A step
either carries out an instruction, or performs the access that the last instruction
left, or ends the outermost frame.
-/

namespace ForkReplay.Evm

/-- The running frame, the frames that wait for it, and the world they act on. -/
structure Machine where
  frame : Frame
  waiting : List Frame
  world : World

/-- What comes of a step. -/
inductive Step where
  | next (m : Machine)
  | access (access : Access) (m : Machine)
  /-- The outermost frame has ended. -/
  | done (result : Result) (world : World)

/-- Hands the result of a frame to the frame that waits for it. -/
def conclude (waiting : List Frame) (purpose : Purpose) (result : Result) (world : World) : Step :=
  match waiting with
  | [] => .done result world
  | caller :: waiting => .next { frame := caller.resume purpose result, waiting, world }

def haltFrame (f : Frame) (waiting : List Frame) (cause : Halt) : Step :=
  conclude waiting f.purpose (.halted cause) f.saved

/-- Goes on with what came of opening a frame. -/
def Opening.enter (waiting : List Frame) : Opening → Step
  | .frame f world => .next { frame := f, waiting, world }
  | .over purpose result world => conclude waiting purpose result world

/-- Carries out one instruction. Code ends with an implicit stop. -/
def step (env : Env) (overlay : Overlay) (m : Machine) : Step :=
  match m with
  | ⟨f, waiting, world⟩ =>
      match Opcode.ofByte? (f.code[f.pc]?.getD 0) with
      | none => haltFrame f waiting .opcodeNotFound
      | some op =>
          let cost := op.staticGas env.fork
          if f.gas < cost then haltFrame f waiting (.outOfGas .basic)
          else if !env.fork.has op.since then haltFrame f waiting .notActivated
          else
            let purpose := f.purpose
            let saved := f.saved
            match execute env op { f with gas := f.gas - cost, pc := f.pc + 1 } with
            | .error cause => conclude waiting purpose (.halted cause) saved
            | .ok (.next frame) => .next { frame, waiting, world }
            | .ok (.access access frame) => .access access { frame, waiting, world }
            | .ok (.finish frame output) =>
                let (result, world) := closeFinished env overlay frame output world
                conclude waiting frame.purpose result world
            | .ok (.revert frame output) =>
                conclude waiting frame.purpose
                  { exit := .revert, output, gas := frame.gas } frame.saved

/-- The lookup that has to come before an access can be performed. -/
def Access.missing? (access : Access) (overlay : Overlay) (m : Machine) : Option Lookup :=
  match access with
  | .balance address | .codeSize address | .codeHash address | .codeCopy address _ _ _
  | .destroy address | .deploy _ address => m.world.missingAccount? overlay address
  | .blockHash number =>
      if (overlay.blockHash? number).isSome then none else some (.blockHash number)
  | .load key | .store key _ => m.world.missingSlot? overlay m.frame.address key
  | .call operands => missingCallee? m.world overlay operands.codeAddress
  | .selfBalance | .loadTransient _ | .storeTransient _ _ | .create _ => none

/-- Pushes the answer of an access after paying for it. -/
def answer (m : Machine) (cost : Nat) (world : World) (word : Word) : Step :=
  match m with
  | ⟨f, waiting, _⟩ =>
      if f.gas < cost then haltFrame f waiting (.outOfGas .basic)
      else
        .next { frame := { f with gas := f.gas - cost, stack := word :: f.stack }, waiting, world }

def performCodeCopy (env : Env) (overlay : Overlay) (address : Address) (target start count : Word)
    (m : Machine) : Step :=
  match m with
  | ⟨f, waiting, world⟩ =>
      let cold := Gas.coldAccount env.fork (world.isWarm address)
      let loaded := world.load overlay address
      let bytes := (loaded.account overlay address).code.bytes
      let saved := f.saved
      let purpose := f.purpose
      let copied : Except Halt Frame := do
        let count ← Frame.offset count
        let f ← f.charge cold
        f.copyIn target bytes start.clamp64 count
      match copied with
      | .error cause => conclude waiting purpose (.halted cause) saved
      | .ok frame => .next { frame, waiting, world := loaded }

def performStore (env : Env) (overlay : Overlay) (key value : Word) (m : Machine) : Step :=
  match m with
  | ⟨f, waiting, world⟩ =>
      let warm := world.isWarmSlot overlay f.address key
      let slot := world.slot overlay f.address key
      let cost := Gas.slotWrite env.fork slot value warm
      if f.gas < cost then haltFrame f waiting (.outOfGas .basic)
      else
        let world := world.putSlot overlay f.address key { slot with present := value }
        let refund := f.refund + Gas.slotRefund env.fork slot value
        .next { frame := { f with gas := f.gas - cost, refund }, waiting, world }

/-- Gives the balance of an account away. From Cancun on the account itself goes away only
if the transaction created it. -/
def destroyAccount (fork : HardFork) (overlay : Overlay) (address beneficiary : Address)
    (world : World) : World :=
  let entry := world.accessed overlay address
  let owned := entry.account.balance
  let paid :=
    if address = beneficiary then world
    else
      let held := (world.account overlay beneficiary).balance
      (world.touch overlay beneficiary).setBalance overlay beneficiary (held + owned)
  if entry.created || !fork.has .cancun then
    paid.modify overlay address fun entry =>
      { entry with destroyed := true, account := { entry.account with balance := 0 } }
  else if address = beneficiary then paid
  else paid.setBalance overlay address 0

/-- Ends the running frame and destroys its account. -/
def performDestroy (env : Env) (overlay : Overlay) (beneficiary : Address) (m : Machine) : Step :=
  match m with
  | ⟨f, waiting, world⟩ =>
      let warm := world.isWarm beneficiary
      let loaded := world.load overlay beneficiary
      let isNew := (loaded.account overlay beneficiary).isEmpty
      let entry := loaded.accessed overlay f.address
      let cost := Gas.selfDestruct env.fork warm (isNew && entry.account.balance ≠ 0)
      if f.gas < cost then haltFrame f waiting (.outOfGas .basic)
      else
        let refund := f.refund + Gas.selfDestructRefund env.fork entry.destroyed
        let f := { f with gas := f.gas - cost, refund }
        let emptied := destroyAccount env.fork overlay f.address beneficiary loaded
        let (result, world) := closeFinished env overlay f (Bytes.ofList []) emptied
        conclude waiting f.purpose result world

def performCall (env : Env) (overlay : Overlay) (operands : CallOperands) (m : Machine) : Step :=
  match m with
  | ⟨f, waiting, world⟩ =>
      let warm := world.isWarm operands.codeAddress
      let loaded := world.load overlay operands.codeAddress
      let callee := loaded.account overlay operands.codeAddress
      let delegate := callee.code.delegate?.map fun target => loaded.isWarm target
      let loaded := loadCallee loaded overlay operands.codeAddress
      let transfers := operands.value ≠ 0
      let cost := Gas.call env.fork warm delegate transfers
        (callee.isEmpty && operands.kind = .call)
      if f.gas < cost then haltFrame f waiting (.outOfGas .basic)
      else
        let left := f.gas - cost
        let gas := min (Gas.allButOne64th left) operands.gas.clamp64
        let caller := { f with gas := left - gas }
        let message : Message :=
          { caller := if operands.kind = .delegateCall then f.caller else f.address
            address :=
              match operands.kind with
              | .call | .staticCall => operands.codeAddress
              | .callCode | .delegateCall => f.address
            codeAddress := operands.codeAddress
            value := if operands.kind = .delegateCall then f.value else operands.value
            moves := operands.kind ≠ .delegateCall
            input := operands.input
            gas := if transfers then gas + Gas.callStipend else gas
            isStatic := f.isStatic || operands.kind = .staticCall
            depth := f.depth + 1
            outputOffset := operands.outputOffset
            outputSize := operands.outputSize }
        (openCall env overlay message loaded).enter (caller :: waiting)

def performCreate (overlay : Overlay) (operands : CreateOperands) (m : Machine) : Step :=
  match beginCreate overlay m.frame.address (m.frame.depth + 1) operands m.world with
  | .error result => conclude (m.frame :: m.waiting) (.create 0) result m.world
  | .ok (address, world) => .access (.deploy operands address) { m with world }

/-- Performs an access whose state is at hand. -/
def perform (env : Env) (overlay : Overlay) (access : Access) (m : Machine) : Step :=
  match access with
  | .balance address =>
      let cold := Gas.coldAccount env.fork (m.world.isWarm address)
      let loaded := m.world.load overlay address
      answer m cold loaded (loaded.account overlay address).balance
  | .selfBalance => answer m 0 m.world (m.world.account overlay m.frame.address).balance
  | .codeSize address =>
      let cold := Gas.coldAccount env.fork (m.world.isWarm address)
      let loaded := m.world.load overlay address
      answer m cold loaded (Word.ofNat (loaded.account overlay address).code.bytes.size)
  | .codeHash address =>
      let cold := Gas.coldAccount env.fork (m.world.isWarm address)
      let loaded := m.world.load overlay address
      let account := loaded.account overlay address
      answer m cold loaded (if account.isEmpty then 0 else account.code.hash)
  | .codeCopy address target start count => performCodeCopy env overlay address target start count m
  | .blockHash number => answer m 0 m.world ((overlay.blockHash? number).getD 0)
  | .load key =>
      let cold := Gas.coldSlotRead env.fork (m.world.isWarmSlot overlay m.frame.address key)
      let slot := m.world.slot overlay m.frame.address key
      answer m cold (m.world.putSlot overlay m.frame.address key slot) slot.present
  | .store key value => performStore env overlay key value m
  | .loadTransient key => answer m 0 m.world (m.world.transientSlot m.frame.address key)
  | .storeTransient key value =>
      .next { m with world := m.world.setTransientSlot m.frame.address key value }
  | .destroy beneficiary => performDestroy env overlay beneficiary m
  | .call operands => performCall env overlay operands m
  | .create operands => performCreate overlay operands m
  | .deploy operands address =>
      (openCreate overlay m.frame.address address (m.frame.depth + 1) operands m.world).enter
        (m.frame :: m.waiting)

end ForkReplay.Evm
