import ForkReplay.Evm.Frame

/-!
# Instructions

What each instruction does to its frame. An instruction that has to look at the
state of accounts stops short of that: it takes its operands, pays what is due
before, and leaves the rest as an access to be performed on the world.
-/

namespace ForkReplay.Evm

structure CallOperands where
  kind : CallKind
  /-- The account whose code runs. -/
  codeAddress : Address
  /-- The gas asked for. -/
  gas : Word
  value : Word
  input : Bytes
  outputOffset : Nat
  outputSize : Nat

structure CreateOperands where
  gas : Nat
  value : Word
  initCode : Bytes
  /-- The salt that the new address depends on, instead of the creator's nonce. -/
  salt : Option Word

/-- The part of an instruction that looks at the state of accounts. -/
inductive Access where
  | balance (address : Address)
  | selfBalance
  | codeSize (address : Address)
  | codeHash (address : Address)
  | codeCopy (address : Address) (target start count : Word)
  | blockHash (number : Nat)
  | load (key : Word)
  | store (key value : Word)
  | loadTransient (key : Word)
  | storeTransient (key value : Word)
  | destroy (beneficiary : Address)
  | call (operands : CallOperands)
  | create (operands : CreateOperands)
  /-- The second half of a creation, at the address that the first half found. -/
  | deploy (operands : CreateOperands) (address : Address)

/-- What becomes of a frame by one instruction. -/
inductive Effect where
  | next (f : Frame)
  | access (access : Access) (f : Frame)
  /-- The frame ends and keeps its changes. -/
  | finish (f : Frame) (output : Bytes)
  /-- The frame ends and undoes its changes. -/
  | revert (f : Frame) (output : Bytes)

/-- The word that replaces `a`, the top of the stack, and `b` below it. -/
def BinaryOp.eval (op : BinaryOp) (a b : Word) : Word :=
  match op with
  | .add => a + b
  | .mul => a * b
  | .sub => a - b
  | .div => a / b
  | .sdiv => Word.sdiv a b
  | .mod => Word.mod a b
  | .smod => Word.smod a b
  | .signExtend => Word.signExtend a b
  | .lt => Word.ofBool (a < b)
  | .gt => Word.ofBool (b < a)
  | .slt => Word.ofBool (BitVec.slt a b)
  | .sgt => Word.ofBool (BitVec.slt b a)
  | .eq => Word.ofBool (a = b)
  | .and => a &&& b
  | .or => a ||| b
  | .xor => a ^^^ b
  | .byte => Word.byte a b
  | .shl => Word.shl a b
  | .shr => Word.shr a b
  | .sar => Word.sar a b

/-- The word that a frame and its environment know. -/
def ContextOp.value (op : ContextOp) (env : Env) (f : Frame) : Word :=
  match op with
  | .address => f.address.toWord
  | .origin => env.origin.toWord
  | .caller => f.caller.toWord
  | .callValue => f.value
  | .callDataSize => Word.ofNat f.input.size
  | .codeSize => Word.ofNat f.code.size
  | .gasPrice => Word.ofNat env.gasPrice
  | .returnDataSize => Word.ofNat f.returnData.size
  | .coinbase => env.beneficiary.toWord
  | .timestamp => env.timestamp
  | .number => env.number
  | .prevRandao => if env.fork.has .merge then env.prevRandao else env.difficulty
  | .gasLimit => Word.ofNat env.gasLimit.toNat
  | .chainId => Word.ofNat env.chainId.toNat
  | .baseFee => Word.ofNat env.baseFee.toNat
  | .blobBaseFee => Word.ofNat env.blobBaseFee
  | .pc => Word.ofNat (f.pc - 1)
  | .memorySize => Word.ofNat f.memory.size
  | .gas => Word.ofNat f.gas

/-- Goes on at `target`, which has to be marked as a place to jump to. -/
def Frame.jump (f : Frame) (target : Word) : Except Halt Frame :=
  match target.toOffset? with
  | none => .error .invalidJump
  | some position =>
      if f.jumpTable[position]?.getD 0 = 1 then .ok { f with pc := position }
      else .error .invalidJump

/-- Refuses what a static call must not do. -/
def Frame.requireWritable (f : Frame) : Except Halt Unit :=
  if f.isStatic then .error .stateChangeDuringStaticCall else .ok ()

/-- The output of a frame that ends with a range of its memory. -/
def Frame.output (f : Frame) : Except Halt (Bytes × Frame) := do
  let (start, count, f) ← f.pop2
  let count ← Frame.offset count
  let (start, f) ← f.growRange start count
  return (f.read start count, f)

/-- A log entry: nothing but its price is kept. -/
def Frame.log (f : Frame) (topics : Nat) : Except Halt Frame := do
  f.requireWritable
  let (start, count, f) ← f.pop2
  let count ← Frame.offset count
  let f ← f.charge (Gas.log topics count)
  let (_, f) ← f.growRange start count
  if f.stack.length < topics then .error .stackUnderflow
  else return { f with stack := f.stack.drop topics }

/-- Pays for the size of init code, which has a limit and a price from Shanghai on. -/
def Frame.payInitCode (f : Frame) (env : Env) (count : Nat) : Except Halt Frame :=
  if count ≠ 0 && env.fork.has .shanghai then
    if Gas.maxInitCodeSize < count then .error .createInitCodeSizeLimit
    else f.charge (Gas.initCode count)
  else .ok f

/-- Takes the salt of a salted creation, and pays for the creation. -/
def Frame.takeSalt (f : Frame) (salted : Bool) (count : Nat) :
    Except Halt (Option Word × Frame) :=
  if salted then do
    let (salt, f) ← f.pop
    let f ← f.charge (Gas.create + Gas.hashing count)
    return (some salt, f)
  else do
    let f ← f.charge Gas.create
    return (none, f)

def Frame.takeCreate (f : Frame) (env : Env) (salted : Bool) : Except Halt Effect := do
  f.requireWritable
  let (value, start, count, f) ← f.pop3
  let count ← Frame.offset count
  let f ← f.payInitCode env count
  let (start, f) ← f.growRange start count
  let initCode := f.read start count
  let (salt, f) ← f.takeSalt salted count
  let gas := Gas.allButOne64th f.gas
  let f ← f.charge gas
  return .access (.create { gas, value, initCode, salt }) f

/-- Takes the value of a call. Only two kinds of call give one. -/
def Frame.takeValue (f : Frame) (kind : CallKind) : Except Halt (Word × Frame) :=
  match kind with
  | .call | .callCode => f.pop
  | .delegateCall | .staticCall => .ok (0, f)

def Frame.takeCall (f : Frame) (kind : CallKind) : Except Halt Effect := do
  let (gas, address, f) ← f.pop2
  let (value, f) ← f.takeValue kind
  if f.isStatic && kind = .call && value ≠ 0 then .error .callNotAllowedInsideStatic
  else
    let (inputStart, inputSize, outputStart, outputSize, f) ← f.pop4
    let inputSize ← Frame.offset inputSize
    let (inputOffset, f) ← f.growRange inputStart inputSize
    let outputSize ← Frame.offset outputSize
    let (outputOffset, f) ← f.growRange outputStart outputSize
    let input := f.read inputOffset inputSize
    let codeAddress := Address.ofWord address
    return .access (.call { kind, codeAddress, gas, value, input, outputOffset, outputSize }) f

/-- The top word replaced by one that is computed from it. -/
def Frame.mapTop (f : Frame) (change : Word → Word) : Except Halt Frame :=
  match f.stack with
  | a :: rest => .ok { f with stack := change a :: rest }
  | _ => .error .stackUnderflow

/-- Leaves an access to the account at the top of the stack. -/
def Frame.accessAccount (f : Frame) (access : Address → Access) : Except Halt Effect := do
  let (word, f) ← f.pop
  return .access (access (Address.ofWord word)) f

/-- The bytes of a push, which read as zero beyond the end of the code. -/
def Frame.immediate (f : Frame) (count : Nat) : Word :=
  Word.ofBytes (Bytes.window f.code f.pc count)

/-- Carries out an instruction whose static price is paid and whose byte is passed. -/
def execute (env : Env) (op : Opcode) (f : Frame) : Except Halt Effect :=
  match op with
  | .stop => .ok (.finish f (Bytes.ofList []))
  | .binary op =>
      match f.stack with
      | a :: b :: rest => .ok (.next { f with stack := op.eval a b :: rest })
      | _ => .error .stackUnderflow
  | .addMod =>
      match f.stack with
      | a :: b :: n :: rest => .ok (.next { f with stack := Word.addMod a b n :: rest })
      | _ => .error .stackUnderflow
  | .mulMod =>
      match f.stack with
      | a :: b :: n :: rest => .ok (.next { f with stack := Word.mulMod a b n :: rest })
      | _ => .error .stackUnderflow
  | .exp => do
      let (base, exponent, f) ← f.pop2
      let f ← f.charge (Gas.exponent exponent)
      return .next { f with stack := Word.exp base exponent :: f.stack }
  | .isZero => Effect.next <$> f.mapTop fun a => Word.ofBool (a = 0)
  | .not => Effect.next <$> f.mapTop fun a => ~~~a
  | .countLeadingZeros => Effect.next <$> f.mapTop Word.leadingZeros
  | .keccak256 => do
      let (start, count, f) ← f.pop2
      let count ← Frame.offset count
      let f ← f.charge (Gas.hashing count)
      let (start, f) ← f.growRange start count
      return .next { f with stack := keccak256 (f.read start count) :: f.stack }
  | .context op => Effect.next <$> f.push (op.value env f)
  | .balance => f.accessAccount .balance
  | .selfBalance =>
      if stackLimit ≤ f.stack.length then .error .stackOverflow else .ok (.access .selfBalance f)
  | .callDataLoad => Effect.next <$> f.mapTop fun a =>
      Word.ofBytes (Bytes.window f.input a.clamp64 32)
  | .callDataCopy => do
      let (target, start, count, f) ← f.pop3
      let count ← Frame.offset count
      Effect.next <$> f.copyIn target f.input start.clamp64 count
  | .codeCopy => do
      let (target, start, count, f) ← f.pop3
      let count ← Frame.offset count
      Effect.next <$> f.copyIn target f.code start.clamp64 count
  | .extCodeSize => f.accessAccount .codeSize
  | .extCodeHash => f.accessAccount .codeHash
  | .extCodeCopy =>
      match f.stack with
      | a :: target :: start :: count :: rest =>
          .ok (.access (.codeCopy (Address.ofWord a) target start count) { f with stack := rest })
      | _ => .error .stackUnderflow
  | .returnDataCopy => do
      let (target, start, count, f) ← f.pop3
      let count ← Frame.offset count
      if f.returnData.size < start.clamp64 + count then .error .outOfOffset
      else Effect.next <$> f.copyIn target f.returnData start.clamp64 count
  | .blockHash => do
      let (number, f) ← f.pop
      if number < env.number ∧ env.number.toNat - number.toNat ≤ 256 then
        return .access (.blockHash number.clamp64) f
      else return .next { f with stack := 0 :: f.stack }
  | .blobHash => Effect.next <$> f.mapTop fun a => env.blobHashes[a.clamp64]?.getD 0
  | .pop => do
      let (_, f) ← f.pop
      return .next f
  | .mload => do
      let (start, f) ← f.pop
      let start ← Frame.offset start
      let f ← f.grow start 32
      return .next { f with stack := Word.ofBytes (f.read start 32) :: f.stack }
  | .mstore => do
      let (start, word, f) ← f.pop2
      let start ← Frame.offset start
      let f ← f.grow start 32
      return .next (f.write start word.toBytes)
  | .mstore8 => do
      let (start, word, f) ← f.pop2
      let start ← Frame.offset start
      let f ← f.grow start 1
      return .next (f.write start (Bytes.ofList [word.toNat.toUInt8]))
  | .sload => do
      let (key, f) ← f.pop
      return .access (.load key) f
  | .sstore => do
      f.requireWritable
      let (key, value, f) ← f.pop2
      if f.gas ≤ Gas.callStipend then .error (.outOfGas .reentrancySentry)
      else return .access (.store key value) f
  | .tload => do
      let (key, f) ← f.pop
      return .access (.loadTransient key) f
  | .tstore => do
      f.requireWritable
      let (key, value, f) ← f.pop2
      return .access (.storeTransient key value) f
  | .mcopy => do
      let (target, source, count, f) ← f.pop3
      let count ← Frame.offset count
      let f ← f.charge (Gas.copy count)
      if count = 0 then return .next f
      else
        let target ← Frame.offset target
        let source ← Frame.offset source
        let f ← f.grow (max target source) count
        let part := f.read source count
        return .next (f.write target part)
  | .jump => do
      let (target, f) ← f.pop
      Effect.next <$> f.jump target
  | .jumpIf => do
      let (target, condition, f) ← f.pop2
      if condition = 0 then return .next f else Effect.next <$> f.jump target
  | .jumpDest => .ok (.next f)
  | .push count => do
      let word := f.immediate count
      let f ← f.push word
      return .next { f with pc := f.pc + count }
  | .dup depth =>
      match f.stack[depth.val]? with
      | none => .error .stackOverflow
      | some word => Effect.next <$> f.push word
  | .swap depth =>
      match f.stack with
      | [] => .error .stackOverflow
      | top :: rest =>
          match rest[depth.val]? with
          | none => .error .stackOverflow
          | some word => .ok (.next { f with stack := word :: rest.set depth.val top })
  | .log topics => Effect.next <$> f.log topics
  | .create => f.takeCreate env false
  | .create2 => f.takeCreate env true
  | .call kind => f.takeCall kind
  | .return => do
      let (output, f) ← f.output
      return .finish f output
  | .revert => do
      let (output, f) ← f.output
      return .revert f output
  | .invalid => .error .invalidOpcode
  | .selfDestruct => do
      f.requireWritable
      f.accessAccount .destroy

end ForkReplay.Evm
