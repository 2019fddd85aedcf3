import ForkReplay.Chain.HardFork

/-!
# Opcodes

The instructions of the virtual machine, their bytes, the hard fork that brought
each of them, and the part of their price that does not depend on the state of the
machine.
-/

namespace ForkReplay.Evm

/-- Instructions that replace two words by one. -/
inductive BinaryOp where
  | add | mul | sub | div | sdiv | mod | smod | signExtend
  | lt | gt | slt | sgt | eq | and | or | xor | byte | shl | shr | sar
deriving DecidableEq, Repr

/-- Instructions that push a word known to the frame or its environment. -/
inductive ContextOp where
  | address | origin | caller | callValue | callDataSize | codeSize | gasPrice
  | returnDataSize | coinbase | timestamp | number | prevRandao | gasLimit | chainId
  | baseFee | blobBaseFee | pc | memorySize | gas
deriving DecidableEq, Repr

/-- The four ways of calling another account. -/
inductive CallKind where
  | call | callCode | delegateCall | staticCall
deriving DecidableEq, Repr

inductive Opcode where
  | stop
  | binary (op : BinaryOp)
  | addMod | mulMod | exp | isZero | not | countLeadingZeros | keccak256
  | context (op : ContextOp)
  | balance | selfBalance | callDataLoad | callDataCopy | codeCopy
  | extCodeSize | extCodeCopy | extCodeHash | returnDataCopy | blockHash | blobHash
  | pop | mload | mstore | mstore8 | sload | sstore | tload | tstore | mcopy
  | jump | jumpIf | jumpDest
  /-- Pushes the given number of bytes that follow. -/
  | push (count : Fin 33)
  /-- Copies the word that lies below the given number of others. -/
  | dup (depth : Fin 16)
  /-- Swaps the top with the word that lies below it and the given number of others. -/
  | swap (depth : Fin 16)
  /-- Writes a log entry with the given number of topics. -/
  | log (topics : Fin 5)
  | create | create2
  | call (kind : CallKind)
  | return | revert | invalid | selfDestruct
deriving DecidableEq, Repr

namespace Opcode

/-- The instruction of a byte outside the ranges of pushes, copies, swaps and logs. -/
def ofSingle? : Nat → Option Opcode
  | 0x00 => some .stop
  | 0x01 => some (.binary .add)
  | 0x02 => some (.binary .mul)
  | 0x03 => some (.binary .sub)
  | 0x04 => some (.binary .div)
  | 0x05 => some (.binary .sdiv)
  | 0x06 => some (.binary .mod)
  | 0x07 => some (.binary .smod)
  | 0x08 => some .addMod
  | 0x09 => some .mulMod
  | 0x0a => some .exp
  | 0x0b => some (.binary .signExtend)
  | 0x10 => some (.binary .lt)
  | 0x11 => some (.binary .gt)
  | 0x12 => some (.binary .slt)
  | 0x13 => some (.binary .sgt)
  | 0x14 => some (.binary .eq)
  | 0x15 => some .isZero
  | 0x16 => some (.binary .and)
  | 0x17 => some (.binary .or)
  | 0x18 => some (.binary .xor)
  | 0x19 => some .not
  | 0x1a => some (.binary .byte)
  | 0x1b => some (.binary .shl)
  | 0x1c => some (.binary .shr)
  | 0x1d => some (.binary .sar)
  | 0x1e => some .countLeadingZeros
  | 0x20 => some .keccak256
  | 0x30 => some (.context .address)
  | 0x31 => some .balance
  | 0x32 => some (.context .origin)
  | 0x33 => some (.context .caller)
  | 0x34 => some (.context .callValue)
  | 0x35 => some .callDataLoad
  | 0x36 => some (.context .callDataSize)
  | 0x37 => some .callDataCopy
  | 0x38 => some (.context .codeSize)
  | 0x39 => some .codeCopy
  | 0x3a => some (.context .gasPrice)
  | 0x3b => some .extCodeSize
  | 0x3c => some .extCodeCopy
  | 0x3d => some (.context .returnDataSize)
  | 0x3e => some .returnDataCopy
  | 0x3f => some .extCodeHash
  | 0x40 => some .blockHash
  | 0x41 => some (.context .coinbase)
  | 0x42 => some (.context .timestamp)
  | 0x43 => some (.context .number)
  | 0x44 => some (.context .prevRandao)
  | 0x45 => some (.context .gasLimit)
  | 0x46 => some (.context .chainId)
  | 0x47 => some .selfBalance
  | 0x48 => some (.context .baseFee)
  | 0x49 => some .blobHash
  | 0x4a => some (.context .blobBaseFee)
  | 0x50 => some .pop
  | 0x51 => some .mload
  | 0x52 => some .mstore
  | 0x53 => some .mstore8
  | 0x54 => some .sload
  | 0x55 => some .sstore
  | 0x56 => some .jump
  | 0x57 => some .jumpIf
  | 0x58 => some (.context .pc)
  | 0x59 => some (.context .memorySize)
  | 0x5a => some (.context .gas)
  | 0x5b => some .jumpDest
  | 0x5c => some .tload
  | 0x5d => some .tstore
  | 0x5e => some .mcopy
  | 0xf0 => some .create
  | 0xf1 => some (.call .call)
  | 0xf2 => some (.call .callCode)
  | 0xf3 => some .return
  | 0xf4 => some (.call .delegateCall)
  | 0xf5 => some .create2
  | 0xfa => some (.call .staticCall)
  | 0xfd => some .revert
  | 0xfe => some .invalid
  | 0xff => some .selfDestruct
  | _ => none

def ofByte? (byte : UInt8) : Option Opcode :=
  let b := byte.toNat
  if h : 0x5f ≤ b ∧ b < 0x80 then some (.push ⟨b - 0x5f, by omega⟩)
  else if h : 0x80 ≤ b ∧ b < 0x90 then some (.dup ⟨b - 0x80, by omega⟩)
  else if h : 0x90 ≤ b ∧ b < 0xa0 then some (.swap ⟨b - 0x90, by omega⟩)
  else if h : 0xa0 ≤ b ∧ b < 0xa5 then some (.log ⟨b - 0xa0, by omega⟩)
  else ofSingle? b

/-- The byte of an instruction that pushes `count` bytes. -/
def pushByte (count : Nat) : UInt8 := UInt8.ofNat (0x5f + count)

/-- The hard fork that brought an instruction. -/
def since : Opcode → HardFork
  | .countLeadingZeros => .osaka
  | .binary .shl | .binary .shr | .binary .sar | .extCodeHash => .constantinople
  | .create2 => .petersburg
  | .context .returnDataSize | .returnDataCopy | .call .staticCall | .revert => .byzantium
  | .call .delegateCall => .homestead
  | .context .chainId | .selfBalance => .istanbul
  | .context .baseFee => .london
  | .push count => if count = 0 then .shanghai else .frontier
  | .context .blobBaseFee | .blobHash | .tload | .tstore | .mcopy => .cancun
  | _ => .frontier

/-- The price of a first look at an account or slot of the state: `warm` from Berlin
on, where a cold access costs more later, and else the price of its time. -/
def accessGas (fork : HardFork) (before warm : Nat) : Nat :=
  if fork.has .berlin then warm else before

/-- The gas that an instruction costs before anything else is looked at. -/
def staticGas (fork : HardFork) : Opcode → Nat
  | .stop | .sstore | .create | .create2 | .return | .revert | .invalid => 0
  | .binary op =>
      match op with
      | .mul | .div | .sdiv | .mod | .smod | .signExtend => 5
      | _ => 3
  | .addMod | .mulMod | .jump => 8
  | .exp | .jumpIf => 10
  | .countLeadingZeros | .selfBalance => 5
  | .keccak256 => 30
  | .context _ | .pop => 2
  | .blockHash => 20
  | .balance | .extCodeHash | .extCodeSize | .extCodeCopy | .call _ => accessGas fork 700 100
  | .sload => accessGas fork 800 100
  | .jumpDest => 1
  | .tload | .tstore => 100
  | .push count => if count = 0 then 2 else 3
  | .log _ => 375
  | .selfDestruct => 5000
  | .isZero | .not | .callDataLoad | .callDataCopy | .codeCopy | .returnDataCopy | .blobHash
  | .mload | .mstore | .mstore8 | .mcopy | .dup _ | .swap _ => 3

end Opcode

end ForkReplay.Evm
