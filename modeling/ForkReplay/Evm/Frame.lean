import ForkReplay.Evm.Gas
import ForkReplay.Evm.Halt
import ForkReplay.Evm.Opcode
import ForkReplay.Evm.Precompile

/-!
# Frames

A frame is one activation of a contract: its code and input, its stack and memory,
its gas, and the world to go back to when it fails. The operations here either
succeed with a new frame or halt.
-/

namespace ForkReplay.Evm

/-- What does not change while a transaction runs. -/
structure Env where
  fork : HardFork
  precompiles : Precompiles
  chainId : UInt64
  number : Word
  timestamp : Word
  beneficiary : Address
  gasLimit : UInt64
  baseFee : UInt64
  difficulty : Word
  prevRandao : Hash
  blobBaseFee : Nat
  origin : Address
  gasPrice : Nat
  blobHashes : List Hash
deriving Inhabited

/-- What the end of a frame means to the frame that opened it. -/
inductive Purpose where
  /-- The output goes to a range of the caller's memory. -/
  | call (offset size : Nat)
  /-- The output becomes the code of a new account. -/
  | create (address : Address)
deriving DecidableEq, Inhabited

/-- One activation of a contract. -/
structure Frame where
  /-- The account whose storage and balance are used. -/
  address : Address
  caller : Address
  value : Word
  input : Bytes
  code : Bytes
  /-- One byte for each byte of the code, nonzero where a jump may go. -/
  jumpTable : Bytes
  isStatic : Bool
  depth : Nat
  purpose : Purpose
  /-- The world that comes back if the frame fails. -/
  saved : World
  pc : Nat := 0
  stack : List Word := []
  memory : Bytes := Bytes.ofList []
  gas : Nat
  refund : Int := 0
  /-- The output of the last frame opened by this one. -/
  returnData : Bytes := Bytes.ofList []

/-- Marks the places of a code where a jump may go, from `position` on: the
instructions of that kind, but not the bytes that belong to a push. -/
def markJumps (code : Bytes) : Nat → Nat → Bytes → Bytes
  | 0, _, table => table
  | fuel + 1, position, table =>
      if h : position < code.size then
        let byte := code[position]
        if byte = 0x5b then markJumps code fuel (position + 1) (table.set! position 1)
        else if 0x60 ≤ byte ∧ byte < 0x80 then
          markJumps code fuel (position + (byte.toNat - 0x5e)) table
        else markJumps code fuel (position + 1) table
      else table

/-- The places of a code where a jump may go. -/
def jumpTable (code : Bytes) : Bytes := markJumps code code.size 0 (Bytes.zeros code.size)

/-- The most words that a stack holds. -/
def stackLimit : Nat := 1024

/-- The deepest nesting of frames below the first. -/
def depthLimit : Nat := 1024

namespace Frame

def charge (f : Frame) (cost : Nat) : Except Halt Frame :=
  if f.gas < cost then .error (.outOfGas .basic) else .ok { f with gas := f.gas - cost }

def push (f : Frame) (word : Word) : Except Halt Frame :=
  if stackLimit ≤ f.stack.length then .error .stackOverflow
  else .ok { f with stack := word :: f.stack }

/-- Takes the top word from the stack. -/
def pop (f : Frame) : Except Halt (Word × Frame) :=
  match f.stack with
  | a :: rest => .ok (a, { f with stack := rest })
  | _ => .error .stackUnderflow

def pop2 (f : Frame) : Except Halt (Word × Word × Frame) :=
  match f.stack with
  | a :: b :: rest => .ok (a, b, { f with stack := rest })
  | _ => .error .stackUnderflow

def pop3 (f : Frame) : Except Halt (Word × Word × Word × Frame) :=
  match f.stack with
  | a :: b :: c :: rest => .ok (a, b, c, { f with stack := rest })
  | _ => .error .stackUnderflow

def pop4 (f : Frame) : Except Halt (Word × Word × Word × Word × Frame) :=
  match f.stack with
  | a :: b :: c :: d :: rest => .ok (a, b, c, d, { f with stack := rest })
  | _ => .error .stackUnderflow

/-- Reads a word as an offset or a length. -/
def offset (word : Word) : Except Halt Nat :=
  match word.toOffset? with
  | some value => .ok value
  | none => .error (.outOfGas .invalidOperand)

/-- Grows the memory to hold `count` bytes from `start` on, and pays for it. -/
def grow (f : Frame) (start count : Nat) : Except Halt Frame :=
  let size := f.memory.size
  let needed := Bytes.words (start + count)
  let held := size / 32
  if needed ≤ held then .ok f
  else
    let cost := Gas.memory needed - Gas.memory held
    if f.gas < cost then .error (.outOfGas .memoryLimit)
    else
      .ok { f with gas := f.gas - cost, memory := f.memory ++ Bytes.zeros (32 * needed - size) }

/-- Grows the memory for a range given by words. An empty range needs no memory,
wherever it starts. -/
def growRange (f : Frame) (start : Word) (count : Nat) : Except Halt (Nat × Frame) :=
  if count = 0 then .ok (0, f)
  else do
    let start ← offset start
    let f ← f.grow start count
    return (start, f)

/-- Overwrites a part of the memory, which has to be large enough. -/
def write (f : Frame) (start : Nat) (part : Bytes) : Frame :=
  { f with memory := Bytes.store f.memory start part }

def read (f : Frame) (start count : Nat) : Bytes := f.memory.extract start (start + count)

/-- Copies a zero-padded window of `source` to the memory, paying for both. -/
def copyIn (f : Frame) (target : Word) (source : Bytes) (start count : Nat) :
    Except Halt Frame := do
  let f ← f.charge (Gas.copy count)
  if count = 0 then return f
  let (target, f) ← f.growRange target count
  return f.write target (Bytes.window source start count)

end Frame

/-- How a frame ended. -/
inductive Exit where
  | ok
  | revert
  | halt (cause : Halt)
deriving DecidableEq, Repr

/-- What a frame leaves to the one that opened it. -/
structure Result where
  exit : Exit
  output : Bytes := Bytes.ofList []
  /-- The gas that is left. -/
  gas : Nat := 0
  refund : Int := 0
  /-- The account that was created. -/
  created : Option Address := none

/-- A frame that could not start: its gas comes back. -/
def Result.refused (gas : Nat) : Result := { exit := .revert, gas }

/-- A frame that halted: its gas is gone. -/
def Result.halted (cause : Halt) : Result := { exit := .halt cause }

/-- The frame that goes on when one that it opened has ended. Output is seen
by `returnData` and, for a call, in the memory; a creation shows it only if it was
reverted. -/
def Frame.resume (f : Frame) (purpose : Purpose) (result : Result) : Frame :=
  let gas := match result.exit with
    | .halt _ => f.gas
    | _ => f.gas + result.gas
  let refund := match result.exit with
    | .ok => f.refund + result.refund
    | _ => f.refund
  match purpose with
  | .call offset size =>
      let f := { f with
        gas, refund
        returnData := result.output
        stack := Word.ofBool (result.exit = .ok) :: f.stack }
      match result.exit with
      | .halt _ => f
      | _ =>
          let count := min size result.output.size
          if count = 0 then f else f.write offset (result.output.extract 0 count)
  | .create _ =>
      let word := match result.exit, result.created with
        | .ok, some address => address.toWord
        | _, _ => 0
      let returnData := if result.exit = .revert then result.output else Bytes.ofList []
      { f with gas, refund, returnData, stack := word :: f.stack }

end ForkReplay.Evm
