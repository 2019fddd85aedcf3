/-!
# Halts

The ways in which execution stops for good: all gas of the frame is gone and its
changes are undone.
-/

namespace ForkReplay.Evm

/-- What the gas was not enough for. -/
inductive OutOfGas where
  | basic
  /-- Growing the memory. -/
  | memoryLimit
  /-- The call of a precompiled contract. -/
  | precompile
  /-- An offset or a length of more than 64 bits. -/
  | invalidOperand
  /-- A storage write with no more gas than the stipend of a call. -/
  | reentrancySentry
deriving DecidableEq, Repr

/-- Why a frame halted. -/
inductive Halt where
  | outOfGas (cause : OutOfGas)
  | opcodeNotFound
  | invalidOpcode
  | invalidJump
  | notActivated
  | stackUnderflow
  | stackOverflow
  | outOfOffset
  | createCollision
  | overflowPayment
  | createContractSizeLimit
  | createContractStartingWithEf
  | createInitCodeSizeLimit
  /-- A precompiled contract refused its input. -/
  | precompileError
  | stateChangeDuringStaticCall
  | callNotAllowedInsideStatic
deriving DecidableEq, Repr

namespace Halt

def name : Halt → String
  | .outOfGas .basic => "OutOfGas(Basic)"
  | .outOfGas .memoryLimit => "OutOfGas(MemoryLimit)"
  | .outOfGas .precompile => "OutOfGas(Precompile)"
  | .outOfGas .invalidOperand => "OutOfGas(InvalidOperand)"
  | .outOfGas .reentrancySentry => "OutOfGas(ReentrancySentry)"
  | .opcodeNotFound => "OpcodeNotFound"
  | .invalidOpcode => "InvalidFEOpcode"
  | .invalidJump => "InvalidJump"
  | .notActivated => "NotActivated"
  | .stackUnderflow => "StackUnderflow"
  | .stackOverflow => "StackOverflow"
  | .outOfOffset => "OutOfOffset"
  | .createCollision => "CreateCollision"
  | .overflowPayment => "OverflowPayment"
  | .createContractSizeLimit => "CreateContractSizeLimit"
  | .createContractStartingWithEf => "CreateContractStartingWithEF"
  | .createInitCodeSizeLimit => "CreateInitCodeSizeLimit"
  | .precompileError => "PrecompileError"
  | .stateChangeDuringStaticCall => "StateChangeDuringStaticCall"
  | .callNotAllowedInsideStatic => "CallNotAllowedInsideStatic"

end Halt

end ForkReplay.Evm
