import ForkReplay.Evm.Frame

/-!
# Settling the gas of a transaction

What a transaction spent, what of it comes back, and what the transaction came to.
-/

namespace ForkReplay.Evm

/-- How the gas of a transaction is settled. -/
structure Settlement where
  spent : Nat
  refunded : Nat
deriving DecidableEq, Repr

/-- Settles the gas of a transaction that ended with `result`. A refund is at most a
fifth of the gas spent, or half of it before London; negative refunds count as more
than any cap. What is spent after the refund is at least the floor. -/
def settle (fork : HardFork) (limit floor : Nat) (result : Result) (extraRefund : Nat) :
    Settlement :=
  let left := match result.exit with
    | .halt _ => 0
    | _ => result.gas
  let spent := limit - left
  let refund : Int := (if result.exit = .ok then result.refund else 0) + extraRefund
  let cap := spent / (if fork.has .london then 5 else 2)
  let refunded := if refund < 0 then cap else min refund.toNat cap
  if spent - refunded < floor then { spent := floor, refunded := 0 } else { spent, refunded }

/-- What executing a valid transaction comes to. -/
inductive ExecutionResult where
  | success (gasUsed gasRefunded : Nat) (output : Bytes) (created : Option Address)
  | revert (gasUsed : Nat) (output : Bytes)
  | halt (gasUsed : Nat) (cause : Halt)
deriving DecidableEq

/-- What a settled transaction came to. -/
def ExecutionResult.ofResult (result : Result) (settlement : Settlement) : ExecutionResult :=
  let gasUsed := settlement.spent - settlement.refunded
  match result.exit with
  | .ok => .success gasUsed settlement.refunded result.output result.created
  | .revert => .revert gasUsed result.output
  | .halt cause => .halt gasUsed cause

end ForkReplay.Evm
