import ForkReplay.Chain.Address
import ForkReplay.Chain.HardFork
import ForkReplay.Digest.Sha256

/-!
# Precompiled contracts

The contracts that live without code at addresses reserved by the rules of a hard fork. These
addresses are warm from the start, and calls of them are answered by the contract, whatever code
their accounts have. Which contracts there are is a parameter of the machine.
-/

namespace ForkReplay.Evm

/-- A contract without code. -/
structure Precompile where
  /-- What a call with the input takes. -/
  gas : (input : Bytes) → Nat
  /-- What the contract answers, or none if it refuses the input. -/
  output : (input : Bytes) → Option Bytes
deriving Inhabited

/-- The contracts at the reserved addresses, by the rules of each hard fork. -/
abbrev Precompiles := HardFork → Address → Precompile

namespace Precompile

def sha256 : Precompile where
  gas input := 60 + 12 * Bytes.words input.size
  output input := some (Sha256.digest input)

def identity : Precompile where
  gas input := 15 + 3 * Bytes.words input.size
  output := some

def refusing : Precompile where
  gas _ := 0
  output _ := none

/-- How many low addresses are reserved, starting from one. -/
def reserved (fork : HardFork) : Nat :=
  if fork.has .prague then 17
  else if fork.has .cancun then 10
  else if fork.has .istanbul then 9
  else if fork.has .byzantium then 8
  else 4

/-- The reserved addresses: low ones, and a later one for another signature scheme. -/
def addresses (fork : HardFork) : List Address :=
  let low := (List.range (reserved fork)).map fun i => BitVec.ofNat 160 (i + 1)
  if fork.has .osaka then low ++ [0x100] else low

end Precompile

namespace Precompiles

/-- The hash and the identity. Nothing is given here for the arithmetic of curves and the other
contracts, so that what stands at their addresses refuses every input. -/
def basic : Precompiles := fun _ address =>
  if address = 2 then .sha256 else if address = 4 then .identity else .refusing

/-- The contract at an address, if it is reserved. -/
def at? (precompiles : Precompiles) (fork : HardFork) (address : Address) : Option Precompile :=
  if (Precompile.addresses fork).contains address then some (precompiles fork address) else none

end Precompiles

end ForkReplay.Evm
