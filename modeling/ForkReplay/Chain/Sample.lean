import ForkReplay.Evm.Validity

/-!
# Sample environments

A configuration, a block and a transaction to execute against a state of its own.
-/

namespace ForkReplay.Sample

/-- Prague rules on chain 1. -/
def config (precompiles : Evm.Precompiles := Evm.Precompiles.basic) : Evm.Config :=
  { fork := .prague, chainId := 1, precompiles }

/-- A block after the merge with no base fee. Blocks are twelve seconds apart. -/
def block (number : UInt64) : BlockEnv where
  number := BitVec.ofNat 256 number.toNat
  timestamp := BitVec.ofNat 256 (1750000000 + number * 12).toNat
  beneficiary := 0
  gasLimit := 30000000
  baseFee := 0
  difficulty := 0
  prevRandao := some 0
  blob := some (BlobGas.under .prague 0)

/-- A free legacy transaction on chain 1. -/
def transaction (caller : Address) (nonce : UInt64) (callee : Option Address) (data : Bytes)
    (value : Word) : Transaction :=
  { caller, nonce, callee, data, value, gasLimit := 1000000, chainId := some 1 }

end ForkReplay.Sample
