import ForkReplay.Chain.Address
import ForkReplay.Chain.BlobPrice
import ForkReplay.Chain.HardFork

/-!
# Blocks

What a header tells, the head that a follower sees of it, and the environment in
which the transactions of a block run. The environment always has a blob price,
and from the merge on a random value, so that no transaction is refused for the
lack of one.
-/

namespace ForkReplay

/-- The header fields that a replay uses. -/
structure Header where
  number : UInt64
  timestamp : UInt64
  beneficiary : Address
  gasLimit : UInt64
  baseFee : Option UInt64
  difficulty : Word
  mixHash : Option Hash
  excessBlobGas : Option UInt64
deriving DecidableEq, Inhabited

structure BlockInfo where
  number : UInt64 := 0
  timestamp : UInt64 := 0
deriving DecidableEq, Inhabited, Repr

def BlockInfo.ofHeader (header : Header) : BlockInfo := ⟨header.number, header.timestamp⟩

/-- What is needed of a block to execute its transactions. -/
structure BlockContext where
  number : UInt64 := 0
  timestamp : UInt64 := 0
  beneficiary : Address := 0
  gasLimit : UInt64 := 0
  /-- Zero before London. -/
  baseFee : UInt64 := 0
  /-- Zero after the merge. -/
  difficulty : Word := 0
  /-- The mix hash, which is the random value after the merge. -/
  prevRandao : Option Hash := none
  excessBlobGas : Option UInt64 := none
deriving DecidableEq, Inhabited

def BlockContext.ofHeader (header : Header) : BlockContext where
  number := header.number
  timestamp := header.timestamp
  beneficiary := header.beneficiary
  gasLimit := header.gasLimit
  baseFee := header.baseFee.getD 0
  difficulty := header.difficulty
  prevRandao := header.mixHash
  excessBlobGas := header.excessBlobGas

/-- The blob gas excess of a block and the price that follows from it. -/
structure BlobGas where
  excess : UInt64
  price : Nat
deriving DecidableEq, Inhabited

/-- The environment in which the transactions of a block run. -/
structure BlockEnv where
  number : Word
  timestamp : Word
  beneficiary : Address
  gasLimit : UInt64
  baseFee : UInt64
  difficulty : Word
  prevRandao : Option Hash
  blob : Option BlobGas
deriving DecidableEq, Inhabited

/-- The blob gas of a block under the given rules. Its price is computed in 128 bits. -/
def BlobGas.under (fork : HardFork) (excess : UInt64)
    (registers : BlobPrice.Registers := .ofWidth 128) : BlobGas where
  excess := excess
  price :=
    if fork.has .prague then
      BlobPrice.price registers excess.toNat BlobPrice.pragueFraction (by decide)
    else BlobPrice.price registers excess.toNat BlobPrice.cancunFraction (by decide)

/-- The environment of a block under the given rules. -/
def BlockContext.env (context : BlockContext) (fork : HardFork)
    (registers : BlobPrice.Registers := .ofWidth 128) : BlockEnv where
  number := BitVec.ofNat 256 context.number.toNat
  timestamp := BitVec.ofNat 256 context.timestamp.toNat
  beneficiary := context.beneficiary
  gasLimit := context.gasLimit
  baseFee := context.baseFee
  difficulty := context.difficulty
  prevRandao :=
    if fork.has .merge then some (context.prevRandao.getD 0) else context.prevRandao
  blob := some (BlobGas.under fork (context.excessBlobGas.getD 0) registers)

end ForkReplay
