import ForkReplay.Chain.Address
import ForkReplay.Chain.HardFork

/-!
# Networks

The chains with a known public endpoint, the activation schedule of the Ethereum
main network, and the senders whose transactions are bookkeeping of their chain.
-/

namespace ForkReplay

/-- A chain with a known public endpoint. -/
inductive Network where
  | ethereum | arbitrum | bsc | mantle | mantleSepolia
deriving DecidableEq, Repr

namespace Network

def all : List Network := [.ethereum, .arbitrum, .bsc, .mantle, .mantleSepolia]

def chainId : Network → UInt64
  | .ethereum => 1
  | .arbitrum => 42161
  | .bsc => 56
  | .mantle => 5000
  | .mantleSepolia => 5003

def endpoint : Network → String
  | .ethereum => "wss://ethereum-rpc.publicnode.com"
  | .arbitrum => "wss://arbitrum-one-rpc.publicnode.com"
  | .bsc => "wss://bsc-rpc.publicnode.com"
  | .mantle => "wss://wss.mantle.xyz"
  | .mantleSepolia => "wss://wss.sepolia.mantle.xyz"

/-- The name of a network in lower case. -/
def name : Network → String
  | .ethereum => "ethereum"
  | .arbitrum => "arbitrum"
  | .bsc => "bsc"
  | .mantle => "mantle"
  | .mantleSepolia => "mantle-sepolia"

/-- Every name under which a network can be given. -/
def names : Network → List String
  | .ethereum => ["ethereum", "eth", "mainnet"]
  | .arbitrum => ["arbitrum", "arbi", "arb"]
  | .bsc => ["bsc", "bnb"]
  | .mantle => ["mantle"]
  | .mantleSepolia => ["mantle-sepolia", "mantle_sepolia"]

/-- The network with the given chain id. -/
def ofChainId? (chainId : UInt64) : Option Network :=
  all.find? fun network => network.chainId = chainId

/-- The network that a text names, blanks at its ends and the case of ASCII
letters aside. -/
def parse? (s : String) : Option Network :=
  let key := String.ofList ((Text.trimChars s.toList).map Char.toLower)
  all.find? fun network => network.names.contains key

def unknownMessage (s : String) : String := s!"Unknown network '{s}'"

end Network

namespace Mainnet

/-- First timestamp under Prague. -/
def pragueTime : UInt64 := 1746612311

/-- First timestamp under Cancun. -/
def cancunTime : UInt64 := 1710338135

/-- First timestamp under Shanghai. -/
def shanghaiTime : UInt64 := 1681338455

/-- First block after the merge. -/
def mergeBlock : UInt64 := 15537394

/-- First block under London. -/
def londonBlock : UInt64 := 12965000

/-- First block under Berlin. -/
def berlinBlock : UInt64 := 12244000

/-- The hard fork that a block of the main network executes under. Forks after the
merge are activated by time, earlier ones by number. -/
def forkAt (number timestamp : UInt64) : HardFork :=
  if pragueTime ≤ timestamp then .prague
  else if cancunTime ≤ timestamp then .cancun
  else if shanghaiTime ≤ timestamp then .shanghai
  else if mergeBlock ≤ number then .merge
  else if londonBlock ≤ number then .london
  else if berlinBlock ≤ number then .berlin
  else .istanbul

end Mainnet

/-- The hard fork that a block executes under: the schedule of the main network on
chain 1, and `fallback` on every other chain. -/
def forkForBlock (chainId number timestamp : UInt64) (fallback : HardFork) : HardFork :=
  if chainId = Network.ethereum.chainId then Mainnet.forkAt number timestamp else fallback

/-- The sender of the bookkeeping transaction that Arbitrum puts at the start of
every block. -/
def arbitrumSender : Address := 0xa4b05

/-- The senders whose transactions are not executed at the start of a block, the
same on every chain. -/
def systemSenders (_chainId : UInt64) : List Address := [arbitrumSender]

end ForkReplay
