/-!
# Hard forks

The rule sets of the virtual machine, oldest first. A rule that came with one
hard fork holds in every later one.
-/

namespace ForkReplay

/-- A rule set of the virtual machine. -/
inductive HardFork where
  | frontier | frontierThawing | homestead | daoFork | tangerine | spuriousDragon | byzantium
  | constantinople | petersburg | istanbul | muirGlacier | berlin | london | arrowGlacier
  | grayGlacier | merge | shanghai | cancun | prague | osaka
deriving DecidableEq, Repr, Inhabited

namespace HardFork

def all : List HardFork :=
  [.frontier, .frontierThawing, .homestead, .daoFork, .tangerine, .spuriousDragon, .byzantium,
   .constantinople, .petersburg, .istanbul, .muirGlacier, .berlin, .london, .arrowGlacier,
   .grayGlacier, .merge, .shanghai, .cancun, .prague, .osaka]

/-- The place of a hard fork in the order of activation. -/
def rank (fork : HardFork) : Nat := fork.ctorIdx

instance : LE HardFork where
  le a b := a.rank ≤ b.rank

instance (a b : HardFork) : Decidable (a ≤ b) := inferInstanceAs (Decidable (a.rank ≤ b.rank))

/-- Whether the rules that came with `since` hold. -/
@[inline]
def has (fork since : HardFork) : Bool := since.rank ≤ fork.rank

def name : HardFork → String
  | .frontier => "FRONTIER"
  | .frontierThawing => "FRONTIER_THAWING"
  | .homestead => "HOMESTEAD"
  | .daoFork => "DAO_FORK"
  | .tangerine => "TANGERINE"
  | .spuriousDragon => "SPURIOUS_DRAGON"
  | .byzantium => "BYZANTIUM"
  | .constantinople => "CONSTANTINOPLE"
  | .petersburg => "PETERSBURG"
  | .istanbul => "ISTANBUL"
  | .muirGlacier => "MUIR_GLACIER"
  | .berlin => "BERLIN"
  | .london => "LONDON"
  | .arrowGlacier => "ARROW_GLACIER"
  | .grayGlacier => "GRAY_GLACIER"
  | .merge => "MERGE"
  | .shanghai => "SHANGHAI"
  | .cancun => "CANCUN"
  | .prague => "PRAGUE"
  | .osaka => "OSAKA"

/-- The hard fork of the given name. -/
def ofName? (name : String) : Option HardFork := all.find? fun fork => fork.name = name

end HardFork

end ForkReplay
