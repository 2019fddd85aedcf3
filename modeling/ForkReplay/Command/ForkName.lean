import ForkReplay.Chain.HardFork

/-!
# Hard forks on the command line

The hard forks that can be chosen for chains without a known schedule.
-/

namespace ForkReplay.Command

/-- A hard fork that can be chosen. -/
inductive ForkName where
  | berlin | london | paris | shanghai | cancun | prague
deriving DecidableEq, Repr, Inhabited

namespace ForkName

def all : List ForkName := [.berlin, .london, .paris, .shanghai, .cancun, .prague]

/-- The name of a choice with a capital. -/
def label : ForkName → String
  | .berlin => "Berlin"
  | .london => "London"
  | .paris => "Paris"
  | .shanghai => "Shanghai"
  | .cancun => "Cancun"
  | .prague => "Prague"

/-- Every name under which a choice is taken. -/
def names : ForkName → List String
  | .berlin => ["berlin"]
  | .london => ["london"]
  | .paris => ["paris", "merge"]
  | .shanghai => ["shanghai"]
  | .cancun => ["cancun"]
  | .prague => ["prague"]

def hardFork : ForkName → HardFork
  | .berlin => .berlin
  | .london => .london
  | .paris => .merge
  | .shanghai => .shanghai
  | .cancun => .cancun
  | .prague => .prague

/-- The choice with exactly the given name. -/
def ofName? (name : String) : Option ForkName := all.find? fun fork => fork.names.contains name

/-- The choice with the given name, the case of ASCII letters aside. -/
def parse? (text : String) : Option ForkName :=
  ofName? (String.ofList (text.toList.map Char.toLower))

def unknownMessage (text : String) : String := "invalid variant: " ++ text

end ForkName

end ForkReplay.Command
