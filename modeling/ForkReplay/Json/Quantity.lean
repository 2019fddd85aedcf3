import ForkReplay.Json
import ForkReplay.Text.Numeral
import ForkReplay.Word

/-!
# Quantities in JSON

A node writes a number as a numeral in a string, or as a JSON number. The number has
to fit the width of its field.
-/

namespace ForkReplay.Json

/-- A number below `2 ^ bits`, as a numeral or as a JSON number below `2 ^ 64`. -/
def quantity? (bits : Nat) : Json → Option Nat
  | .string text => (Text.Numeral.parse? text.toList).filter (· < 1 <<< bits)
  | json => (json.uint64?.map UInt64.toNat).filter (· < 1 <<< bits)

def quantity64? (json : Json) : Option UInt64 := (json.quantity? 64).map UInt64.ofNat

def quantity256? (json : Json) : Option Word := (json.quantity? 256).map (BitVec.ofNat 256)

end ForkReplay.Json
