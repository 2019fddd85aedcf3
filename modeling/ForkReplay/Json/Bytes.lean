import ForkReplay.Chain.Address
import ForkReplay.Json

/-!
# Byte strings in JSON

Byte strings, addresses and hashes are texts of digit pairs with or without a
leader, or arrays of numbers below 256.
-/

namespace ForkReplay.Json

/-- A number below 256. -/
def byte? : Json → Option UInt8
  | .int value => if 0 ≤ value ∧ value < 256 then some (UInt8.ofNat value.toNat) else none
  | _ => none

def bytes? : Json → Option Bytes
  | .string text =>
      match Text.Hex.decode text.toList with
      | .ok bytes => some bytes
      | .error _ => none
  | .array items => (items.mapM byte?).map Bytes.ofList
  | _ => none

/-- A byte string of a given length, as a number. -/
def fixedBytes? (width : Nat) (json : Json) : Option Nat := do
  let bytes ← json.bytes?
  if bytes.size = width then return Bytes.toNat bytes else none

def address? (json : Json) : Option Address := (json.fixedBytes? 20).map (BitVec.ofNat 160)

def hash? (json : Json) : Option Hash := (json.fixedBytes? 32).map (BitVec.ofNat 256)

end ForkReplay.Json
