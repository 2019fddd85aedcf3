import ForkReplay.Chain.HardFork
import ForkReplay.State.World

/-!
# Gas

The prices that depend on operands or on the state: memory, copies, storage, calls
and creations, and what a transaction costs before it runs.
-/

namespace ForkReplay.Evm.Gas

/-- The price of a memory of the given number of words. -/
def memory (words : Nat) : Nat := 3 * words + words * words / 512

/-- The price of copying bytes, on top of the static one. -/
def copy (count : Nat) : Nat := 3 * Bytes.words count

/-- The price of hashing bytes, on top of the static one. -/
def hashing (count : Nat) : Nat := 6 * Bytes.words count

/-- The price of a power, on top of the static one. -/
def exponent (exponent : Word) : Nat := 50 * exponent.byteLength

/-- The price of a log entry, on top of the static one. -/
def log (topics count : Nat) : Nat := 375 * topics + 8 * count

def initCode (count : Nat) : Nat := 2 * Bytes.words count

def create : Nat := 32000

def codeDeposit (count : Nat) : Nat := 200 * count

/-- The longest code that can be deployed. -/
def maxCodeSize : Nat := 24576

/-- The longest init code from Shanghai on. -/
def maxInitCodeSize : Nat := 49152

/-- What a cold account costs more than a warm one. -/
def coldAccount (fork : HardFork) (warm : Bool) : Nat :=
  if fork.has .berlin && !warm then 2500 else 0

/-- What a cold slot costs more to read than a warm one. -/
def coldSlotRead (fork : HardFork) (warm : Bool) : Nat :=
  if fork.has .berlin && !warm then 2000 else 0

/-- What the callee of a value gets for free. -/
def callStipend : Nat := 2300

/-- The price of a call, on top of the static one. `delegate` is the warmth of the
account that the callee delegates to, if it does. -/
def call (fork : HardFork) (warm : Bool) (delegate : Option Bool) (transfers isNew : Bool) : Nat :=
  let access := coldAccount fork warm
  let delegation :=
    match delegate with
    | none => 0
    | some warm => if fork.has .berlin then 100 + coldAccount fork warm else 0
  let value := if transfers then 9000 else 0
  let account := if isNew && transfers then 25000 else 0
  access + delegation + value + account

/-- What is left of the gas for a call: one part in 64 stays with the caller. -/
def allButOne64th (gas : Nat) : Nat := gas - gas / 64

/-- The price of reading a slot that is warm. -/
def warmSlot (fork : HardFork) : Nat := if fork.has .berlin then 100 else 800

/-- The price of changing a nonzero slot for the first time. -/
def slotReset (fork : HardFork) : Nat := if fork.has .berlin then 2900 else 5000

/-- The price of setting a zero slot for the first time. -/
def slotSet : Nat := 20000

/-- The price of writing `new` to a slot. -/
def slotWrite (fork : HardFork) (slot : Slot) (new : Word) (warm : Bool) : Nat :=
  let cold := if fork.has .berlin && !warm then 2100 else 0
  let change :=
    if new = slot.present then warmSlot fork
    else if slot.before = slot.present then
      if slot.before = 0 then slotSet else slotReset fork
    else warmSlot fork
  cold + change

/-- What clearing a slot gives back. -/
def clearRefund (fork : HardFork) : Int := if fork.has .london then 4800 else 15000

/-- What writing `new` to a slot gives back, or takes back if negative. -/
def slotRefund (fork : HardFork) (slot : Slot) (new : Word) : Int :=
  if new = slot.present then 0
  else if slot.before = slot.present && new = 0 then clearRefund fork
  else
    let cleared : Int :=
      if slot.before = 0 then 0
      else if slot.present = 0 then -clearRefund fork
      else if new = 0 then clearRefund fork
      else 0
    let restored : Int :=
      if slot.before = new then
        if slot.before = 0 then (slotSet - warmSlot fork : Nat)
        else (slotReset fork - warmSlot fork : Nat)
      else 0
    cleared + restored

/-- The price of a destruction, on top of the static one. -/
def selfDestruct (fork : HardFork) (warm newBeneficiary : Bool) : Nat :=
  let access := if fork.has .berlin && !warm then 2600 else 0
  access + if newBeneficiary then 25000 else 0

/-- What the first destruction of an account gives back. -/
def selfDestructRefund (fork : HardFork) (again : Bool) : Int :=
  if fork.has .london || again then 0 else 24000

end ForkReplay.Evm.Gas
