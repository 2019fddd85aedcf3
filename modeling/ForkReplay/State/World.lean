import ForkReplay.State.Overlay

/-!
# The world of a running transaction

A world holds what a transaction has touched so far, on top of an overlay that it
only reads. Undoing a part of the transaction means going back to the world that
was there before it, so warmth of accounts and slots is undone with everything
else. The overlay receives the changes when the transaction is over.
-/

namespace ForkReplay

/-- A storage slot that the transaction has accessed. -/
structure Slot where
  /-- The value before the transaction. -/
  before : Word
  present : Word
deriving DecidableEq, Inhabited

/-- An account that the transaction has accessed. -/
structure AccessedAccount where
  account : Account
  slots : WordMap Slot := ∅
  /-- Whether the account takes part in the changes of the transaction. -/
  touched : Bool := false
  /-- Whether the transaction created the account. -/
  created : Bool := false
  /-- Whether the account goes away at the end of the transaction. -/
  destroyed : Bool := false

instance : Inhabited AccessedAccount := ⟨{ account := {} }⟩

/-- The accounts and slots a transaction has accessed, with their present values. -/
structure World where
  accounts : AddressMap AccessedAccount := ∅
  /-- Slots that live as long as the transaction. -/
  transient : AddressMap (WordMap Word) := ∅
  /-- Accounts that are warm before they are accessed. -/
  warmed : AddressMap Unit := ∅

instance : Inhabited World := ⟨{}⟩

namespace World

/-- The lookup that has to come before the account can be accessed. -/
def missingAccount? (world : World) (overlay : Overlay) (address : Address) : Option Lookup :=
  if world.accounts.contains address || (overlay.account? address).isSome then none
  else some (.account address)

/-- An account as the transaction sees it. One that is neither accessed nor held
reads as empty. -/
def accessed (world : World) (overlay : Overlay) (address : Address) : AccessedAccount :=
  match world.accounts[address]? with
  | some entry => entry
  | none => { account := (overlay.account? address).getD {} }

/-- The account's nonce, balance and code as the transaction sees them. -/
def account (world : World) (overlay : Overlay) (address : Address) : Account :=
  (world.accessed overlay address).account

def isWarm (world : World) (address : Address) : Bool :=
  world.accounts.contains address || world.warmed.contains address

/-- Records what became of an account. -/
def put (world : World) (address : Address) (entry : AccessedAccount) : World :=
  { world with accounts := world.accounts.insert address entry }

/-- Accesses an account, which is warm from then on. -/
def load (world : World) (overlay : Overlay) (address : Address) : World :=
  if world.accounts.contains address then world
  else world.put address (world.accessed overlay address)

def modify (world : World) (overlay : Overlay) (address : Address)
    (change : AccessedAccount → AccessedAccount) : World :=
  world.put address (change (world.accessed overlay address))

/-- Marks an account as one whose state is written back. -/
def touch (world : World) (overlay : Overlay) (address : Address) : World :=
  world.modify overlay address fun entry => { entry with touched := true }

def setBalance (world : World) (overlay : Overlay) (address : Address) (balance : Word) :
    World :=
  world.modify overlay address fun entry =>
    { entry with account := { entry.account with balance } }

/-- Adds to the balance of an account, up to the largest word, and touches it. -/
def credit (world : World) (overlay : Overlay) (address : Address) (amount : Nat) : World :=
  world.modify overlay address fun entry =>
    let balance := BitVec.ofNat 256 (min (entry.account.balance.toNat + amount) (Word.size - 1))
    { entry with touched := true, account := { entry.account with balance } }

def setCode (world : World) (overlay : Overlay) (address : Address) (code : Code) : World :=
  world.modify overlay address fun entry =>
    { entry with touched := true, account := { entry.account with code } }

/-- The lookup that has to come before the slot can be accessed: that of its account
if the overlay does not hold it, then that of the slot. The storage of an account that
the transaction created is empty. -/
def missingSlot? (world : World) (overlay : Overlay) (address : Address) (key : Word) :
    Option Lookup :=
  let entry := world.accessed overlay address
  if entry.slots.contains key || entry.created || (overlay.slot? address key).isSome then none
  else if (overlay.account? address).isSome then some (.slot address key)
  else some (.account address)

def isWarmSlot (world : World) (overlay : Overlay) (address : Address) (key : Word) : Bool :=
  (world.accessed overlay address).slots.contains key

/-- A slot as the transaction sees it. -/
def slot (world : World) (overlay : Overlay) (address : Address) (key : Word) : Slot :=
  let entry := world.accessed overlay address
  match entry.slots[key]? with
  | some slot => slot
  | none =>
      let value := if entry.created then 0 else (overlay.slot? address key).getD 0
      ⟨value, value⟩

/-- Records a slot as accessed, with its values. -/
def putSlot (world : World) (overlay : Overlay) (address : Address) (key : Word) (slot : Slot) :
    World :=
  world.modify overlay address fun entry => { entry with slots := entry.slots.insert key slot }

def transientSlot (world : World) (address : Address) (key : Word) : Word :=
  match world.transient[address]? with
  | some slots => slots[key]?.getD 0
  | none => 0

def setTransientSlot (world : World) (address : Address) (key value : Word) : World :=
  let slots := (world.transient[address]?.getD ∅).insert key value
  { world with transient := world.transient.insert address slots }

/-- Why value could not be moved. -/
inductive TransferFailure where
  /-- The payer owns less than the value. -/
  | outOfFunds
  /-- The payee's balance would not fit a word. -/
  | overflow
deriving DecidableEq, Repr

/-- Moves value between two accessed accounts, in that order: the payer's balance
goes down, then the payee's goes up. A move of nothing touches the payee alone. -/
def transfer (world : World) (overlay : Overlay) (payer payee : Address) (value : Word) :
    Except TransferFailure World :=
  if value = 0 then .ok (world.touch overlay payee)
  else
    let owned := (world.account overlay payer).balance
    if owned < value then .error .outOfFunds
    else
      let world := (world.touch overlay payer).setBalance overlay payer (owned - value)
      let world := world.touch overlay payee
      let held := (world.account overlay payee).balance
      if held.toNat + value.toNat < Word.size then
        .ok (world.setBalance overlay payee (held + value))
      else .error .overflow

end World

namespace Overlay

/-- Writes back one account of a finished transaction. An account that was not
touched has not changed. A destroyed account does not exist any more; a created one
has no storage but what the transaction wrote. -/
def commitAccount (overlay : Overlay) (address : Address) (entry : AccessedAccount) : Overlay :=
  if !entry.touched then overlay
  else
    let held := overlay.held address
    if entry.destroyed then overlay.hold address { standing := .absent }
    else
      let storage := if entry.created then ∅ else held.storage
      let standing :=
        if entry.created || held.standing = .cleared then Standing.cleared else .present
      let storage := entry.slots.foldl (fun storage key slot => storage.insert key slot.present)
        storage
      (overlay.fileCode entry.account.code).hold address
        { account := entry.account, storage, standing }

/-- Writes back what a finished transaction changed. -/
def commit (overlay : Overlay) (world : World) : Overlay :=
  world.accounts.foldl commitAccount overlay

end Overlay

end ForkReplay
