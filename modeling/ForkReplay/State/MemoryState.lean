import ForkReplay.State.Overlay

/-!
# State of its own

An overlay over nothing is a state that is built by edits. Each edit of an account
creates it if there is none. The reads here look up and keep what they find, like the
reads of a fork.
-/

namespace ForkReplay.Overlay

/-- Changes the account at `address`, which exists from then on. -/
def editAccount (overlay : Overlay) (address : Address) (change : Account → Account) : Overlay :=
  let held := overlay.held address
  let account := change held.account
  let standing := if held.standing = .absent then .present else held.standing
  (overlay.fileCode account.code).hold address { held with account, standing }

def setBalance (overlay : Overlay) (address : Address) (balance : Word) : Overlay :=
  overlay.editAccount address fun account => { account with balance }

def setNonce (overlay : Overlay) (address : Address) (nonce : UInt64) : Overlay :=
  overlay.editAccount address fun account => { account with nonce }

/-- Deploys code at an account. The bytes run as they stand, whatever they are. -/
def setCode (overlay : Overlay) (address : Address) (bytes : Bytes) : Overlay :=
  overlay.editAccount address fun account => { account with code := .plain bytes }

/-- Sets a slot of an account, without making the account exist. -/
def setStorage (overlay : Overlay) (address : Address) (key value : Word) : Overlay :=
  overlay.learn (.slot address key) value

/-- The balance of an account, zero if it is not held. -/
def balanceOf (overlay : Overlay) (address : Address) : Word :=
  (overlay.held address).account.balance

/-- The nonce of an account, zero if it is not held. -/
def nonceOf (overlay : Overlay) (address : Address) : UInt64 :=
  (overlay.held address).account.nonce

/-- The value of a slot, zero if it is not held. -/
def storageOf (overlay : Overlay) (address : Address) (key : Word) : Word :=
  (overlay.held address).storage[key]?.getD 0

/-- Reads an account, none if it does not exist. -/
def readAccount (overlay : Overlay) (address : Address) : Option Account × Overlay :=
  let overlay :=
    if (overlay.account? address).isSome then overlay else overlay.assume (.account address)
  (if overlay.isAbsent address then none else overlay.account? address, overlay)

def readStorage (overlay : Overlay) (address : Address) (key : Word) : Word × Overlay :=
  let overlay := (overlay.readAccount address).2
  match overlay.slot? address key with
  | some value => (value, overlay)
  | none => (0, overlay.assume (.slot address key))

/-- Reads the code with the given digest. An unknown one reads as empty code, which is
then filed under it. -/
def readCode (overlay : Overlay) (hash : Hash) : Bytes × Overlay :=
  match overlay.codes[hash]? with
  | some bytes => (bytes, overlay)
  | none =>
      let nothing := Bytes.ofList []
      (nothing, { overlay with codes := overlay.codes.insert hash nothing })

def readBlockHash (overlay : Overlay) (number : Nat) : Hash × Overlay :=
  match overlay.blockHash? number with
  | some hash => (hash, overlay)
  | none => (standInHash number, overlay.assume (.blockHash number))

end ForkReplay.Overlay
