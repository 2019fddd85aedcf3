import ForkReplay.Dialogue
import ForkReplay.State.Account

/-!
# State overlays

An overlay holds every piece of state that was read or written so far. What it
does not hold is looked up behind it: for a fork that is a question to be
answered from outside, and for a state of its own there is nothing. An answer is
kept, so nothing is asked twice.
-/

namespace ForkReplay

/-- A piece of state that may have to be looked up. -/
inductive Lookup where
  | account (address : Address)
  | slot (address : Address) (key : Word)
  | blockHash (number : Nat)
deriving DecidableEq

/-- What a lookup finds. -/
def Lookup.Answer : Lookup → Type
  | .account _ => Account
  | .slot _ _ => Word
  | .blockHash _ => Hash

/-- Why a lookup found nothing. -/
inductive LookupFailure where
  /-- The source of the state reported an error. -/
  | failed (message : String)
  /-- The answer made no sense, and the execution cannot go on. -/
  | crashed
deriving DecidableEq, Repr

/-- The reply to a lookup. -/
abbrev Lookup.Reply (lookup : Lookup) : Type := Except LookupFailure lookup.Answer

/-- A computation that looks up state. -/
abbrev Lookups := Dialogue Lookup Lookup.Reply

/-- What an overlay knows about the existence of an account. -/
inductive Standing where
  /-- There is no such account, and none of its storage. -/
  | absent
  /-- The account exists; storage that is not held has to be looked up. -/
  | present
  /-- The account exists; storage that is not held is zero. -/
  | cleared
deriving DecidableEq, Repr, Inhabited

/-- An account as an overlay holds it. -/
structure HeldAccount where
  account : Account := {}
  storage : WordMap Word := ∅
  standing : Standing := .present

instance : Inhabited HeldAccount := ⟨{}⟩

/-- State held over a source of further state. -/
structure Overlay where
  accounts : AddressMap HeldAccount := ∅
  /-- Codes by their digests. -/
  codes : WordMap Bytes := ∅
  blockHashes : Std.ExtTreeMap Nat Hash := ∅
  /-- Whether what is not held is asked for; otherwise it does not exist. -/
  isFork : Bool := false

namespace Overlay

/-- The overlay that holds nothing over nothing. -/
def empty : Overlay where
  codes := ((∅ : WordMap Bytes).insert 0 (Bytes.ofList [])).insert Hash.empty (Bytes.ofList [])

/-- The overlay that holds nothing over a source that has to be asked. -/
def fork : Overlay := { empty with isFork := true }

/-- The account at `address`, if it is held. -/
def account? (overlay : Overlay) (address : Address) : Option Account :=
  overlay.accounts[address]?.map HeldAccount.account

/-- Whether the account at `address` is known not to exist. -/
def isAbsent (overlay : Overlay) (address : Address) : Bool :=
  match overlay.accounts[address]? with
  | some held => held.standing = .absent
  | none => false

/-- The value of a slot, if it is held. -/
def slot? (overlay : Overlay) (address : Address) (key : Word) : Option Word :=
  match overlay.accounts[address]? with
  | none => none
  | some held =>
      match held.storage[key]? with
      | some value => some value
      | none => if held.standing = .present then none else some 0

/-- The hash of a block, if it is held. -/
def blockHash? (overlay : Overlay) (number : Nat) : Option Hash := overlay.blockHashes[number]?

/-- Holds an account in place of what was held of it. -/
def hold (overlay : Overlay) (address : Address) (held : HeldAccount) : Overlay :=
  { overlay with accounts := overlay.accounts.insert address held }

/-- What is held of an account, or what would be if it did not exist. -/
def held (overlay : Overlay) (address : Address) : HeldAccount :=
  overlay.accounts[address]?.getD { standing := .absent }

/-- Keeps the answer to a lookup. -/
def learn (overlay : Overlay) : (lookup : Lookup) → lookup.Answer → Overlay
  | .account address, (account : Account) => overlay.hold address { account }
  | .slot address key, (value : Word) =>
      let held := overlay.held address
      overlay.hold address { held with storage := held.storage.insert key value }
  | .blockHash number, (hash : Hash) =>
      { overlay with blockHashes := overlay.blockHashes.insert number hash }

/-- The hash given to a block where no chain stands behind the state: the digest of
its number in decimal digits. -/
def standInHash (number : Nat) : Hash := keccak256 (toString number).toUTF8

/-- Keeps what a lookup finds where there is nothing behind the overlay. -/
def assume (overlay : Overlay) : Lookup → Overlay
  | .account address => overlay.hold address { standing := .absent }
  | .slot address key => overlay.learn (.slot address key) (0 : Word)
  | .blockHash number => overlay.learn (.blockHash number) (standInHash number)

/-- Looks up a piece of state that is not held. -/
def fetch (overlay : Overlay) (lookup : Lookup) :
    Lookups (Except LookupFailure Overlay) :=
  if overlay.isFork then
    .ask lookup fun reply => .done (reply.map (overlay.learn lookup))
  else .done (.ok (overlay.assume lookup))

/-- Looks up state for as long as some is missing, at most `rounds` times. A failure leaves
what was found before it. -/
def supply (missing : Overlay → Option Lookup) :
    Nat → Overlay → Lookups (Except LookupFailure Unit × Overlay)
  | 0, overlay => .done (.ok (), overlay)
  | rounds + 1, overlay =>
      match missing overlay with
      | none => .done (.ok (), overlay)
      | some lookup =>
          (overlay.fetch lookup).bind fun
            | .ok overlay => supply missing rounds overlay
            | .error failure => .done (.error failure, overlay)

/-- Files a code under its digest, unless one is filed there already. -/
def fileCode (overlay : Overlay) (code : Code) : Overlay :=
  if code.isEmpty then overlay
  else { overlay with codes := overlay.codes.insertIfNew code.hash code.bytes }

end Overlay

end ForkReplay
