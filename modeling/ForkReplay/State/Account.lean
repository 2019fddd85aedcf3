import ForkReplay.Chain.Address

/-!
# Accounts

An account's code is either plain or a delegation to another account, whose
written form is the three bytes `ef 01 00` followed by that address.
-/

namespace ForkReplay

inductive Code where
  /-- Bytes that run as they stand. -/
  | plain (bytes : Bytes)
  /-- The code of another account runs in their place. -/
  | delegation (target : Address)
deriving DecidableEq

namespace Code

instance : Inhabited Code := ⟨.plain (Bytes.ofList [])⟩

/-- The mark at the start of a written delegation. -/
def delegationMark : Bytes := Bytes.ofList [0xef, 0x01, 0x00]

/-- The bytes of a code as they are stored. -/
def bytes : Code → Bytes
  | .plain bytes => bytes
  | .delegation target => delegationMark ++ target.toBytes

def isEmpty : Code → Bool
  | .plain bytes => bytes.size = 0
  | .delegation _ => false

/-- The account that a delegation names. -/
def delegate? : Code → Option Address
  | .plain _ => none
  | .delegation target => some target

def hash (code : Code) : Hash :=
  if code.isEmpty then Hash.empty else keccak256 code.bytes

/-- The code with the given stored bytes. Bytes that start like a delegation but
are none have no meaning. -/
def ofStored? (bytes : Bytes) : Option Code :=
  if bytes.extract 0 2 = Bytes.ofList [0xef, 0x01] then
    if bytes.size = 23 ∧ bytes.extract 0 3 = delegationMark then
      some (.delegation (BitVec.ofNat 160 (Bytes.toNat (bytes.extract 3 23))))
    else none
  else some (.plain bytes)

end Code

/-- What the state holds of an account apart from its storage. -/
structure Account where
  nonce : UInt64 := 0
  balance : Word := 0
  code : Code := default
deriving DecidableEq, Inhabited

/-- The last nonce, which is never counted up. -/
def Account.lastNonce : UInt64 := 0xffffffffffffffff

/-- Whether an account cannot be told from one that never existed. -/
def Account.isEmpty (account : Account) : Bool :=
  account.nonce = 0 && account.balance = 0 && account.code.isEmpty

end ForkReplay
