import Std.Data.ExtTreeMap
import ForkReplay.Word
import ForkReplay.Digest.Keccak
import ForkReplay.Text.Blank
import ForkReplay.Text.Hex

/-!
# Addresses and hashes

An address is 160 bits wide, a hash 256. Maps keyed by them are ordered by value
and equal when they hold the same entries.
-/

namespace ForkReplay

abbrev Address := BitVec 160

/-- A 32-byte digest. -/
abbrev Hash := BitVec 256

abbrev AddressMap (α : Type) := Std.ExtTreeMap Address α

/-- A finite map from words or hashes. -/
abbrev WordMap (α : Type) := Std.ExtTreeMap Word α

def keccak256 (message : Bytes) : Hash := BitVec.ofNat 256 (Keccak.digest message).toNat

instance : Std.TransOrd Address := BitVec.instTransOrd

instance : Std.TransOrd Word := BitVec.instTransOrd

namespace Hash

def toBytes (hash : Hash) : Bytes := Bytes.ofNat 32 hash.toNat

/-- The 64 digits of a hash with the leader `0x`. -/
def text (hash : Hash) : String := Text.Hex.ofBytes hash.toBytes

/-- Reads 64 digits after an optional leader. -/
def parse? (s : String) : Option Hash := (Text.Hex.fixed? 32 s.toList).map (BitVec.ofNat 256)

/-- Reads the hash of a transaction as people write it: blanks at the ends do not
count, and after one leader the text takes exactly 64 bytes. -/
def ofText? (s : String) : Option Hash :=
  let body := Text.Hex.stripLeader (Text.trimChars s.toList)
  if (String.ofList body).utf8ByteSize = 64 then parse? (String.ofList body) else none

def empty : Hash := 0xc5d2460186f7233c927e7db2dcc703c0e500b653ca82273b7bfad8045d85a470

end Hash

namespace Address

/-- The low 160 bits of a word. -/
def ofWord (word : Word) : Address := word.truncate 160

/-- The word with the value of an address. -/
def toWord (address : Address) : Word := address.zeroExtend 256

def toBytes (address : Address) : Bytes := Bytes.ofNat 20 address.toNat

/-- The 40 digits of an address with the leader `0x`. -/
def text (address : Address) : String := Text.Hex.ofBytes address.toBytes

/-- Reads 40 digits after an optional leader. -/
def parse? (s : String) : Option Address :=
  (Text.Hex.fixed? 20 s.toList).map (BitVec.ofNat 160)

/-- The encoding of a byte string as one item of a list: a single byte below
`0x80` stands for itself, anything else follows its length. -/
def listItem (item : Bytes) : Bytes :=
  if item.size = 1 ∧ (item[0]?.getD 0) < 0x80 then item
  else Bytes.ofList [UInt8.ofNat (0x80 + item.size)] ++ item

/-- The address of the contract that `creator` deploys with the given nonce: the
digest of the encoded pair of both. -/
def ofCreation (creator : Address) (nonce : UInt64) : Address :=
  let items := listItem creator.toBytes ++ listItem (Bytes.ofNatShort nonce.toNat)
  ofWord (keccak256 (Bytes.ofList [UInt8.ofNat (0xc0 + items.size)] ++ items))

/-- The address of a contract deployed under a salt. -/
def ofSaltedCreation (creator : Address) (salt : Word) (initCodeHash : Hash) : Address :=
  ofWord (keccak256 (Bytes.ofList [0xff] ++ creator.toBytes ++ salt.toBytes ++
    initCodeHash.toBytes))

end Address

end ForkReplay
