import ForkReplay.Bytes

/-!
# Words of the virtual machine

A word is 256 bits wide and its arithmetic wraps. Division by zero gives zero,
and a shift by 256 or more leaves nothing but the sign.
-/

namespace ForkReplay

/-- A 256-bit word. -/
abbrev Word := BitVec 256

namespace Word

/-- How many words there are. -/
abbrev size : Nat := 1 <<< 256

/-- The word with the value of a number, which wraps. -/
def ofNat (value : Nat) : Word := BitVec.ofNat 256 value

/-- The word a truth value stands for. -/
def ofBool (value : Bool) : Word := if value then 1 else 0

/-- The word with the value of `bytes`, read from the most significant byte. -/
def ofBytes (bytes : Bytes) : Word := BitVec.ofNat 256 bytes.toNat

/-- The 32 bytes of a word, most significant first. -/
def toBytes (word : Word) : Bytes := Bytes.ofNat 32 word.toNat

/-- Unsigned remainder; zero for a zero divisor. -/
def mod (a b : Word) : Word := if b = 0 then 0 else a % b

/-- Signed quotient, rounded toward zero; zero for a zero divisor. -/
def sdiv (a b : Word) : Word := if b = 0 then 0 else BitVec.sdiv a b

/-- Signed remainder with the sign of the dividend; zero for a zero divisor. -/
def smod (a b : Word) : Word := if b = 0 then 0 else BitVec.srem a b

/-- The sum modulo `n`, computed without wrapping; zero for `n = 0`. -/
def addMod (a b n : Word) : Word :=
  if n = 0 then 0 else BitVec.ofNat 256 ((a.toNat + b.toNat) % n.toNat)

/-- The product modulo `n`, computed without wrapping; zero for `n = 0`. -/
def mulMod (a b n : Word) : Word :=
  if n = 0 then 0 else BitVec.ofNat 256 ((a.toNat * b.toNat) % n.toNat)

/-- `power bits base exponent` is `base ^ exponent` for exponents of at most
`bits` bits, by repeated squaring. -/
def power : Nat → Word → Nat → Word
  | 0, _, _ => 1
  | bits + 1, base, exponent =>
      if exponent = 0 then 1
      else
        let rest := power bits (base * base) (exponent / 2)
        if exponent % 2 = 1 then base * rest else rest

def exp (base exponent : Word) : Word := power 256 base exponent.toNat

/-- Extends the sign of the value's lowest `position + 1` bytes. -/
def signExtend (position value : Word) : Word :=
  if position.toNat ≥ 31 then value
  else
    let width := 8 * (position.toNat + 1)
    (value.truncate width).signExtend 256

/-- The byte at `position`, counted from the most significant one. -/
def byte (position value : Word) : Word :=
  if position.toNat ≥ 32 then 0
  else (value >>> (8 * (31 - position.toNat))) &&& 0xff

def shl (amount value : Word) : Word :=
  if amount.toNat ≥ 256 then 0 else value <<< amount.toNat

def shr (amount value : Word) : Word :=
  if amount.toNat ≥ 256 then 0 else value >>> amount.toNat

def sar (amount value : Word) : Word :=
  if amount.toNat ≥ 256 then (if value.msb then BitVec.allOnes 256 else 0)
  else value.sshiftRight amount.toNat

/-- The value as an offset or a length, if it fits 64 bits. -/
def toOffset? (word : Word) : Option Nat :=
  if word.toNat < UInt64.size then some word.toNat else none

/-- The value as a 64-bit number, the largest one if it does not fit. -/
def clamp64 (word : Word) : Nat := min word.toNat (UInt64.size - 1)

/-- The number of zero bits above the highest one. -/
def leadingZeros (word : Word) : Word :=
  if word = 0 then 256 else ofNat (255 - word.toNat.log2)

/-- The number of bytes that the value takes without leading zeros. -/
def byteLength (word : Word) : Nat :=
  if word = 0 then 0 else word.toNat.log2 / 8 + 1

end Word

end ForkReplay
