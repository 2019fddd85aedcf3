/-!
# Byte strings

Byte strings are core's `ByteArray`. This module adds the big-endian reading of
numbers, zero-padded windows and in-place stores that calldata, memory and code
share.
-/

namespace ForkReplay

/-- A finite string of bytes. -/
abbrev Bytes := ByteArray

/-- Equality of byte strings is decided byte by byte. -/
instance : DecidableEq Bytes := ByteArray.instDecidableEq

namespace Bytes

def ofList (bytes : List UInt8) : Bytes := ⟨bytes.toArray⟩

def octets (bytes : Bytes) : List UInt8 := bytes.data.toList

@[simp]
theorem octets_ofList (bytes : List UInt8) : (ofList bytes).octets = bytes := by
  simp only [ofList, octets, List.toList_toArray]

@[simp]
theorem ofList_octets (bytes : Bytes) : ofList bytes.octets = bytes := by
  show (⟨bytes.data.toList.toArray⟩ : ByteArray) = bytes
  rw [Array.toArray_toList]

theorem length_octets (bytes : Bytes) : bytes.octets.length = bytes.size := by
  simp only [octets, ByteArray.size, Array.length_toList]

theorem size_ofList (bytes : List UInt8) : (ofList bytes).size = bytes.length := by
  rw [← length_octets, octets_ofList]

/-- A run of `count` zero bytes. -/
def zeros (count : Nat) : Bytes := ⟨Array.replicate count 0⟩

theorem size_zeros (count : Nat) : (zeros count).size = count := by
  simp [zeros, ByteArray.size]

/-- The `count` bytes from `start` on; what lies beyond the end reads as zero. -/
def window (bytes : Bytes) (start count : Nat) : Bytes :=
  let part := bytes.extract start (start + count)
  if part.size = count then part else part ++ zeros (count - part.size)

/-- Overwrites the bytes from `start` on by `part`, which has to fit. -/
def store (bytes : Bytes) (start : Nat) (part : Bytes) : Bytes :=
  part.copySlice 0 bytes start part.size

/-- The number that the bytes spell, most significant byte first. -/
def toNat (bytes : Bytes) : Nat :=
  bytes.data.foldl (fun value byte => value * 256 + byte.toNat) 0

/-- The lowest `width` bytes of a number, most significant byte first. -/
def ofNat (width value : Nat) : Bytes :=
  ofList ((List.range width).map fun i => (value >>> (8 * (width - 1 - i))).toUInt8)

/-- The bytes of a number without leading zero bytes; none for zero. -/
def ofNatShort (value : Nat) : Bytes :=
  ofNat (if value = 0 then 0 else value.log2 / 8 + 1) value

/-- The number of 32-byte words that `count` bytes take, rounded up. -/
def words (count : Nat) : Nat := (count + 31) / 32

def zeroCount (bytes : Bytes) : Nat :=
  bytes.data.foldl (fun count byte => if byte = 0 then count + 1 else count) 0

end Bytes

end ForkReplay
