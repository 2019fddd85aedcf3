import ForkReplay.Bytes

/-!
# SHA-256

The hash over blocks of 64 bytes, with the message length in bits at the end of
the padding.
-/

namespace ForkReplay.Sha256

/-- The eight chaining values. -/
structure State where
  (a b c d e f g h : UInt32)
deriving DecidableEq

/-- The chaining values before the first block. -/
def initial : State :=
  ⟨0x6a09e667, 0xbb67ae85, 0x3c6ef372, 0xa54ff53a, 0x510e527f, 0x9b05688c, 0x1f83d9ab, 0x5be0cd19⟩

def roundConstants : Array UInt32 :=
  #[0x428a2f98, 0x71374491, 0xb5c0fbcf, 0xe9b5dba5, 0x3956c25b, 0x59f111f1, 0x923f82a4, 0xab1c5ed5,
   0xd807aa98, 0x12835b01, 0x243185be, 0x550c7dc3, 0x72be5d74, 0x80deb1fe, 0x9bdc06a7, 0xc19bf174,
   0xe49b69c1, 0xefbe4786, 0x0fc19dc6, 0x240ca1cc, 0x2de92c6f, 0x4a7484aa, 0x5cb0a9dc, 0x76f988da,
   0x983e5152, 0xa831c66d, 0xb00327c8, 0xbf597fc7, 0xc6e00bf3, 0xd5a79147, 0x06ca6351, 0x14292967,
   0x27b70a85, 0x2e1b2138, 0x4d2c6dfc, 0x53380d13, 0x650a7354, 0x766a0abb, 0x81c2c92e, 0x92722c85,
   0xa2bfe8a1, 0xa81a664b, 0xc24b8b70, 0xc76c51a3, 0xd192e819, 0xd6990624, 0xf40e3585, 0x106aa070,
   0x19a4c116, 0x1e376c08, 0x2748774c, 0x34b0bcb5, 0x391c0cb3, 0x4ed8aa4a, 0x5b9cca4f, 0x682e6ff3,
   0x748f82ee, 0x78a5636f, 0x84c87814, 0x8cc70208, 0x90befffa, 0xa4506ceb, 0xbef9a3f7, 0xc67178f2]

/-- Rotation to the right by an amount below 32. -/
def rotate (value amount : UInt32) : UInt32 :=
  (value >>> amount) ||| (value <<< (32 - amount))

def round (s : State) (constant word : UInt32) : State :=
  let mix := rotate s.e 6 ^^^ rotate s.e 11 ^^^ rotate s.e 25
  let choice := (s.e &&& s.f) ^^^ (~~~s.e &&& s.g)
  let t := s.h + mix + choice + constant + word
  let sum := rotate s.a 2 ^^^ rotate s.a 13 ^^^ rotate s.a 22
  let majority := (s.a &&& s.b) ^^^ (s.a &&& s.c) ^^^ (s.b &&& s.c)
  ⟨t + sum + majority, s.a, s.b, s.c, s.d + t, s.e, s.f, s.g⟩

/-- The schedule word whose four bytes start at `start`. -/
def wordAt (block : Bytes) (start : Nat) : UInt32 :=
  let byte (i : Nat) : UInt32 := (block[start + i]?.getD 0).toUInt32
  byte 0 <<< 24 ||| byte 1 <<< 16 ||| byte 2 <<< 8 ||| byte 3

/-- Appends the next word to the schedule. -/
def extend (schedule : Array UInt32) : Array UInt32 :=
  let back (i : Nat) : UInt32 := schedule.getD (schedule.size - i) 0
  let small := rotate (back 15) 7 ^^^ rotate (back 15) 18 ^^^ (back 15 >>> 3)
  let large := rotate (back 2) 17 ^^^ rotate (back 2) 19 ^^^ (back 2 >>> 10)
  schedule.push (back 16 + small + back 7 + large)

def schedule (block : Bytes) : Array UInt32 :=
  let first := ((List.range 16).map fun i => wordAt block (4 * i)).toArray
  (List.range 48).foldl (fun words _ => extend words) first

/-- The chaining values after one more block. -/
def compress (s : State) (block : Bytes) : State :=
  let words := schedule block
  let t := (List.range 64).foldl
    (fun t i => round t (roundConstants.getD i 0) (words.getD i 0)) s
  ⟨s.a + t.a, s.b + t.b, s.c + t.c, s.d + t.d, s.e + t.e, s.f + t.f, s.g + t.g, s.h + t.h⟩

/-- The message with padding up to a multiple of 64 bytes. -/
def pad (message : Bytes) : Bytes :=
  let missing := 63 - (message.size + 8) % 64
  message ++ Bytes.ofList [0x80] ++ Bytes.zeros missing ++ Bytes.ofNat 8 (8 * message.size)

/-- The state after `count` blocks of `message` from `start` on. -/
def compressBlocks (message : Bytes) : Nat → Nat → State → State
  | 0, _, s => s
  | count + 1, start, s =>
      compressBlocks message count (start + 64) (compress s (message.extract start (start + 64)))

/-- The 32-byte digest of a message. -/
def digest (message : Bytes) : Bytes :=
  let padded := pad message
  let s := compressBlocks padded (padded.size / 64) 0 initial
  [s.a, s.b, s.c, s.d, s.e, s.f, s.g, s.h].foldl
    (fun bytes value => bytes ++ Bytes.ofNat 4 value.toNat) (Bytes.ofList [])

end ForkReplay.Sha256
