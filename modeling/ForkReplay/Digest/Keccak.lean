import ForkReplay.Bytes

/-!
# Keccak-256

The sponge over 1600 bits with a rate of 136 bytes and the padding byte `0x01`,
as it names accounts, code and storage. The state is a record of its 25 lanes, so
that a round works on machine words only.
-/

namespace ForkReplay.Keccak

/-- The 25 lanes of the sponge; `lXY` is the lane in column `X` and row `Y`. -/
structure State where
  (l00 l10 l20 l30 l40 : UInt64)
  (l01 l11 l21 l31 l41 : UInt64)
  (l02 l12 l22 l32 l42 : UInt64)
  (l03 l13 l23 l33 l43 : UInt64)
  (l04 l14 l24 l34 l44 : UInt64)
deriving Inhabited, DecidableEq

/-- Rotation to the left by an amount below 64. -/
@[inline]
def rotate (lane : UInt64) (amount : UInt64) : UInt64 :=
  (lane <<< amount) ||| (lane >>> (64 - amount))

/-- One round with the given round constant: column parities are mixed in, lanes
are rotated and moved, and each row is combined nonlinearly. -/
def round (s : State) (constant : UInt64) : State :=
  let c0 := s.l00 ^^^ s.l01 ^^^ s.l02 ^^^ s.l03 ^^^ s.l04
  let c1 := s.l10 ^^^ s.l11 ^^^ s.l12 ^^^ s.l13 ^^^ s.l14
  let c2 := s.l20 ^^^ s.l21 ^^^ s.l22 ^^^ s.l23 ^^^ s.l24
  let c3 := s.l30 ^^^ s.l31 ^^^ s.l32 ^^^ s.l33 ^^^ s.l34
  let c4 := s.l40 ^^^ s.l41 ^^^ s.l42 ^^^ s.l43 ^^^ s.l44
  let d0 := c4 ^^^ rotate c1 1
  let d1 := c0 ^^^ rotate c2 1
  let d2 := c1 ^^^ rotate c3 1
  let d3 := c2 ^^^ rotate c4 1
  let d4 := c3 ^^^ rotate c0 1
  let b00 := s.l00 ^^^ d0
  let b13 := rotate (s.l01 ^^^ d0) 36
  let b21 := rotate (s.l02 ^^^ d0) 3
  let b34 := rotate (s.l03 ^^^ d0) 41
  let b42 := rotate (s.l04 ^^^ d0) 18
  let b02 := rotate (s.l10 ^^^ d1) 1
  let b10 := rotate (s.l11 ^^^ d1) 44
  let b23 := rotate (s.l12 ^^^ d1) 10
  let b31 := rotate (s.l13 ^^^ d1) 45
  let b44 := rotate (s.l14 ^^^ d1) 2
  let b04 := rotate (s.l20 ^^^ d2) 62
  let b12 := rotate (s.l21 ^^^ d2) 6
  let b20 := rotate (s.l22 ^^^ d2) 43
  let b33 := rotate (s.l23 ^^^ d2) 15
  let b41 := rotate (s.l24 ^^^ d2) 61
  let b01 := rotate (s.l30 ^^^ d3) 28
  let b14 := rotate (s.l31 ^^^ d3) 55
  let b22 := rotate (s.l32 ^^^ d3) 25
  let b30 := rotate (s.l33 ^^^ d3) 21
  let b43 := rotate (s.l34 ^^^ d3) 56
  let b03 := rotate (s.l40 ^^^ d4) 27
  let b11 := rotate (s.l41 ^^^ d4) 20
  let b24 := rotate (s.l42 ^^^ d4) 39
  let b32 := rotate (s.l43 ^^^ d4) 8
  let b40 := rotate (s.l44 ^^^ d4) 14
  {
    l00 := b00 ^^^ (~~~b10 &&& b20) ^^^ constant
    l10 := b10 ^^^ (~~~b20 &&& b30)
    l20 := b20 ^^^ (~~~b30 &&& b40)
    l30 := b30 ^^^ (~~~b40 &&& b00)
    l40 := b40 ^^^ (~~~b00 &&& b10)
    l01 := b01 ^^^ (~~~b11 &&& b21)
    l11 := b11 ^^^ (~~~b21 &&& b31)
    l21 := b21 ^^^ (~~~b31 &&& b41)
    l31 := b31 ^^^ (~~~b41 &&& b01)
    l41 := b41 ^^^ (~~~b01 &&& b11)
    l02 := b02 ^^^ (~~~b12 &&& b22)
    l12 := b12 ^^^ (~~~b22 &&& b32)
    l22 := b22 ^^^ (~~~b32 &&& b42)
    l32 := b32 ^^^ (~~~b42 &&& b02)
    l42 := b42 ^^^ (~~~b02 &&& b12)
    l03 := b03 ^^^ (~~~b13 &&& b23)
    l13 := b13 ^^^ (~~~b23 &&& b33)
    l23 := b23 ^^^ (~~~b33 &&& b43)
    l33 := b33 ^^^ (~~~b43 &&& b03)
    l43 := b43 ^^^ (~~~b03 &&& b13)
    l04 := b04 ^^^ (~~~b14 &&& b24)
    l14 := b14 ^^^ (~~~b24 &&& b34)
    l24 := b24 ^^^ (~~~b34 &&& b44)
    l34 := b34 ^^^ (~~~b44 &&& b04)
    l44 := b44 ^^^ (~~~b04 &&& b14) }

def roundConstants : List UInt64 :=
  [0x0000000000000001, 0x0000000000008082, 0x800000000000808a, 0x8000000080008000,
   0x000000000000808b, 0x0000000080000001, 0x8000000080008081, 0x8000000000008009,
   0x000000000000008a, 0x0000000000000088, 0x0000000080008009, 0x000000008000000a,
   0x000000008000808b, 0x800000000000008b, 0x8000000000008089, 0x8000000000008003,
   0x8000000000008002, 0x8000000000000080, 0x000000000000800a, 0x800000008000000a,
   0x8000000080008081, 0x8000000000008080, 0x0000000080000001, 0x8000000080008008]

/-- The permutation of the state. -/
def permute (s : State) : State := roundConstants.foldl round s

/-- The lane whose eight bytes start at `start`, least significant byte first. -/
def laneAt (block : Bytes) (start : Nat) : UInt64 :=
  let byte (i : Nat) : UInt64 := (block[start + i]?.getD 0).toUInt64
  byte 0 ||| byte 1 <<< 8 ||| byte 2 <<< 16 ||| byte 3 <<< 24 |||
    byte 4 <<< 32 ||| byte 5 <<< 40 ||| byte 6 <<< 48 ||| byte 7 <<< 56

/-- Mixes a block of 136 bytes into the state and permutes it. -/
def absorb (s : State) (block : Bytes) : State :=
  permute { s with
    l00 := s.l00 ^^^ laneAt block 0
    l10 := s.l10 ^^^ laneAt block 8
    l20 := s.l20 ^^^ laneAt block 16
    l30 := s.l30 ^^^ laneAt block 24
    l40 := s.l40 ^^^ laneAt block 32
    l01 := s.l01 ^^^ laneAt block 40
    l11 := s.l11 ^^^ laneAt block 48
    l21 := s.l21 ^^^ laneAt block 56
    l31 := s.l31 ^^^ laneAt block 64
    l41 := s.l41 ^^^ laneAt block 72
    l02 := s.l02 ^^^ laneAt block 80
    l12 := s.l12 ^^^ laneAt block 88
    l22 := s.l22 ^^^ laneAt block 96
    l32 := s.l32 ^^^ laneAt block 104
    l42 := s.l42 ^^^ laneAt block 112
    l03 := s.l03 ^^^ laneAt block 120
    l13 := s.l13 ^^^ laneAt block 128 }

/-- The number of bytes that each permutation absorbs. -/
def rate : Nat := 136

/-- The message with padding up to a multiple of the rate: `0x01`, zeros, and the
highest bit of the last byte. -/
def pad (message : Bytes) : Bytes :=
  let missing := rate - message.size % rate
  if missing = 1 then message ++ Bytes.ofList [0x81]
  else message ++ Bytes.ofList [0x01] ++ Bytes.zeros (missing - 2) ++ Bytes.ofList [0x80]

/-- The eight bytes of a lane, least significant first. -/
def laneBytes (lane : UInt64) : List UInt8 :=
  (List.range 8).map fun i => (lane >>> (8 * i).toUInt64).toUInt8

/-- The state after absorbing `count` blocks of `message` from `start` on. -/
def absorbBlocks (message : Bytes) : Nat → Nat → State → State
  | 0, _, s => s
  | count + 1, start, s =>
      absorbBlocks message count (start + rate) (absorb s (message.extract start (start + rate)))

/-- The 32-byte digest of a message. -/
def digest (message : Bytes) : Bytes :=
  let padded := pad message
  let s := absorbBlocks padded (padded.size / rate) 0 default
  Bytes.ofList (laneBytes s.l00 ++ laneBytes s.l10 ++ laneBytes s.l20 ++ laneBytes s.l30)

end ForkReplay.Keccak
