import ForkReplay.Chain.Address

/-!
# Signatures

A message is signed by its digest on the curve `y² = x³ + 7` over a prime field. The key
that made a signature can be recovered from both, and a digest of the key names the account
of the signer.
-/

namespace ForkReplay

namespace Curve

/-- The size of the field. -/
def fieldSize : Nat := 0xfffffffffffffffffffffffffffffffffffffffffffffffffffffffefffffc2f

/-- The number of points. Both this and the size of the field are primes. -/
def order : Nat := 0xfffffffffffffffffffffffffffffffebaaedce6af48a03bbfd25e8cd0364141

/-- `power modulus bits base exponent` is `base ^ exponent` modulo `modulus` for exponents of
at most `bits` bits, by repeated squaring. -/
def power (modulus : Nat) : Nat → Nat → Nat → Nat
  | 0, _, _ => 1
  | bits + 1, base, exponent =>
      let rest := power modulus bits (base * base % modulus) (exponent / 2)
      if exponent % 2 = 1 then base * rest % modulus else rest

/-- The inverse modulo a prime of 256 bits. -/
def inverse (prime value : Nat) : Nat := power prime 256 value (prime - 2)

/-- The field element whose sum with `value` is zero. -/
def negate (value : Nat) : Nat := (fieldSize - value) % fieldSize

/-- A point with coordinates below the size of the field, or the one at infinity. -/
inductive Point where
  | infinity
  | affine (x y : Nat)
deriving DecidableEq

namespace Point

/-- The third point on the line of the given slope through two points, mirrored. -/
def along (slope x x' y : Nat) : Point :=
  let third := (slope * slope + negate x + negate x') % fieldSize
  .affine third ((slope * (x + negate third) + negate y) % fieldSize)

/-- The sum of two points. The line through a point and itself is the tangent. -/
def add : Point → Point → Point
  | .infinity, q => q
  | p, .infinity => p
  | .affine x y, .affine x' y' =>
      if x ≠ x' then
        along ((y' + negate y) * inverse fieldSize (x' + negate x) % fieldSize) x x' y
      else if (y + y') % fieldSize = 0 then .infinity
      else along (3 * x * x * inverse fieldSize (2 * y) % fieldSize) x x y

/-- `times bits point count` is the sum of `count` times the point, for counts of at most
`bits` bits. -/
def times : Nat → Point → Nat → Point
  | 0, _, _ => .infinity
  | bits + 1, point, count =>
      let rest := times bits (point.add point) (count / 2)
      if count % 2 = 1 then point.add rest else rest

/-- The point that generates all others. -/
def generator : Point :=
  .affine 0x79be667ef9dcbbac55a06295ce870b07029bfcdb2dce28d959f2815b16f81798
    0x483ada7726a3c4655da4fbfc0e1108a8fd17b448a68554199c47d08ffb10d4b8

/-- The point at `x` whose other coordinate has the given parity. -/
def at? (x : Nat) (isOdd : Bool) : Option Point :=
  let square := (x * x * x + 7) % fieldSize
  let root := power fieldSize 256 square ((fieldSize + 1) / 4)
  if root * root % fieldSize ≠ square then none
  else some (.affine x (if (root % 2 = 1) = isOdd then root else negate root))

end Point

end Curve

/-- A signature: a coordinate of a point, the proof that the signer knows the key, and the
parity of the point's other coordinate. -/
structure Signature where
  r : Word
  s : Word
  parity : Nat
deriving DecidableEq

namespace Signature

open Curve

/-- Both numbers are in range. Of the two proofs that belong to a point and its mirror image,
the smaller one counts. -/
def IsCanonical (signature : Signature) : Prop :=
  signature.parity ≤ 1 ∧ 0 < signature.r.toNat ∧ signature.r.toNat < order ∧
    0 < signature.s.toNat ∧ signature.s.toNat ≤ order / 2

instance (signature : Signature) : Decidable signature.IsCanonical :=
  inferInstanceAs (Decidable (_ ∧ _))

/-- The key that has signed the digest. -/
def key? (signature : Signature) (digest : Hash) : Option Point :=
  if signature.IsCanonical then do
    let point ← Point.at? signature.r.toNat (signature.parity = 1)
    let quotient := inverse order signature.r.toNat
    let fromDigest := (order - digest.toNat % order) * quotient % order
    let fromProof := signature.s.toNat * quotient % order
    return (Point.generator.times 256 fromDigest).add (point.times 256 fromProof)
  else none

/-- The account that has signed the digest, none if the signature cannot be by anyone. -/
def signer? (signature : Signature) (digest : Hash) : Option Address :=
  match signature.key? digest with
  | some (.affine x y) =>
      some (Address.ofWord (keccak256 (Bytes.ofNat 32 x ++ Bytes.ofNat 32 y)))
  | _ => none

end Signature

end ForkReplay
