import ForkReplay.Bytes

/-!
# Hexadecimal text

Digits, numbers and byte strings in base sixteen. Everything is written in lower
case; both cases are read. `decode` reads a text of digit pairs with an optional
leader `0x` or `0X` and says which byte of the text is wrong.
-/

namespace ForkReplay.Text.Hex

/-- The value of an ASCII digit of base sixteen. -/
def digit? (c : Char) : Option Nat :=
  if '0' ≤ c ∧ c ≤ '9' then some (c.toNat - '0'.toNat)
  else if 'a' ≤ c ∧ c ≤ 'f' then some (c.toNat - 'a'.toNat + 10)
  else if 'A' ≤ c ∧ c ≤ 'F' then some (c.toNat - 'A'.toNat + 10)
  else none

/-- The lower-case digit of a value below sixteen. -/
def digit (value : Nat) : Char := Nat.digitChar value

/-- The number that the digits spell, most significant first. -/
def number? (digits : List Char) : Option Nat :=
  digits.foldlM (fun value c => (digit? c).map (value * 16 + ·)) 0

/-- A number with the leader `0x` and no leading zeros. -/
def ofNat (value : Nat) : String := "0x" ++ String.ofList (Nat.toDigits 16 value)

/-- The two digits of a byte. -/
def byteDigits (byte : UInt8) : List Char :=
  [digit (byte.toNat / 16), digit (byte.toNat % 16)]

/-- Two digits for each byte. -/
def digits (bytes : List UInt8) : List Char := bytes.flatMap byteDigits

/-- A byte string with the leader `0x`; an empty one is the leader alone. -/
def ofBytes (bytes : Bytes) : String := "0x" ++ String.ofList (digits bytes.octets)

/-- The characters without one leader `0x` or `0X`. -/
def stripLeader : List Char → List Char
  | '0' :: 'x' :: rest => rest
  | '0' :: 'X' :: rest => rest
  | chars => chars

/-- The bytes that pairs of digits spell. -/
def bytes? : List Char → Option (List UInt8)
  | [] => some []
  | [_] => none
  | high :: low :: rest => do
      let h ← digit? high
      let l ← digit? low
      let tail ← bytes? rest
      return UInt8.ofNat (h * 16 + l) :: tail

/-- Why a text is not a string of digit pairs. -/
inductive DecodeError where
  /-- The number of digits is odd. -/
  | oddLength
  /-- The byte of the text at `position` is no digit. -/
  | invalidByte (byte : UInt8) (position : Nat)
deriving DecidableEq, Repr

/-- The first byte of the text that is no digit, with its position. -/
def firstInvalid? (chars : List Char) : Option (UInt8 × Nat) :=
  let text := Bytes.octets (String.ofList chars).toUTF8
  (text.zipIdx).find? fun entry => (digit? (Char.ofNat entry.1.toNat)).isNone

/-- The bytes of a text of digit pairs after an optional leader. -/
def decode (chars : List Char) : Except DecodeError Bytes :=
  let body := stripLeader chars
  if (String.ofList body).utf8ByteSize % 2 = 1 then .error .oddLength
  else
    match firstInvalid? body with
    | some (byte, position) => .error (.invalidByte byte position)
    | none => .ok (Bytes.ofList ((bytes? body).getD []))

/-- Reads exactly `width` bytes of digits after an optional leader. -/
def fixed? (width : Nat) (chars : List Char) : Option Nat :=
  let body := stripLeader chars
  if body.length = 2 * width then number? body else none

end ForkReplay.Text.Hex
