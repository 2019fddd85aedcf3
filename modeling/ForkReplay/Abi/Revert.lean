import ForkReplay.Chain.Address
import ForkReplay.Text.Utf8

/-!
# Revert data

The two standard errors of contracts, `Error(string)` and `Panic(uint256)`, their
encoded form, and the reading of any revert data as a message. Reading is lenient:
the string may lie anywhere in the data, and what surrounds it is ignored.
-/

namespace ForkReplay.Abi

/-- The four bytes that mark an encoded `Error(string)`. -/
def errorSelector : Bytes := Bytes.ofList [0x08, 0xc3, 0x79, 0xa0]

/-- The four bytes that mark an encoded `Panic(uint256)`. -/
def panicSelector : Bytes := Bytes.ofList [0x4e, 0x48, 0x7b, 0x71]

/-- A number as a word of 32 bytes. -/
def encodeNumber (value : Nat) : Bytes := Bytes.ofNat 32 value

def encodeError (reason : String) : Bytes :=
  let text := reason.toUTF8
  errorSelector ++ encodeNumber 32 ++ encodeNumber text.size ++ text ++
    Bytes.zeros (32 * Bytes.words text.size - text.size)

def encodePanic (code : Word) : Bytes := panicSelector ++ code.toBytes

/-- The arguments of data that starts with `selector`. -/
def arguments? (selector data : Bytes) : Option Bytes :=
  if data.extract 0 4 = selector then some (data.extract 4 data.size) else none

/-- The word whose 32 bytes start at `position`, which all have to be there. -/
def wordAt? (body : Bytes) (position : Nat) : Option Word :=
  if position + 32 ≤ body.size then
    some (Word.ofBytes (body.extract position (position + 32)))
  else none

/-- The bytes that an argument of variable length at the start of `body` stands for:
the offset leads to the length, and the length to the bytes after it. -/
def dynamicBytes? (body : Bytes) : Option Bytes := do
  let offset ← wordAt? body 0
  let length ← wordAt? body offset.toNat
  let start := offset.toNat + 32
  let stop := start + length.toNat
  if stop ≤ body.size then return body.extract start stop else none

def errorReason? (data : Bytes) : Option String := do
  let body ← arguments? errorSelector data
  let text ← dynamicBytes? body
  return Text.Utf8.decodeLossy (Bytes.octets text)

def panicCode? (data : Bytes) : Option Word := do
  let body ← arguments? panicSelector data
  wordAt? body 0

/-- The meaning of a panic code. -/
def panicKind? (code : Nat) : Option String :=
  match code with
  | 0x00 => some "generic/unspecified error"
  | 0x01 => some "assertion failed"
  | 0x11 => some "arithmetic underflow or overflow"
  | 0x12 => some "division or modulo by zero"
  | 0x21 => some "failed to convert value into enum type"
  | 0x22 => some "storage byte array incorrectly encoded"
  | 0x31 => some "called `.pop()` on an empty array"
  | 0x32 => some "array out-of-bounds access"
  | 0x41 => some "memory allocation error"
  | 0x51 => some "called an invalid internal function"
  | _ => none

def panicMessage (code : Word) : String :=
  match panicKind? code.toNat with
  | some kind => "Panic: " ++ kind
  | none => "Panic(" ++ Text.Hex.ofNat code.toNat ++ ")"

/-- What revert data says: the reason of an error, the meaning of a panic, or the
data itself. Empty data says nothing. -/
def revertMessage (data : Bytes) : String :=
  if data.size = 0 then ""
  else
    match errorReason? data with
    | some reason => reason
    | none =>
        match panicCode? data with
        | some code => panicMessage code
        | none => Text.Hex.ofBytes data

end ForkReplay.Abi
