import ForkReplay.Command.HexArgument
import ForkReplay.Proofs.HexSpelling

/-!
# Byte strings that are refused

A byte string of the command line is refused for its length, which is told in bytes of UTF-8,
or for the first of its bytes that is no digit, which is told with its place. The decoder
behind it has an error of its own for odd lengths. It strips two bytes or none, so a length that
was even when it was checked is even for the decoder as well.
-/

namespace ForkReplay

namespace Text

/-- The bytes of UTF-8 of some characters. -/
def utf8Of (chars : List Char) : List UInt8 := Bytes.octets (String.ofList chars).toUTF8

theorem length_utf8Of (chars : List Char) :
    (utf8Of chars).length = (String.ofList chars).utf8ByteSize :=
  Bytes.length_octets _

theorem length_utf8Of_append (chars later : List Char) :
    (utf8Of (chars ++ later)).length = (utf8Of chars).length + (utf8Of later).length := by
  simp only [length_utf8Of, String.ofList_append, String.utf8ByteSize_append]

namespace Hex

/-- The ASCII code of a digit of base sixteen. -/
def IsDigitCode (byte : UInt8) : Prop :=
  0x30 ≤ byte ∧ byte ≤ 0x39 ∨ 0x41 ≤ byte ∧ byte ≤ 0x46 ∨ 0x61 ≤ byte ∧ byte ≤ 0x66

instance (byte : UInt8) : Decidable (IsDigitCode byte) :=
  inferInstanceAs (Decidable (_ ∨ _ ∨ _))

/-- The byte stands at the position, and is the first one that is not the code of a digit. -/
structure FirstOther (bytes : List UInt8) (byte : UInt8) (position : Nat) : Prop where
  getElem? : bytes[position]? = some byte
  isOther : ¬ IsDigitCode byte
  digits_before : ∀ earlier ∈ bytes.take position, IsDigitCode earlier

/-- What is decided of every byte. -/
theorem isNone_digit?_ofNat : ∀ value < 256,
    (digit? (Char.ofNat value)).isNone = !decide (IsDigitCode (UInt8.ofNat value)) := by
  decide +kernel

theorem isNone_digit?_byte (byte : UInt8) :
    (digit? (Char.ofNat byte.toNat)).isNone = !decide (IsDigitCode byte) := by
  rw [isNone_digit?_ofNat byte.toNat byte.toNat_lt, UInt8.ofNat_toNat]

theorem firstOther_iff_find? {bytes : List UInt8} {byte : UInt8} {position : Nat} :
    (bytes.zipIdx.find? fun entry => !decide (IsDigitCode entry.1)) = some (byte, position) ↔
      FirstOther bytes byte position := by
  rw [List.find?_eq_some_iff_getElem]
  constructor
  · rintro ⟨hother, place, hplace, hentry, hbefore⟩
    rw [List.getElem_zipIdx, Prod.mk.injEq, Nat.zero_add] at hentry
    obtain ⟨hbyte, rfl⟩ := hentry
    refine ⟨?_, by simpa using hother, ?_⟩
    · rw [← hbyte]
      exact List.getElem?_eq_getElem _
    · intro earlier hmem
      obtain ⟨index, hindex, rfl⟩ := List.mem_take_iff_getElem.mp hmem
      simpa using hbefore index (by omega)
  · rintro ⟨hbyte, hother, hbefore⟩
    obtain ⟨hlength, hbyte⟩ := List.getElem?_eq_some_iff.mp hbyte
    refine ⟨by simpa using hother, position, by simpa using hlength, ?_, ?_⟩
    · rw [List.getElem_zipIdx, Nat.zero_add, hbyte]
    · intro index hindex
      have hmem : bytes[index] ∈ bytes.take position :=
        List.mem_take_iff_getElem.mpr ⟨index, by omega, rfl⟩
      simpa using hbefore _ hmem

/-- The decoder names the first byte that is no digit. -/
theorem firstInvalid?_eq_some_iff {chars : List Char} {byte : UInt8} {position : Nat} :
    firstInvalid? chars = some (byte, position) ↔ FirstOther (utf8Of chars) byte position := by
  rw [firstInvalid?]
  simp only [isNone_digit?_byte]
  exact firstOther_iff_find?

/-- A leader has two bytes. -/
theorem length_utf8Of_stripLeader (chars : List Char) :
    (utf8Of (stripLeader chars)).length % 2 = (utf8Of chars).length % 2 := by
  rcases eq_stripLeader_or chars with hsame | ⟨leader, hleader, hchars⟩
  · rw [hsame]
  · have hleader : (utf8Of leader).length = 2 := by
      rcases hleader with rfl | rfl
      · rfl
      · rfl
    rw [congrArg utf8Of hchars, length_utf8Of_append, hleader, Nat.add_mod_left]

/-- Of an even number of bytes, the decoder refuses the first that is no digit and nothing else. -/
theorem decode_eq_error_iff {chars : List Char} {error : DecodeError}
    (heven : (utf8Of chars).length % 2 = 0) :
    decode chars = .error error ↔ ∃ byte position, error = .invalidByte byte position ∧
      FirstOther (utf8Of (stripLeader chars)) byte position := by
  rw [← length_utf8Of_stripLeader] at heven
  rw [decode, ← length_utf8Of, if_neg (by omega)]
  simp only [← firstInvalid?_eq_some_iff]
  cases firstInvalid? (stripLeader chars) with
  | none => simp
  | some entry =>
      simp only [Except.error.injEq, Option.some.injEq]
      constructor
      · rintro rfl
        exact ⟨_, _, rfl, rfl⟩
      · rintro ⟨byte, position, rfl, rfl⟩
        rfl

end Hex

end Text

namespace Command

open Text Text.Hex

/-- What a byte string is made of: the text without the blanks around it and without a leader. -/
def digitsOf (text : String) : List Char := stripLeader (trimChars text.toList)

/-- What is said of a byte string with that many bytes. -/
def lengthText (length : Nat) : String := s!"Invalid hex string length: {length} (must be even)"

theorem decodeHex_of_odd {text : String} (h : (utf8Of (digitsOf text)).length % 2 = 1) :
    decodeHex text = .error (.invalidInput (lengthText (utf8Of (digitsOf text)).length)) := by
  rw [length_utf8Of] at h ⊢
  exact if_pos h

theorem decodeHex_of_even {text : String} (h : (utf8Of (digitsOf text)).length % 2 = 0) :
    decodeHex text = (decode (digitsOf text)).mapError CommandError.invalidHex := by
  have hnot : ¬ (utf8Of (digitsOf text)).length % 2 = 1 := by omega
  rw [length_utf8Of] at hnot
  exact if_neg hnot

/-- The error that tells what is wrong with a byte string: how many bytes it has if their number
is odd, and otherwise the first byte that is no digit, counted after one more leader. -/
inductive Refused (text : String) : CommandError → Prop where
  | oddLength (hodd : (utf8Of (digitsOf text)).length % 2 = 1) :
      Refused text (.invalidInput (lengthText (utf8Of (digitsOf text)).length))
  | wrongByte {byte : UInt8} {position : Nat} (heven : (utf8Of (digitsOf text)).length % 2 = 0)
      (hfirst : FirstOther (utf8Of (stripLeader (digitsOf text))) byte position) :
      Refused text (.invalidHex (.invalidByte byte position))

theorem decodeHex_eq_error_iff {text : String} {error : CommandError} :
    decodeHex text = .error error ↔ Refused text error := by
  rcases Nat.mod_two_eq_zero_or_one (utf8Of (digitsOf text)).length with heven | hodd
  · rw [decodeHex_of_even heven]
    constructor
    · intro herror
      cases hdecode : decode (digitsOf text) with
      | ok bytes =>
          rw [hdecode] at herror
          cases herror
      | error cause =>
          rw [hdecode] at herror
          cases herror
          obtain ⟨byte, position, rfl, hfirst⟩ := (decode_eq_error_iff heven).mp hdecode
          exact .wrongByte heven hfirst
    · intro hrefused
      cases hrefused with
      | oddLength hodd => omega
      | wrongByte _ hfirst =>
          rw [(decode_eq_error_iff heven).mpr ⟨_, _, rfl, hfirst⟩]
          rfl
  · rw [decodeHex_of_odd hodd]
    constructor
    · intro herror
      cases herror
      exact .oddLength hodd
    · intro hrefused
      cases hrefused with
      | oddLength _ => rfl
      | wrongByte heven _ => omega

/-- A byte string is refused with an error that tells the truth about it, and exactly if there is
something to tell: the number of its bytes if that is odd, and if not, the first byte that is no
digit. The error is never that of the decoder for odd lengths. -/
theorem decodeHex_refuses_truthfully :
    (∀ text error, decodeHex text = .error error ↔ Refused text error) ∧
      (∀ text, (∃ detail, decodeHex text = .error (.invalidInput detail)) ↔
        (utf8Of (digitsOf text)).length % 2 = 1) ∧
      ∀ text, decodeHex text ≠ .error (.invalidHex .oddLength) := by
  refine ⟨fun text error => decodeHex_eq_error_iff, ?_, ?_⟩
  · intro text
    constructor
    · rintro ⟨detail, herror⟩
      cases decodeHex_eq_error_iff.mp herror with
      | oddLength hodd => exact hodd
    · intro hodd
      exact ⟨_, decodeHex_of_odd hodd⟩
  · intro text herror
    cases decodeHex_eq_error_iff.mp herror

/-- Two leaders are stripped, and the character beyond ASCII is told by its first byte. -/
example : decodeHex " 0x0X12é" = .error (.invalidHex (.invalidByte 0xc3 2)) := by
  decide +kernel

end Command

end ForkReplay
