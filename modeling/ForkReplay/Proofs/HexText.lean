import Mathlib.Data.List.Induction
import ForkReplay.Json.Bytes
import ForkReplay.Proofs.Utf8Text

/-!
# Hexadecimal text read back

A byte string is written in pairs of digits, a number in a fixed count of bytes. Reading
what was written gives the same again, for addresses and byte strings in JSON too.
-/

namespace ForkReplay

namespace Text.Hex

theorem digit?_digit : ∀ value < 16, digit? (digit value) = some value := by decide

theorem utf8Size_digit : ∀ value < 16, (digit value).utf8Size = 1 := by decide

/-- A text of characters of one byte each takes their codes as its bytes. -/
theorem octets_toUTF8_of_utf8Size {chars : List Char} (h : ∀ c ∈ chars, c.utf8Size = 1) :
    Bytes.octets (String.ofList chars).toUTF8 = chars.map fun c => c.val.toUInt8 := by
  have hencode : chars.flatMap String.utf8EncodeChar = chars.map fun c => c.val.toUInt8 := by
    induction chars with
    | nil => rfl
    | cons c rest ih =>
        rw [List.forall_mem_cons] at h
        rw [List.flatMap_cons, String.utf8EncodeChar_eq_singleton h.1, ih h.2]
        rfl
  rw [Utf8.octets_toUTF8, hencode]

theorem div_mod_lt (byte : UInt8) : byte.toNat / 16 < 16 ∧ byte.toNat % 16 < 16 := by
  have := byte.toNat_lt
  omega

theorem mem_digits {bytes : List UInt8} {c : Char} (h : c ∈ digits bytes) :
    ∃ value < 16, c = digit value := by
  obtain ⟨byte, -, hc⟩ := List.mem_flatMap.mp h
  obtain ⟨hhigh, hlow⟩ := div_mod_lt byte
  simp only [byteDigits, List.mem_cons, List.not_mem_nil, or_false] at hc
  rcases hc with rfl | rfl
  · exact ⟨_, hhigh, rfl⟩
  · exact ⟨_, hlow, rfl⟩

theorem utf8Size_of_mem_digits {bytes : List UInt8} {c : Char} (h : c ∈ digits bytes) :
    c.utf8Size = 1 := by
  obtain ⟨value, hvalue, rfl⟩ := mem_digits h
  exact utf8Size_digit value hvalue

theorem length_digits (bytes : List UInt8) : (digits bytes).length = 2 * bytes.length := by
  induction bytes with
  | nil => rfl
  | cons byte rest ih =>
      rw [digits, List.flatMap_cons, List.length_append, List.length_cons]
      change 2 + (digits rest).length = _
      omega

theorem bytes?_digits (bytes : List UInt8) : bytes? (digits bytes) = some bytes := by
  induction bytes with
  | nil => rfl
  | cons byte rest ih =>
      obtain ⟨hhigh, hlow⟩ := div_mod_lt byte
      have hbyte : UInt8.ofNat (byte.toNat / 16 * 16 + byte.toNat % 16) = byte := by
        rw [Nat.div_add_mod']
        exact UInt8.ofNat_toNat
      change (bytes? (digit _ :: digit _ :: digits rest)) = _
      rw [bytes?, digit?_digit _ hhigh, digit?_digit _ hlow, ih]
      exact congrArg (fun byte => some (byte :: rest)) hbyte

theorem firstInvalid?_digits (bytes : List UInt8) : firstInvalid? (digits bytes) = none := by
  have hvalid : ∀ value < 16,
      (digit? (Char.ofNat (digit value).val.toUInt8.toNat)).isNone = false := by
    decide
  rw [firstInvalid?, octets_toUTF8_of_utf8Size fun c hc => utf8Size_of_mem_digits hc,
    List.find?_eq_none]
  intro entry hentry
  obtain ⟨c, hc, hbyte⟩ := List.mem_map.mp (List.fst_mem_of_mem_zipIdx hentry)
  obtain ⟨value, hvalue, rfl⟩ := mem_digits hc
  rw [← hbyte, hvalid value hvalue]
  exact Bool.false_ne_true

theorem toList_ofBytes (bytes : Bytes) :
    (ofBytes bytes).toList = '0' :: 'x' :: digits bytes.octets := by
  simp only [ofBytes, String.toList_append, String.toList_ofList]
  rfl

/-- A written byte string is read back. -/
theorem decode_ofBytes (bytes : Bytes) : decode (ofBytes bytes).toList = .ok bytes := by
  have hsize : (String.ofList (digits bytes.octets)).utf8ByteSize = 2 * bytes.octets.length := by
    rw [← length_digits, ← List.length_map (fun c => c.val.toUInt8),
      ← octets_toUTF8_of_utf8Size fun c hc => utf8Size_of_mem_digits hc, Bytes.length_octets]
    rfl
  rw [decode, toList_ofBytes, stripLeader, if_neg (by omega), firstInvalid?_digits, bytes?_digits]
  simp only [Option.getD_some, Bytes.ofList_octets]

/-! ## Numbers -/

theorem number?_concat (digits : List Char) (c : Char) :
    number? (digits ++ [c]) =
      (number? digits).bind fun value => (digit? c).map (value * 16 + ·) := by
  rw [number?, List.foldlM_append]
  refine congrArg (Option.bind _) ?_
  funext value
  exact Option.bind_fun_some _

/-- A written number is read back. -/
theorem number?_toDigits (value : Nat) : number? (Nat.toDigits 16 value) = some value := by
  -- All digits but the last one spell a sixteenth of the number.
  induction value using Nat.strongRecOn with
  | ind value ih =>
    by_cases hsmall : value < 16
    · rw [Nat.toDigits_of_lt_base hsmall]
      change number? ([] ++ [digit value]) = _
      rw [number?_concat, digit?_digit value hsmall]
      exact congrArg some (Nat.zero_add value)
    · rw [Nat.toDigits_of_base_le (by decide) (Nat.le_of_not_lt hsmall), number?_concat,
        ih (value / 16) (by omega)]
      change (digit? (digit (value % 16))).map _ = _
      rw [digit?_digit (value % 16) (by omega)]
      exact congrArg some (Nat.div_add_mod' value 16)

end Text.Hex

namespace Bytes

theorem ofNat_succ (width value : Nat) :
    ofNat (width + 1) value = ofList ((ofNat width (value / 256)).octets ++ [value.toUInt8]) := by
  have hhigh : ∀ i ∈ List.range width,
      (value >>> (8 * (width + 1 - 1 - i))).toUInt8 =
        ((value / 256) >>> (8 * (width - 1 - i))).toUInt8 := by
    intro i hi
    have hlt := List.mem_range.mp hi
    have hplace : 8 * (width + 1 - 1 - i) = 8 + 8 * (width - 1 - i) := by omega
    rw [hplace, Nat.shiftRight_add, Nat.shiftRight_eq_div_pow value 8]
  rw [ofNat, ofNat, octets_ofList, List.range_succ, List.map_append, List.map_congr_left hhigh]
  simp

theorem toNat_ofList_concat (bytes : List UInt8) (byte : UInt8) :
    toNat (ofList (bytes ++ [byte])) = toNat (ofList bytes) * 256 + byte.toNat := by
  simp [toNat, ofList]

/-- Writing a number in bytes and reading it back cuts it to their width. -/
theorem toNat_ofNat (width value : Nat) :
    toNat (ofNat width value) = (BitVec.ofNat (8 * width) value).toNat := by
  rw [BitVec.toNat_ofNat]
  induction width generalizing value with
  | zero =>
      rw [Nat.mul_zero, Nat.pow_zero, Nat.mod_one]
      rfl
  | succ width ih =>
      have hlow : value.toUInt8.toNat = value % 256 := UInt8.toNat_ofNat'
      have hwidth : 8 * (width + 1) = 8 + 8 * width := by omega
      rw [ofNat_succ, toNat_ofList_concat, ofList_octets, ih, hlow, hwidth, Nat.pow_add,
        Nat.mod_mul]
      change value / 256 % _ * 256 + value % 256 = value % 256 + 256 * (value / 256 % _)
      rw [Nat.mul_comm, Nat.add_comm]

/-- A byte string is written back from its value. -/
theorem ofNat_toNat (bytes : List UInt8) :
    ofNat bytes.length (toNat (ofList bytes)) = ofList bytes := by
  induction bytes using List.reverseRecOn with
  | nil => rfl
  | append_singleton bytes byte ih =>
      have hlt := byte.toNat_lt
      have hhigh : (toNat (ofList bytes) * 256 + byte.toNat) / 256 = toNat (ofList bytes) := by
        omega
      have hlow : (toNat (ofList bytes) * 256 + byte.toNat).toUInt8 = byte := by
        rw [← UInt8.toNat_inj]
        exact UInt8.toNat_ofNat'.trans (by omega)
      rw [List.length_append, List.length_singleton, ofNat_succ, toNat_ofList_concat, hhigh, hlow,
        ih, octets_ofList]

/-- The value of a byte string fits eight bits for each byte. -/
theorem toNat_ofNat_toNat (bytes : List UInt8) :
    (BitVec.ofNat (8 * bytes.length) (toNat (ofList bytes))).toNat = toNat (ofList bytes) := by
  rw [← toNat_ofNat, ofNat_toNat]

theorem size_ofNat (width value : Nat) : (ofNat width value).size = width := by
  rw [← length_octets, ofNat, octets_ofList, List.length_map, List.length_range]

end Bytes

namespace Json

theorem bytes?_ofBytes (bytes : Bytes) :
    bytes? (.string (Text.Hex.ofBytes bytes)) = some bytes := by
  rw [bytes?, Text.Hex.decode_ofBytes]

theorem address?_text (address : Address) :
    address? (.string (Address.text address)) = some address := by
  have hvalue : Bytes.toNat address.toBytes = address.toNat := by
    rw [Address.toBytes, Bytes.toNat_ofNat, BitVec.toNat_ofNat]
    exact Nat.mod_eq_of_lt address.isLt
  rw [address?, fixedBytes?, Address.text, bytes?_ofBytes]
  change Option.map _
    (if address.toBytes.size = 20 then some (Bytes.toNat address.toBytes) else none) = _
  rw [if_pos (show address.toBytes.size = 20 from Bytes.size_ofNat 20 _), hvalue]
  exact congrArg some (BitVec.ofNat_toNat 160 address)

theorem uint64?_nat (value : UInt64) : uint64? (.nat value.toNat) = some value := by
  have hlt : value.toNat < UInt64.size := value.toNat_lt_size
  simp [uint64?, nat, hlt]

end Json
end ForkReplay
