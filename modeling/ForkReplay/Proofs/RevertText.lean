import ForkReplay.Abi.Revert
import ForkReplay.Proofs.HexText
import ForkReplay.Proofs.Utf8Text

/-!
# Revert data read back

The message of an encoded error is its reason, and the message of an encoded panic tells its
code, whatever bytes come after the encoding. No two codes have the same message.
-/

namespace ForkReplay

/-- What stands between two parts is found at the end of the first one. -/
theorem Bytes.extract_between {front : Bytes} {position : Nat} (hposition : front.size = position)
    (part rest : Bytes) :
    (front ++ (part ++ rest)).extract position (position + part.size) = part := by
  have hpart := @ByteArray.extract_append_size_add front (part ++ rest) 0 part.size
  rw [Nat.add_zero] at hpart
  rw [← hposition, hpart, ByteArray.extract_append_eq_left rfl]

theorem Word.ofBytes_ofNat (value : Nat) :
    Word.ofBytes (Bytes.ofNat 32 value) = Word.ofNat value := by
  rw [Word.ofBytes, Bytes.toNat_ofNat]
  exact BitVec.ofNat_toNat 256 _

namespace Abi

/-! ## Parts of encoded data -/

theorem arguments?_append {selector : Bytes} (hsize : selector.size = 4) (body : Bytes) :
    arguments? selector (selector ++ body) = some body := by
  rw [arguments?, if_pos (ByteArray.extract_append_eq_left hsize.symm)]
  refine congrArg some (ByteArray.extract_append_eq_right hsize.symm ?_)
  exact ByteArray.size_append

theorem arguments?_append_of_ne {selector other : Bytes} (hsize : other.size = 4)
    (hne : other ≠ selector) (body : Bytes) : arguments? selector (other ++ body) = none := by
  rw [arguments?, ByteArray.extract_append_eq_left hsize.symm, if_neg hne]

theorem size_encodeNumber (value : Nat) : (encodeNumber value).size = 32 :=
  Bytes.size_ofNat 32 value

/-- A number is read from where it was written. -/
theorem wordAt?_encodeNumber {front : Bytes} {position : Nat} (hposition : front.size = position)
    (value : Nat) (rest : Bytes) :
    wordAt? (front ++ (encodeNumber value ++ rest)) position = some (Word.ofNat value) := by
  have hword := Bytes.extract_between hposition (encodeNumber value) rest
  rw [size_encodeNumber] at hword
  rw [wordAt?, if_pos, hword]
  · exact congrArg some (Word.ofBytes_ofNat value)
  · simp only [ByteArray.size_append, size_encodeNumber]
    omega

theorem wordAt?_zero_encodeNumber (value : Nat) (rest : Bytes) :
    wordAt? (encodeNumber value ++ rest) 0 = some (Word.ofNat value) := by
  have hword := wordAt?_encodeNumber (ByteArray.size_empty) value rest
  rwa [ByteArray.empty_append] at hword

/-- Bytes are read from where their offset and length lead to. -/
theorem dynamicBytes?_encoded {text : Bytes} (hsize : text.size < Word.size) (rest : Bytes) :
    dynamicBytes? (encodeNumber 32 ++ (encodeNumber text.size ++ (text ++ rest))) = some text := by
  have hoffset : (Word.ofNat 32).toNat = 32 := rfl
  have hlength : (Word.ofNat text.size).toNat = text.size := by
    rw [Word.ofNat, BitVec.toNat_ofNat]
    exact Nat.mod_eq_of_lt hsize
  have hfront : (encodeNumber 32 ++ encodeNumber text.size).size = 64 := by
    rw [ByteArray.size_append, size_encodeNumber, size_encodeNumber]
  have htext := Bytes.extract_between hfront text rest
  rw [ByteArray.append_assoc] at htext
  rw [dynamicBytes?, wordAt?_zero_encodeNumber, Option.bind_eq_bind, Option.bind_some, hoffset,
    wordAt?_encodeNumber (size_encodeNumber 32), Option.bind_some, hlength]
  dsimp only
  rw [if_pos, htext]
  · rfl
  · simp only [ByteArray.size_append, size_encodeNumber]
    omega

/-! ## Errors and panics -/

/-- The reason of an error is read back, whatever comes after its encoding. -/
theorem errorReason?_encodeError {reason : String} (hsize : reason.toUTF8.size < Word.size)
    (trailing : Bytes) : errorReason? (encodeError reason ++ trailing) = some reason := by
  simp only [encodeError, ByteArray.append_assoc]
  rw [errorReason?, arguments?_append (by decide), Option.bind_eq_bind, Option.bind_some,
    dynamicBytes?_encoded hsize, Option.bind_some, Text.Utf8.decodeLossy_toUTF8]
  rfl

theorem errorReason?_encodePanic (code : Word) (trailing : Bytes) :
    errorReason? (encodePanic code ++ trailing) = none := by
  rw [encodePanic, ByteArray.append_assoc, errorReason?,
    arguments?_append_of_ne (by decide) (by decide)]
  rfl

/-- The code of a panic is read back, whatever comes after its encoding. -/
theorem panicCode?_encodePanic (code : Word) (trailing : Bytes) :
    panicCode? (encodePanic code ++ trailing) = some code := by
  have hcode : Word.ofNat code.toNat = code := BitVec.ofNat_toNat 256 code
  rw [encodePanic, ByteArray.append_assoc, panicCode?, arguments?_append (by decide),
    Option.bind_eq_bind, Option.bind_some]
  exact (wordAt?_zero_encodeNumber code.toNat trailing).trans (congrArg some hcode)

theorem revertMessage_encodeError {reason : String} (hsize : reason.toUTF8.size < Word.size)
    (trailing : Bytes) : revertMessage (encodeError reason ++ trailing) = reason := by
  have hselector : errorSelector.size = 4 := by decide
  have hnonempty : ¬ (encodeError reason ++ trailing).size = 0 := by
    simp only [encodeError, ByteArray.size_append]
    omega
  rw [revertMessage, if_neg hnonempty, errorReason?_encodeError hsize]

theorem revertMessage_encodePanic (code : Word) (trailing : Bytes) :
    revertMessage (encodePanic code ++ trailing) = panicMessage code := by
  have hselector : panicSelector.size = 4 := by decide
  have hnonempty : ¬ (encodePanic code ++ trailing).size = 0 := by
    simp only [encodePanic, ByteArray.size_append]
    omega
  rw [revertMessage, if_neg hnonempty, errorReason?_encodePanic, panicCode?_encodePanic]

/-! ## Messages of panics -/

/-- The codes whose meaning is known. -/
def panicCodes : List Nat := [0x00, 0x01, 0x11, 0x12, 0x21, 0x22, 0x31, 0x32, 0x41, 0x51]

theorem panicKind?_isSome {code : Nat} : (panicKind? code).isSome ↔ code ∈ panicCodes := by
  unfold panicKind?
  split
  all_goals simp_all [panicCodes]

theorem eq_of_panicKind? {code other : Nat} {kind : String} (h : panicKind? code = some kind)
    (hother : panicKind? other = some kind) : code = other := by
  have hmem := panicKind?_isSome.mp (Option.isSome_of_eq_some h)
  have hmem' := panicKind?_isSome.mp (Option.isSome_of_eq_some hother)
  have hdistinct : ∀ code ∈ panicCodes, ∀ other ∈ panicCodes,
      panicKind? code = panicKind? other → code = other := by decide
  exact hdistinct code hmem other hmem' (h.trans hother.symm)

theorem panicMessage_of_known {code : Word} {kind : String}
    (h : panicKind? code.toNat = some kind) : panicMessage code = "Panic: " ++ kind := by
  rw [panicMessage, h]

theorem panicMessage_of_unknown {code : Word} (h : panicKind? code.toNat = none) :
    panicMessage code = "Panic(" ++ Text.Hex.ofNat code.toNat ++ ")" := by
  rw [panicMessage, h]

theorem known_ne_unknown (kind number : String) :
    "Panic: " ++ kind ≠ "Panic(" ++ number ++ ")" := by
  intro h
  have hsplit : "Panic: " = "Panic:" ++ " " := by decide
  have hletters := congrArg String.toList h
  rw [hsplit] at hletters
  simp only [String.append_assoc, String.toList_append] at hletters
  exact absurd (List.append_inj_left hletters (by decide)) (by decide)

theorem hexNumber_inj {value other : Nat} (h : Text.Hex.ofNat value = Text.Hex.ofNat other) :
    value = other := by
  have hdigits := String.ofList_inj.mp ((String.append_right_inj _).mp h)
  have hvalue := Text.Hex.number?_toDigits value
  rw [hdigits, Text.Hex.number?_toDigits] at hvalue
  exact (Option.some.inj hvalue).symm

/-- The message of a panic tells its code. -/
theorem panicMessage_inj {code other : Word} (h : panicMessage code = panicMessage other) :
    code = other := by
  apply BitVec.eq_of_toNat_eq
  cases hkind : panicKind? code.toNat with
  | some kind =>
      cases hkind' : panicKind? other.toNat with
      | some kind' =>
          rw [panicMessage_of_known hkind, panicMessage_of_known hkind'] at h
          rw [← (String.append_right_inj _).mp h] at hkind'
          exact eq_of_panicKind? hkind hkind'
      | none =>
          rw [panicMessage_of_known hkind, panicMessage_of_unknown hkind'] at h
          exact absurd h (known_ne_unknown _ _)
  | none =>
      cases hkind' : panicKind? other.toNat with
      | some kind' =>
          rw [panicMessage_of_unknown hkind, panicMessage_of_known hkind'] at h
          exact absurd h.symm (known_ne_unknown _ _)
      | none =>
          rw [panicMessage_of_unknown hkind, panicMessage_of_unknown hkind'] at h
          exact hexNumber_inj ((String.append_right_inj _).mp ((String.append_left_inj _).mp h))

/-- What stands behind an encoded error or panic does not matter. An error says its reason, and
a panic its code: by its meaning if that is known, else in lower-case digits, so that the
messages of different codes differ. The length of the reason has to fit the word that tells it. -/
theorem revertMessage_of_standard_errors :
    (∀ (reason : String) (trailing : Bytes), reason.toUTF8.size < Word.size →
      revertMessage (encodeError reason ++ trailing) = reason) ∧
    ∃ message : Word → String,
      (∀ code trailing, revertMessage (encodePanic code ++ trailing) = message code) ∧
      (∀ code, code.toNat ∈ panicCodes → ∃ kind, message code = "Panic: " ++ kind) ∧
      (∀ code, code.toNat ∉ panicCodes →
        message code = "Panic(0x" ++ String.ofList (Nat.toDigits 16 code.toNat) ++ ")") ∧
      ∀ code other, message code = message other → code = other := by
  refine ⟨fun reason trailing hsize => revertMessage_encodeError hsize trailing, panicMessage,
    revertMessage_encodePanic, ?_, ?_, fun _ _ => panicMessage_inj⟩
  · intro code hknown
    obtain ⟨kind, hkind⟩ := Option.isSome_iff_exists.mp (panicKind?_isSome.mpr hknown)
    exact ⟨kind, panicMessage_of_known hkind⟩
  · intro code hunknown
    have hkind : panicKind? code.toNat = none := by
      rw [← Option.not_isSome_iff_eq_none, panicKind?_isSome]
      exact hunknown
    rw [panicMessage_of_unknown hkind, Text.Hex.ofNat, ← String.append_assoc]
    rfl

/-- An error with a character of three bytes, and junk behind it. -/
theorem revertMessage_of_error_and_junk :
    "only €5".toUTF8.size < Word.size ∧
      revertMessage (encodeError "only €5" ++ Bytes.ofList [1, 2, 3]) = "only €5" := by
  have hsize : "only €5".toUTF8.size < Word.size := by decide +kernel
  exact ⟨hsize, revertMessage_of_standard_errors.1 "only €5" _ hsize⟩

end Abi

end ForkReplay
