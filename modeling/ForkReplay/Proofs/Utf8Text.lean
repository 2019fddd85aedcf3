import ForkReplay.Bytes
import ForkReplay.Text.Utf8

/-!
# UTF-8 text read back

The lenient reading of the bytes of a text gives the text: each character is read from the
bytes that encode it, whatever comes after them, and no replacement takes its place.
-/

namespace ForkReplay.Text.Utf8

theorem isContinuation_eq_true {byte : UInt8} :
    isContinuation byte = true ↔ 0x80 ≤ byte.toNat ∧ byte.toNat ≤ 0xbf := by
  rw [isContinuation, Bool.and_eq_true, decide_eq_true_iff, decide_eq_true_iff,
    UInt8.le_iff_toNat_le, UInt8.le_iff_toNat_le]
  exact Iff.rfl

/-- A second byte continues the character, within narrower bounds after four leads. -/
theorem allowsSecond_of_bounds {lead second : UInt8}
    (hcontinues : 0x80 ≤ second.toNat ∧ second.toNat ≤ 0xbf)
    (hoverlong : lead.toNat = 0xe0 → 0xa0 ≤ second.toNat)
    (hsurrogate : lead.toNat = 0xed → second.toNat ≤ 0x9f)
    (hoverlong' : lead.toNat = 0xf0 → 0x90 ≤ second.toNat)
    (hlast : lead.toNat = 0xf4 → second.toNat ≤ 0x8f) : allowsSecond lead second = true := by
  have hbounds {low high : UInt8} (hlow : low.toNat ≤ second.toNat)
      (hhigh : second.toNat ≤ high.toNat) :
      (decide (low ≤ second) && decide (second ≤ high)) = true := by
    rw [Bool.and_eq_true, decide_eq_true_iff, decide_eq_true_iff, UInt8.le_iff_toNat_le,
      UInt8.le_iff_toNat_le]
    exact ⟨hlow, hhigh⟩
  unfold allowsSecond
  simp only [beq_iff_eq, ← UInt8.toNat_inj]
  split
  next h => exact hbounds (hoverlong h) hcontinues.2
  next =>
    split
    next h => exact hbounds hcontinues.1 (hsurrogate h)
    next =>
      split
      next h => exact hbounds (hoverlong' h) hcontinues.2
      next =>
        split
        next h => exact hbounds hcontinues.1 (hlast h)
        next => exact isContinuation_eq_true.mpr hcontinues

/-! ## One character -/

section DecodeChar

variable {lead second third fourth : UInt8}

theorem decodeChar_of_one (hlead : lead.toNat < 0x80) (rest : List UInt8) :
    decodeChar lead rest = (Char.ofNat lead.toNat, 1) :=
  if_pos (UInt8.lt_iff_toNat_lt.mpr hlead)

/-- A lead byte of a longer character is followed by a second one. -/
theorem decodeChar_of_long (hlead : 0xc2 ≤ lead.toNat ∧ lead.toNat ≤ 0xf4)
    (hsecond : allowsSecond lead second = true) (rest : List UInt8) :
    decodeChar lead (second :: rest) =
      if lead < 0xe0 then (Char.ofNat (lead.toNat % 32 * 64 + payload second), 2)
      else
        match rest with
        | [] => (replacement, 2)
        | third :: rest =>
            if !isContinuation third then (replacement, 2)
            else if lead < 0xf0 then
              (Char.ofNat ((lead.toNat % 16 * 64 + payload second) * 64 + payload third), 3)
            else
              match rest with
              | [] => (replacement, 3)
              | fourth :: _ =>
                  if !isContinuation fourth then (replacement, 3)
                  else
                    (Char.ofNat (((lead.toNat % 8 * 64 + payload second) * 64 +
                      payload third) * 64 + payload fourth), 4) := by
  have hshort : ¬ lead < 0x80 := by
    rw [UInt8.lt_iff_toNat_lt]
    exact Nat.not_lt_of_le (Nat.le_trans (by decide) hlead.1)
  have hinvalid : ¬ (decide (lead < 0xc2) || decide (0xf4 < lead)) = true := by
    simp only [Bool.or_eq_true, decide_eq_true_iff, UInt8.lt_iff_toNat_lt]
    rintro (hlow | hhigh)
    · exact Nat.not_lt_of_le hlead.1 hlow
    · exact Nat.not_lt_of_le hlead.2 hhigh
  unfold decodeChar
  rw [if_neg hshort, if_neg hinvalid]
  dsimp only
  rw [hsecond]
  rfl

theorem decodeChar_of_two (hlead : 0xc2 ≤ lead.toNat ∧ lead.toNat < 0xe0)
    (hsecond : allowsSecond lead second = true) (rest : List UInt8) :
    decodeChar lead (second :: rest) =
      (Char.ofNat (lead.toNat % 32 * 64 + payload second), 2) := by
  rw [decodeChar_of_long ⟨hlead.1, by omega⟩ hsecond,
    if_pos (UInt8.lt_iff_toNat_lt.mpr hlead.2)]

theorem decodeChar_of_three (hlead : 0xe0 ≤ lead.toNat ∧ lead.toNat < 0xf0)
    (hsecond : allowsSecond lead second = true) (hthird : isContinuation third = true)
    (rest : List UInt8) :
    decodeChar lead (second :: third :: rest) =
      (Char.ofNat ((lead.toNat % 16 * 64 + payload second) * 64 + payload third), 3) := by
  have hlong : ¬ lead < 0xe0 := by
    rw [UInt8.lt_iff_toNat_lt]
    exact Nat.not_lt_of_le hlead.1
  rw [decodeChar_of_long ⟨by omega, by omega⟩ hsecond, if_neg hlong]
  dsimp only
  rw [hthird, if_pos (UInt8.lt_iff_toNat_lt.mpr hlead.2)]
  rfl

theorem decodeChar_of_four (hlead : 0xf0 ≤ lead.toNat ∧ lead.toNat ≤ 0xf4)
    (hsecond : allowsSecond lead second = true) (hthird : isContinuation third = true)
    (hfourth : isContinuation fourth = true) (rest : List UInt8) :
    decodeChar lead (second :: third :: fourth :: rest) =
      (Char.ofNat (((lead.toNat % 8 * 64 + payload second) * 64 + payload third) * 64 +
        payload fourth), 4) := by
  have hlong : ¬ lead < 0xe0 := by
    rw [UInt8.lt_iff_toNat_lt]
    exact Nat.not_lt_of_le (Nat.le_trans (by decide) hlead.1)
  have hlonger : ¬ lead < 0xf0 := by
    rw [UInt8.lt_iff_toNat_lt]
    exact Nat.not_lt_of_le hlead.1
  rw [decodeChar_of_long ⟨by omega, hlead.2⟩ hsecond, if_neg hlong]
  dsimp only
  rw [hthird, if_neg hlonger, hfourth]
  rfl

end DecodeChar

/-- A character is read from the bytes that encode it, whatever comes after them. -/
theorem decodeChar_utf8EncodeChar (c : Char) (rest : List UInt8) :
    ∃ lead more, String.utf8EncodeChar c = lead :: more ∧
      decodeChar lead (more ++ rest) = (c, more.length + 1) := by
  have hbyte {value : Nat} (h : value < 256) : (UInt8.ofNat value).toNat = value :=
    UInt8.toNat_ofNat_of_lt' h
  have hpayload (part : Nat) : payload (UInt8.ofNat (part % 64 + 128)) = part % 64 := by
    rw [payload, hbyte (by omega)]
    omega
  have hcontinues (part : Nat) : isContinuation (UInt8.ofNat (part % 64 + 128)) = true := by
    rw [isContinuation_eq_true, hbyte (by omega)]
    omega
  have hrange : c.val.toNat < 0xd800 ∨ 0xdfff < c.val.toNat ∧ c.val.toNat < 0x110000 := c.valid
  have hchar : Char.ofNat c.val.toNat = c := Char.ofNat_toNat c
  unfold String.utf8EncodeChar
  generalize c.val.toNat = value at hrange hchar
  dsimp only
  split
  next hone =>
    refine ⟨_, _, rfl, ?_⟩
    rw [decodeChar_of_one (by rw [hbyte (by omega)]; omega), hbyte (by omega), hchar]
    rfl
  next hone =>
    split
    next htwo =>
      have hlead := hbyte (show value / 64 % 32 + 192 < 256 by omega)
      have hsecond := hbyte (show value % 64 + 128 < 256 by omega)
      refine ⟨_, _, rfl, ?_⟩
      rw [List.cons_append, decodeChar_of_two (by omega)
        (allowsSecond_of_bounds (by omega) (by omega) (by omega) (by omega) (by omega)), hpayload,
        hlead, show (value / 64 % 32 + 192) % 32 * 64 + value % 64 = value by omega, hchar]
      rfl
    next htwo =>
      split
      next hthree =>
        have hlead := hbyte (show value / 4096 % 16 + 224 < 256 by omega)
        have hsecond := hbyte (show value / 64 % 64 + 128 < 256 by omega)
        refine ⟨_, _, rfl, ?_⟩
        rw [List.cons_append, List.cons_append, decodeChar_of_three (by omega)
          (allowsSecond_of_bounds (by omega) (by omega) (by omega) (by omega) (by omega))
          (hcontinues value), hpayload, hpayload, hlead,
          show ((value / 4096 % 16 + 224) % 16 * 64 + value / 64 % 64) * 64 + value % 64 = value
            by omega, hchar]
        rfl
      next hthree =>
        have hlead := hbyte (show value / 262144 % 8 + 240 < 256 by omega)
        have hsecond := hbyte (show value / 4096 % 64 + 128 < 256 by omega)
        refine ⟨_, _, rfl, ?_⟩
        rw [List.cons_append, List.cons_append, List.cons_append, decodeChar_of_four (by omega)
          (allowsSecond_of_bounds (by omega) (by omega) (by omega) (by omega) (by omega))
          (hcontinues (value / 64)) (hcontinues value), hpayload, hpayload, hpayload, hlead,
          show (((value / 262144 % 8 + 240) % 8 * 64 + value / 4096 % 64) * 64 +
            value / 64 % 64) * 64 + value % 64 = value by omega, hchar]
        rfl

/-! ## Whole texts -/

theorem decodeChars_flatMap (chars : List Char) :
    decodeChars (chars.flatMap String.utf8EncodeChar) = chars := by
  induction chars with
  | nil => rw [List.flatMap_nil, decodeChars]
  | cons c chars ih =>
      obtain ⟨lead, more, hencode, hdecode⟩ :=
        decodeChar_utf8EncodeChar c (chars.flatMap String.utf8EncodeChar)
      rw [List.flatMap_cons, hencode, List.cons_append, decodeChars, hdecode]
      dsimp only
      rw [Nat.add_sub_cancel, List.drop_left, ih]

theorem octets_toUTF8 (chars : List Char) :
    Bytes.octets (String.ofList chars).toUTF8 = chars.flatMap String.utf8EncodeChar := by
  rw [String.toUTF8, String.toByteArray_ofList, List.utf8Encode]
  simp only [Bytes.octets, List.data_toByteArray]

/-- A text is read from its bytes. -/
theorem decodeLossy_toUTF8 (text : String) : decodeLossy (Bytes.octets text.toUTF8) = text := by
  rw [← String.ofList_toList (s := text), decodeLossy, octets_toUTF8, decodeChars_flatMap]

end ForkReplay.Text.Utf8
