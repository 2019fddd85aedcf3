import Mathlib.Data.List.TakeWhile
import Mathlib.Logic.Function.Iterate
import ForkReplay.Proofs.HexText
import ForkReplay.Text.Blank

/-!
# What hexadecimal text spells

Digits of either case spell bytes, two digits a byte and the more significant one first. The
readers of hexadecimal text accept what is spelled and nothing else, whatever characters the
text is made of: no character beyond ASCII has a byte that is a digit.
-/

namespace ForkReplay

namespace Text

/-! ## Blanks at both ends -/

/-- The characters are `body` with nothing but blanks around it. -/
def Surrounds (chars body : List Char) : Prop :=
  ∃ front back, chars = front ++ body ++ back ∧
    (∀ c ∈ front, isBlank c = true) ∧ ∀ c ∈ back, isBlank c = true

theorem surrounds_trimChars (chars : List Char) : Surrounds chars (trimChars chars) := by
  refine ⟨chars.takeWhile isBlank,
    ((chars.dropWhile isBlank).reverse.takeWhile isBlank).reverse, ?_, ?_, ?_⟩
  · rw [trimChars, List.append_assoc, ← List.reverse_append, List.takeWhile_append_dropWhile,
      List.reverse_reverse, List.takeWhile_append_dropWhile]
  · intro c hc
    exact List.mem_takeWhile_imp hc
  · intro c hc
    exact List.mem_takeWhile_imp (List.mem_reverse.mp hc)

theorem dropWhile_isBlank_of_none {chars : List Char} (h : ∀ c ∈ chars, isBlank c = false) :
    chars.dropWhile isBlank = chars := by
  cases chars with
  | nil => rfl
  | cons c rest => simp [h c]

/-- Nothing is trimmed but the blanks around what has none. -/
theorem trimChars_of_surrounds {chars body : List Char} (h : Surrounds chars body)
    (hbody : ∀ c ∈ body, isBlank c = false) : trimChars chars = body := by
  obtain ⟨front, back, rfl, hfront, hback⟩ := h
  have hback' : ∀ c ∈ back.reverse, isBlank c = true := by simpa using hback
  have hbody' : ∀ c ∈ body.reverse, isBlank c = false := by simpa using hbody
  rw [trimChars, List.append_assoc, List.dropWhile_append_of_pos hfront]
  cases body with
  | nil => simp [List.dropWhile_eq_nil_iff.mpr hback]
  | cons c rest =>
      -- The first character of the body ends the blanks in front, its last one those behind.
      have hstart : (c :: rest ++ back).dropWhile isBlank = c :: rest ++ back := by
        simp [hbody c]
      rw [hstart, List.reverse_append, List.dropWhile_append_of_pos hback',
        dropWhile_isBlank_of_none hbody', List.reverse_reverse]

namespace Hex

/-! ## Digits -/

/-- What is decided of every ASCII character: a digit of either case has the value of the
lower-case digit it is folded to. -/
theorem digit?_ofNat : ∀ code < 128, ∀ value < 16,
    (digit? (Char.ofNat code) = some value ↔ (Char.ofNat code).toLower = digit value) := by
  decide +kernel

theorem lt_of_digit?_ofNat : ∀ code < 128, ∀ value ∈ digit? (Char.ofNat code), value < 16 := by
  decide +kernel

theorem toNat_digit_lt : ∀ value < 16, (digit value).toNat < 128 := by decide

theorem digit?_of_not_ascii {c : Char} (h : 128 ≤ c.toNat) : digit? c = none := by
  have hupto {last : Char} (hlast : last.toNat < 128) : ¬ c ≤ last := by
    intro hle
    have : c.toNat ≤ last.toNat := hle
    omega
  simp [digit?, hupto]

theorem toLower_of_not_ascii {c : Char} (h : 128 ≤ c.toNat) : c.toLower = c := by
  have hnot : ¬ (c.val ≥ 'A'.val ∧ c.val ≤ 'Z'.val) := by
    rintro ⟨-, hle⟩
    have : c.toNat ≤ 'Z'.toNat := hle
    have hz : 'Z'.toNat = 90 := rfl
    omega
  exact dif_neg hnot

/-- A digit of either case has the value of the lower-case digit it is folded to. -/
theorem digit?_eq_some_iff {c : Char} {value : Nat} :
    digit? c = some value ↔ value < 16 ∧ c.toLower = digit value := by
  by_cases hascii : c.toNat < 128
  · have hc : Char.ofNat c.toNat = c := Char.ofNat_toNat c
    have hdigit := digit?_ofNat c.toNat hascii value
    have hlt := lt_of_digit?_ofNat c.toNat hascii value
    rw [hc] at hdigit hlt
    constructor
    · intro h
      exact ⟨hlt h, (hdigit (hlt h)).mp h⟩
    · rintro ⟨hvalue, h⟩
      exact (hdigit hvalue).mpr h
  · have hhigh : 128 ≤ c.toNat := Nat.le_of_not_lt hascii
    rw [digit?_of_not_ascii hhigh, toLower_of_not_ascii hhigh]
    constructor
    · intro h
      cases h
    · rintro ⟨hvalue, rfl⟩
      exact absurd (toNat_digit_lt value hvalue) hascii

/-- The characters are the digits of the bytes, in either case. -/
def Spells (chars : List Char) (bytes : List UInt8) : Prop :=
  chars.map Char.toLower = digits bytes

/-- Every character is a digit. -/
def AllDigits (chars : List Char) : Prop := ∀ c ∈ chars, (digit? c).isSome

theorem spells_cons_iff {high low : Char} {chars : List Char} {byte : UInt8} {bytes : List UInt8} :
    Spells (high :: low :: chars) (byte :: bytes) ↔
      digit? high = some (byte.toNat / 16) ∧ digit? low = some (byte.toNat % 16) ∧
        Spells chars bytes := by
  obtain ⟨hhigh, hlow⟩ := div_mod_lt byte
  have hdigits : digits (byte :: bytes) =
      digit (byte.toNat / 16) :: digit (byte.toNat % 16) :: digits bytes := rfl
  simp [Spells, hdigits, digit?_eq_some_iff, hhigh, hlow]

theorem ofNat_eq_iff {high low : Nat} (hhigh : high < 16) (hlow : low < 16) {byte : UInt8} :
    UInt8.ofNat (high * 16 + low) = byte ↔ high = byte.toNat / 16 ∧ low = byte.toNat % 16 := by
  have hbyte : (UInt8.ofNat (high * 16 + low)).toNat = high * 16 + low :=
    UInt8.toNat_ofNat_of_lt' (by change _ < 256; omega)
  rw [← UInt8.toNat_inj, hbyte]
  omega

theorem bytes?_eq_some_iff {chars : List Char} {bytes : List UInt8} :
    bytes? chars = some bytes ↔ Spells chars bytes := by
  induction chars using bytes?.induct generalizing bytes with
  | case1 => cases bytes <;> simp [bytes?, Spells, digits, byteDigits]
  | case2 c => cases bytes <;> simp [bytes?, Spells, digits, byteDigits]
  | case3 high low rest ih =>
      cases bytes with
      | nil => simp [bytes?, Spells, digits, Option.bind_eq_some_iff]
      | cons byte bytes =>
          simp only [bytes?, Option.bind_eq_bind, Option.bind_eq_some_iff, Option.pure_def,
            Option.some.injEq, List.cons.injEq, spells_cons_iff, ih]
          constructor
          · rintro ⟨h, hhigh, l, hlow, tail, htail, hbyte, rfl⟩
            obtain ⟨rfl, rfl⟩ := (ofNat_eq_iff (digit?_eq_some_iff.mp hhigh).1
              (digit?_eq_some_iff.mp hlow).1).mp hbyte
            exact ⟨hhigh, hlow, htail⟩
          · rintro ⟨hhigh, hlow, htail⟩
            obtain ⟨hh, hl⟩ := div_mod_lt byte
            exact ⟨_, hhigh, _, hlow, bytes, htail, (ofNat_eq_iff hh hl).mpr ⟨rfl, rfl⟩, rfl⟩

namespace Spells

variable {chars : List Char} {bytes : List UInt8}

theorem length_eq (h : Spells chars bytes) : chars.length = 2 * bytes.length := by
  rw [← length_digits, ← h, List.length_map]

theorem allDigits (h : Spells chars bytes) : AllDigits chars := by
  intro c hc
  have hlower : c.toLower ∈ digits bytes := h ▸ List.mem_map_of_mem hc
  obtain ⟨value, hvalue, hdigit⟩ := mem_digits hlower
  exact Option.isSome_of_eq_some (digit?_eq_some_iff.mpr ⟨hvalue, hdigit⟩)

theorem of_digits (bytes : List UInt8) : Spells (digits bytes) bytes :=
  bytes?_eq_some_iff.mp (bytes?_digits bytes)

end Spells

/-- Digits in even number spell some bytes. -/
theorem exists_spells {chars : List Char} (heven : chars.length % 2 = 0)
    (hdigits : AllDigits chars) : ∃ bytes, Spells chars bytes := by
  induction chars using bytes?.induct with
  | case1 => exact ⟨[], rfl⟩
  | case2 c => simp at heven
  | case3 high low rest ih =>
      obtain ⟨h, hhigh⟩ := Option.isSome_iff_exists.mp (hdigits high (by simp))
      obtain ⟨l, hlow⟩ := Option.isSome_iff_exists.mp (hdigits low (by simp))
      have hrest : rest.length % 2 = 0 := by
        simp only [List.length_cons] at heven
        omega
      obtain ⟨bytes, hbytes⟩ := ih hrest fun c hc => hdigits c (by simp [hc])
      obtain ⟨hh, hl⟩ := (ofNat_eq_iff (digit?_eq_some_iff.mp hhigh).1
        (digit?_eq_some_iff.mp hlow).1).mp rfl
      refine ⟨UInt8.ofNat (h * 16 + l) :: bytes, spells_cons_iff.mpr ?_⟩
      rw [← hh, ← hl]
      exact ⟨hhigh, hlow, hbytes⟩

/-! ## Bytes of a text -/

theorem toNat_lt_of_isSome {c : Char} (h : (digit? c).isSome) : c.toNat < 128 := by
  by_contra hhigh
  rw [digit?_of_not_ascii (Nat.le_of_not_lt hhigh)] at h
  cases h

theorem utf8Size_of_ascii {c : Char} (h : c.toNat < 128) : c.utf8Size = 1 := by
  rw [Char.utf8Size_eq_one_iff, UInt32.le_iff_toNat_le]
  exact Nat.le_of_lt_succ h

theorem AllDigits.utf8Size {chars : List Char} (h : AllDigits chars) :
    ∀ c ∈ chars, c.utf8Size = 1 :=
  fun c hc => utf8Size_of_ascii (toNat_lt_of_isSome (h c hc))

/-- A character beyond ASCII starts with a byte that is no digit. -/
theorem exists_mem_utf8EncodeChar {c : Char} (h : 128 ≤ c.toNat) :
    ∃ byte ∈ String.utf8EncodeChar c, 128 ≤ byte.toNat := by
  have hbyte {value : Nat} (hlt : value < 256) (hle : 128 ≤ value) :
      128 ≤ (UInt8.ofNat value).toNat := by
    rwa [UInt8.toNat_ofNat_of_lt' hlt]
  have hval : 128 ≤ c.val.toNat := h
  unfold String.utf8EncodeChar
  generalize c.val.toNat = value at hval
  dsimp only
  split
  next hone => omega
  next =>
    split
    next => exact ⟨_, List.mem_cons_self, hbyte (by omega) (by omega)⟩
    next =>
      split
      next => exact ⟨_, List.mem_cons_self, hbyte (by omega) (by omega)⟩
      next => exact ⟨_, List.mem_cons_self, hbyte (by omega) (by omega)⟩

theorem utf8ByteSize_of_allDigits {chars : List Char} (h : AllDigits chars) :
    (String.ofList chars).utf8ByteSize = chars.length := by
  rw [← List.length_map (fun c : Char => c.val.toUInt8), ← octets_toUTF8_of_utf8Size h.utf8Size,
    Bytes.length_octets]
  rfl

/-- The bytes of a character are digits if the character is one. -/
theorem forall_mem_utf8EncodeChar_iff {c : Char} :
    (∀ byte ∈ String.utf8EncodeChar c, (digit? (Char.ofNat byte.toNat)).isSome) ↔
      (digit? c).isSome := by
  by_cases hascii : c.toNat < 128
  · have hbyte : c.val.toUInt8.toNat = c.toNat := by
      rw [UInt32.toNat_toUInt8]
      exact Nat.mod_eq_of_lt (Nat.lt_trans hascii (by decide))
    rw [String.utf8EncodeChar_eq_singleton (utf8Size_of_ascii hascii), List.forall_mem_singleton,
      hbyte, Char.ofNat_toNat]
  · have hhigh : 128 ≤ c.toNat := Nat.le_of_not_lt hascii
    obtain ⟨byte, hmem, hbyte⟩ := exists_mem_utf8EncodeChar hhigh
    have hvalid : byte.toNat.isValidChar := .inl (by have := byte.toNat_lt; omega)
    have hnone : digit? (Char.ofNat byte.toNat) = none := by
      apply digit?_of_not_ascii
      rw [Char.ofNat, dif_pos hvalid]
      exact hbyte
    rw [digit?_of_not_ascii hhigh]
    constructor
    · intro h
      exact absurd (h byte hmem) (by simp [hnone])
    · intro h
      cases h

/-- No byte of a text is invalid if all its characters are digits. -/
theorem firstInvalid?_eq_none_iff {chars : List Char} :
    firstInvalid? chars = none ↔ AllDigits chars := by
  have hbytes (bytes : List UInt8) :
      (bytes.zipIdx.find? fun entry => (digit? (Char.ofNat entry.1.toNat)).isNone) = none ↔
        ∀ byte ∈ bytes, (digit? (Char.ofNat byte.toNat)).isSome := by
    rw [List.find?_eq_none]
    constructor
    · intro h byte hbyte
      rw [← List.zipIdx_map_fst 0 bytes, List.mem_map] at hbyte
      obtain ⟨entry, hentry, rfl⟩ := hbyte
      simpa [Option.isSome_iff_ne_none] using h entry hentry
    · intro h entry hentry
      simpa [Option.isSome_iff_ne_none] using h entry.1 (List.fst_mem_of_mem_zipIdx hentry)
  rw [firstInvalid?, hbytes, Utf8.octets_toUTF8, List.forall_mem_flatMap]
  exact forall₂_congr fun c _ => forall_mem_utf8EncodeChar_iff

/-! ## Leaders -/

theorem stripLeader_of_allDigits {chars : List Char} (h : AllDigits chars) :
    stripLeader chars = chars := by
  unfold stripLeader
  split
  next => exact absurd (h 'x' (by simp)) (by decide)
  next => exact absurd (h 'X' (by simp)) (by decide)
  next => rfl

/-- A mark in front of digits. -/
def IsLeader (chars : List Char) : Prop := chars = ['0', 'x'] ∨ chars = ['0', 'X']

theorem stripLeader_append {leader : List Char} (h : IsLeader leader) (rest : List Char) :
    stripLeader (leader ++ rest) = rest := by
  rcases h with rfl | rfl
  · rfl
  · rfl

theorem eq_stripLeader_or (chars : List Char) :
    stripLeader chars = chars ∨
      ∃ leader, IsLeader leader ∧ chars = leader ++ stripLeader chars := by
  unfold stripLeader
  split
  next => exact .inr ⟨_, .inl rfl, rfl⟩
  next => exact .inr ⟨_, .inr rfl, rfl⟩
  next => exact .inl rfl

/-- A leader in front of digits takes two bytes more. -/
theorem stripLeader_eq_or_utf8ByteSize {chars : List Char} (h : AllDigits (stripLeader chars)) :
    stripLeader chars = chars ∨
      (String.ofList chars).utf8ByteSize = (stripLeader chars).length + 2 := by
  rcases eq_stripLeader_or chars with hsame | ⟨leader, hleader, hchars⟩
  · exact .inl hsame
  · right
    have hsize : (String.ofList leader).utf8ByteSize = 2 := by
      rcases hleader with rfl | rfl
      · rfl
      · rfl
    rw [congrArg String.ofList hchars, String.ofList_append, String.utf8ByteSize_append, hsize,
      utf8ByteSize_of_allDigits h, Nat.add_comm]

/-- The characters are some leaders, at most `count`, and then digits that spell the bytes. -/
def SpellsAfter (count : Nat) (chars : List Char) (bytes : List UInt8) : Prop :=
  ∃ (leaders : List (List Char)) (digits : List Char), leaders.length ≤ count ∧
    (∀ leader ∈ leaders, IsLeader leader) ∧ chars = leaders.flatten ++ digits ∧
    Spells digits bytes

/-- What comes after leaders is found by stripping that many of them. -/
theorem spellsAfter_iff {count : Nat} {chars : List Char} {bytes : List UInt8} :
    SpellsAfter count chars bytes ↔ Spells (stripLeader^[count] chars) bytes := by
  induction count generalizing chars with
  | zero =>
      constructor
      · rintro ⟨leaders, digits, hlength, -, rfl, hspells⟩
        rwa [List.eq_nil_of_length_eq_zero (Nat.le_zero.mp hlength)]
      · intro hspells
        exact ⟨[], chars, Nat.le_refl 0, by simp, rfl, hspells⟩
  | succ count ih =>
      rw [Function.iterate_succ_apply, ← ih]
      constructor
      · rintro ⟨leaders, digits, hlength, hleaders, rfl, hspells⟩
        cases leaders with
        | nil =>
            have hdigits : stripLeader digits = digits := stripLeader_of_allDigits hspells.allDigits
            exact ⟨[], digits, by simp, by simp, hdigits, hspells⟩
        | cons leader leaders =>
            rw [List.forall_mem_cons] at hleaders
            refine ⟨leaders, digits, Nat.le_of_succ_le_succ hlength, hleaders.2, ?_, hspells⟩
            rw [List.flatten_cons, List.append_assoc, stripLeader_append hleaders.1]
      · rintro ⟨leaders, digits, hlength, hleaders, hstripped, hspells⟩
        rcases eq_stripLeader_or chars with hsame | ⟨leader, hleader, hchars⟩
        · exact ⟨leaders, digits, Nat.le_succ_of_le hlength, hleaders, hsame ▸ hstripped, hspells⟩
        · refine ⟨leader :: leaders, digits, Nat.succ_le_succ hlength,
            List.forall_mem_cons.mpr ⟨hleader, hleaders⟩, ?_, hspells⟩
          rw [List.flatten_cons, List.append_assoc, ← hstripped]
          exact hchars

/-! ## The readers -/

/-- The decoder passes over one leader and reads what is spelled after it. -/
theorem decode_eq_ok_iff {chars : List Char} {bytes : Bytes} :
    decode chars = .ok bytes ↔ Spells (stripLeader chars) bytes.octets := by
  rw [decode]
  generalize stripLeader chars = body
  constructor
  · intro h
    split at h
    next => cases h
    next heven =>
      split at h
      next => cases h
      next hvalid =>
        have hdigits := firstInvalid?_eq_none_iff.mp hvalid
        rw [utf8ByteSize_of_allDigits hdigits] at heven
        obtain ⟨octets, hspells⟩ := exists_spells (by omega) hdigits
        rw [bytes?_eq_some_iff.mpr hspells] at h
        cases h
        simpa using hspells
  · intro hspells
    have hlength := hspells.length_eq
    rw [utf8ByteSize_of_allDigits hspells.allDigits, if_neg (by omega),
      firstInvalid?_eq_none_iff.mpr hspells.allDigits, bytes?_eq_some_iff.mpr hspells]
    simp

/-! ## Values -/

theorem foldlM_of_spells {chars : List Char} {bytes : List UInt8} (h : Spells chars bytes)
    (value : Nat) :
    chars.foldlM (fun value c => (digit? c).map (value * 16 + ·)) value =
      some (bytes.foldl (fun value byte => value * 256 + byte.toNat) value) := by
  induction bytes generalizing chars value with
  | nil =>
      rw [List.eq_nil_of_length_eq_zero h.length_eq]
      rfl
  | cons byte bytes ih =>
      obtain ⟨high, low, rest, rfl⟩ : ∃ high low rest, chars = high :: low :: rest := by
        match chars, h.length_eq with
        | high :: low :: rest, _ => exact ⟨high, low, rest, rfl⟩
      obtain ⟨hhigh, hlow, hrest⟩ := spells_cons_iff.mp h
      have hbyte : (value * 16 + byte.toNat / 16) * 16 + byte.toNat % 16 =
          value * 256 + byte.toNat := by omega
      simp only [List.foldlM_cons, List.foldl_cons, hhigh, hlow, Option.map_some,
        Option.bind_eq_bind, Option.bind_some, hbyte, ih hrest]

/-- Digits have the value of the bytes that they spell. -/
theorem Spells.number?_eq {chars : List Char} {bytes : List UInt8} (h : Spells chars bytes) :
    number? chars = some (Bytes.toNat (Bytes.ofList bytes)) := by
  rw [number?, foldlM_of_spells h]
  simp [Bytes.toNat, Bytes.ofList]

theorem fixed?_eq_some_iff {width value : Nat} {chars : List Char} :
    fixed? width chars = some value ↔
      (stripLeader chars).length = 2 * width ∧ number? (stripLeader chars) = some value := by
  simp [fixed?]

theorem allDigits_of_foldlM {chars : List Char} {start value : Nat}
    (h : chars.foldlM (fun value c => (digit? c).map (value * 16 + ·)) start = some value) :
    AllDigits chars := by
  induction chars generalizing start with
  | nil => simp [AllDigits]
  | cons c rest ih =>
      simp only [List.foldlM_cons, Option.bind_eq_bind, Option.bind_eq_some_iff,
        Option.map_eq_some_iff] at h
      obtain ⟨_, ⟨digit, hdigit, rfl⟩, hrest⟩ := h
      exact List.forall_mem_cons.mpr ⟨Option.isSome_of_eq_some hdigit, ih hrest⟩

end Hex
end Text

end ForkReplay
