import ForkReplay.Proofs.HexSpelling
import ForkReplay.Command.HexArgument

/-!
# Hashes and byte strings as people write them

A text denotes bytes if it consists of digits that spell them, with leaders in front and blanks
around. The hash of a transaction may have one leader. So should the byte strings of the command
line, but there the decoder passes over another one.
-/

namespace ForkReplay

namespace Text

open Hex

/-- The text consists of digits that spell the bytes, after at most `count` leaders and with
blanks around all of it. -/
def Denotes (count : Nat) (text : String) (bytes : Bytes) : Prop :=
  ∃ body, Surrounds text.toList body ∧ SpellsAfter count body bytes.octets

theorem isBlank_of_digit : ∀ code < 128, (digit? (Char.ofNat code)).isSome →
    isBlank (Char.ofNat code) = false := by
  decide +kernel

theorem Hex.AllDigits.isBlank_eq_false {chars : List Char} (h : AllDigits chars) :
    ∀ c ∈ chars, isBlank c = false := by
  intro c hc
  have hblank := isBlank_of_digit c.toNat (toNat_lt_of_isSome (h c hc))
  rw [Char.ofNat_toNat] at hblank
  exact hblank (h c hc)

theorem Hex.IsLeader.isBlank_eq_false {leader : List Char} (h : IsLeader leader) :
    ∀ c ∈ leader, isBlank c = false := by
  rcases h with rfl | rfl
  · exact List.forall_mem_cons.mpr ⟨by decide, List.forall_mem_singleton.mpr (by decide)⟩
  · exact List.forall_mem_cons.mpr ⟨by decide, List.forall_mem_singleton.mpr (by decide)⟩

theorem Hex.SpellsAfter.isBlank_eq_false {count : Nat} {chars : List Char} {bytes : List UInt8}
    (h : SpellsAfter count chars bytes) : ∀ c ∈ chars, isBlank c = false := by
  obtain ⟨leaders, digits, -, hleaders, rfl, hspells⟩ := h
  intro c hc
  rcases List.mem_append.mp hc with hleader | hdigit
  · obtain ⟨leader, hmem, hc⟩ := List.mem_flatten.mp hleader
    exact (hleaders leader hmem).isBlank_eq_false c hc
  · exact hspells.allDigits.isBlank_eq_false c hdigit

/-- What a text denotes is found by trimming it and stripping its leaders. -/
theorem denotes_iff {count : Nat} {text : String} {bytes : Bytes} :
    Denotes count text bytes ↔
      Spells (stripLeader^[count] (trimChars text.toList)) bytes.octets := by
  rw [← spellsAfter_iff]
  constructor
  · rintro ⟨body, hsurrounds, hspells⟩
    rwa [trimChars_of_surrounds hsurrounds hspells.isBlank_eq_false]
  · intro hspells
    exact ⟨_, surrounds_trimChars text.toList, hspells⟩

/-- Written bytes are denoted with a leader or without one, and blanks do not matter. -/
theorem denotes_of_surrounds {text : String} {bytes : Bytes} {leader : List Char}
    (hleader : leader = [] ∨ IsLeader leader)
    (h : Surrounds text.toList (leader ++ digits bytes.octets)) : Denotes 1 text bytes := by
  refine ⟨_, h, ?_⟩
  rcases hleader with rfl | hleader
  · exact ⟨[], _, Nat.zero_le 1, by simp, rfl, .of_digits _⟩
  · exact ⟨[leader], _, Nat.le_refl 1, by simpa using hleader, by simp, .of_digits _⟩

end Text

/-! ## Hashes -/

namespace Hash

open Text Text.Hex

theorem toNat_toBytes (hash : Hash) : Bytes.toNat hash.toBytes = hash.toNat := by
  rw [toBytes, Bytes.toNat_ofNat, BitVec.toNat_ofNat]
  exact Nat.mod_eq_of_lt hash.isLt

theorem length_octets_toBytes (hash : Hash) : hash.toBytes.octets.length = 32 := by
  rw [Bytes.length_octets, toBytes, Bytes.size_ofNat]

/-- The hash with the value of 32 bytes is written as these bytes. -/
theorem octets_toBytes_ofNat {bytes : List UInt8} (h : bytes.length = 32) :
    (toBytes (BitVec.ofNat 256 (Bytes.toNat (Bytes.ofList bytes)))).octets = bytes := by
  have hfits := Bytes.toNat_ofNat_toNat bytes
  have hback := Bytes.ofNat_toNat bytes
  rw [h] at hfits hback
  rw [toBytes, hfits, hback, Bytes.octets_ofList]

/-- A hash is read from what spells its bytes after one leader. -/
theorem ofText?_eq_some_iff {text : String} {hash : Hash} :
    ofText? text = some hash ↔
      Spells (stripLeader (trimChars text.toList)) hash.toBytes.octets := by
  rw [ofText?]
  generalize stripLeader (trimChars text.toList) = body
  simp only [parse?, String.toList_ofList, Option.ite_none_right_eq_some, Option.map_eq_some_iff,
    fixed?_eq_some_iff]
  constructor
  · rintro ⟨hsize, value, ⟨hlength, hvalue⟩, rfl⟩
    have hdigits := allDigits_of_foldlM hvalue
    -- A second leader would leave too few bytes for the digits.
    have hsame : stripLeader body = body := by
      rcases stripLeader_eq_or_utf8ByteSize hdigits with hsame | hlonger
      · exact hsame
      · omega
    rw [hsame] at hvalue hlength hdigits
    obtain ⟨bytes, hspells⟩ := exists_spells (by omega) hdigits
    rw [hspells.number?_eq] at hvalue
    cases hvalue
    have hcount := hspells.length_eq
    rwa [octets_toBytes_ofNat (by omega)]
  · intro hspells
    have hlength := hspells.length_eq
    rw [length_octets_toBytes] at hlength
    have hvalue := hspells.number?_eq
    rw [Bytes.ofList_octets, toNat_toBytes] at hvalue
    rw [utf8ByteSize_of_allDigits hspells.allDigits, stripLeader_of_allDigits hspells.allDigits]
    exact ⟨hlength, hash.toNat, ⟨hlength, hvalue⟩, BitVec.ofNat_toNat 256 hash⟩

/-- The text that is read is a hash exactly if it denotes one after a leader at most. Any other
text is shown as it is in the error. A hash is read from its own text, with the leader or without
it, and with blanks at both ends. -/
theorem read_accepts_denoted :
    (∀ text hash, Hash.read text = .ok hash ↔ Denotes 1 text (toBytes hash)) ∧
    (∀ text, (¬ ∃ hash, Denotes 1 text (toBytes hash)) →
      Hash.read text = .error (.invalidTransactionHash text)) ∧
    ∀ (hash : Hash) (front back : List Char), (∀ c ∈ front, isBlank c = true) →
      (∀ c ∈ back, isBlank c = true) →
      ∀ shown ∈ [Hash.text hash, String.ofList (digits hash.toBytes.octets)],
        Hash.read (String.ofList front ++ shown ++ String.ofList back) = .ok hash := by
  have hread (text : String) (hash : Hash) :
      Hash.read text = .ok hash ↔ Denotes 1 text (toBytes hash) := by
    rw [denotes_iff, Function.iterate_one, ← ofText?_eq_some_iff, Hash.read]
    cases ofText? text with
    | none => simp
    | some found => simp
  refine ⟨hread, ?_, ?_⟩
  · intro text hnone
    cases hhash : ofText? text with
    | none => rw [Hash.read, hhash]
    | some hash =>
        have hok : Hash.read text = .ok hash := by rw [Hash.read, hhash]
        exact absurd ⟨hash, (hread text hash).mp hok⟩ hnone
  · intro hash front back hfront hback shown hshown
    obtain ⟨leader, hleader, hchars⟩ : ∃ leader, (leader = [] ∨ IsLeader leader) ∧
        shown.toList = leader ++ digits hash.toBytes.octets := by
      simp only [List.mem_cons, List.not_mem_nil, or_false] at hshown
      rcases hshown with rfl | rfl
      · exact ⟨['0', 'x'], .inr (.inl rfl), toList_ofBytes hash.toBytes⟩
      · exact ⟨[], .inl rfl, by rw [String.toList_ofList, List.nil_append]⟩
    refine (hread _ _).mpr (denotes_of_surrounds hleader ⟨front, back, ?_, hfront, hback⟩)
    simp [hchars]

/-- A hash between blanks, and a text that takes 64 bytes but has no digits. -/
theorem read_of_padded_hash :
    let accents := String.ofList (List.replicate 32 'é')
    (¬ ∃ hash, Denotes 1 accents (toBytes hash)) ∧
      Hash.read accents = .error (.invalidTransactionHash accents) ∧
      (∀ c ∈ ['\u3000'], isBlank c = true) ∧ (∀ c ∈ ['\n'], isBlank c = true) ∧
      Hash.read (String.ofList ['\u3000'] ++ Hash.text 0xab ++ String.ofList ['\n']) =
        .ok 0xab := by
  intro accents
  have hnone : ¬ ∃ hash, Denotes 1 accents (toBytes hash) := by
    rintro ⟨hash, hdenotes⟩
    have hdigits := (denotes_iff.mp hdenotes).allDigits
    exact absurd (hdigits 'é' (by decide +kernel)) (by decide)
  have hfront : ∀ c ∈ ['\u3000'], isBlank c = true :=
    List.forall_mem_singleton.mpr (by decide)
  have hback : ∀ c ∈ ['\n'], isBlank c = true :=
    List.forall_mem_singleton.mpr (by decide)
  obtain ⟨-, hrefused, hread⟩ := read_accepts_denoted
  exact ⟨hnone, hrefused accents hnone, hfront, hback,
    hread 0xab _ _ hfront hback (Hash.text 0xab) List.mem_cons_self⟩

end Hash

/-! ## Byte strings -/

namespace Command

open Text Text.Hex

/-- The first leader is passed over before the decoder passes over one. -/
theorem decodeHex_eq_ok_iff {text : String} {bytes : Bytes} :
    decodeHex text = .ok bytes ↔
      Spells (stripLeader (stripLeader (trimChars text.toList))) bytes.octets := by
  rw [decodeHex]
  generalize stripLeader (trimChars text.toList) = body
  constructor
  · intro h
    split at h
    next => cases h
    next =>
      cases hdecode : decode body with
      | error error =>
          rw [hdecode] at h
          cases h
      | ok found =>
          rw [hdecode] at h
          cases h
          exact decode_eq_ok_iff.mp hdecode
  · intro hspells
    have hlength := hspells.length_eq
    have heven : (String.ofList body).utf8ByteSize % 2 ≠ 1 := by
      rcases stripLeader_eq_or_utf8ByteSize hspells.allDigits with hsame | hlonger
      · rw [hsame] at hspells hlength
        rw [utf8ByteSize_of_allDigits hspells.allDigits]
        omega
      · omega
    rw [if_neg heven, decode_eq_ok_iff.mpr hspells]
    rfl

/-- The text of a byte string is read back. -/
theorem decodeHex_ofBytes (bytes : Bytes) : decodeHex (ofBytes bytes) = .ok bytes := by
  have hdenotes : Denotes 1 (ofBytes bytes) bytes :=
    denotes_of_surrounds (.inr (.inl rfl)) ⟨[], [], by rw [toList_ofBytes]; simp, by simp, by simp⟩
  rw [decodeHex_eq_ok_iff]
  have hspells := denotes_iff.mp hdenotes
  rw [Function.iterate_one] at hspells
  rwa [stripLeader_of_allDigits hspells.allDigits]

/-- Exactly those texts are byte strings that denote one after at most two leaders, and they
denote what is read. Any other text is refused. -/
theorem decodeHex_accepts_two_leaders (text : String) :
    (∀ bytes, decodeHex text = .ok bytes ↔ Denotes 2 text bytes) ∧
      ((∃ bytes, Denotes 2 text bytes) ∨ ∃ error, decodeHex text = .error error) := by
  have hread (bytes : Bytes) : decodeHex text = .ok bytes ↔ Denotes 2 text bytes := by
    rw [decodeHex_eq_ok_iff, denotes_iff]
    rfl
  refine ⟨hread, ?_⟩
  cases hdecode : decodeHex text with
  | error error => exact .inr ⟨error, rfl⟩
  | ok bytes => exact .inl ⟨bytes, (hread bytes).mp hdecode⟩

/-- A byte after two leaders is read, though the text denotes nothing after a single one. -/
theorem decodeHex_of_doubled_leader :
    decodeHex "0x0xab" = .ok (Bytes.ofList [0xab]) ∧
      ∀ bytes, ¬ Denotes 1 "0x0xab" bytes := by
  refine ⟨by decide +kernel, ?_⟩
  intro bytes hdenotes
  have hdigits := (denotes_iff.mp hdenotes).allDigits
  exact absurd (hdigits 'x' (by decide +kernel)) (by decide)

end Command

end ForkReplay
