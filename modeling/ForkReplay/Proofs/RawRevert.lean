import ForkReplay.Proofs.HexArguments
import ForkReplay.Proofs.RevertText

/-!
# Revert data that is no standard error

Data is an encoded error if the words in it lead to a text that lies in it, and an encoded panic
if the selector is followed by a word. All other data is told in full, from which it is read back.
Whatever the words say, nothing outside the data is read.
-/

namespace ForkReplay

namespace Bytes

theorem extract_append_extract_of_le (bytes : Bytes) {start middle stop : Nat}
    (hstart : start ≤ middle) (hstop : middle ≤ stop) :
    bytes.extract start middle ++ bytes.extract middle stop = bytes.extract start stop := by
  rw [ByteArray.extract_append_extract, Nat.min_eq_left hstart, Nat.max_eq_right hstop]

/-- A byte string is cut in two. -/
theorem extract_append_extract_size (bytes : Bytes) {middle : Nat} (h : middle ≤ bytes.size) :
    bytes.extract 0 middle ++ bytes.extract middle bytes.size = bytes := by
  rw [extract_append_extract_of_le bytes (Nat.zero_le middle) h, ByteArray.extract_zero_size]

theorem size_extract_of_le {bytes : Bytes} {start stop : Nat} (h : stop ≤ bytes.size) :
    (bytes.extract start stop).size = stop - start := by
  rw [ByteArray.size_extract, Nat.min_eq_left h]

/-- The bytes from `start` up to `stop`, each of which is taken from inside. -/
def part (bytes : Bytes) (start stop : Nat) (inside : stop ≤ bytes.size) : Bytes :=
  ofList (List.ofFn fun i : Fin (stop - start) =>
    bytes.get (start + i) (by have := i.isLt; omega))

theorem part_eq_extract (bytes : Bytes) (start stop : Nat) (inside : stop ≤ bytes.size) :
    bytes.part start stop inside = bytes.extract start stop := by
  have hsize : (bytes.part start stop inside).size = stop - start := by
    rw [part, ← length_octets, octets_ofList, List.length_ofFn]
  apply ByteArray.ext_getElem
  · rw [hsize, size_extract_of_le inside]
  · intro i hi hi'
    rw [ByteArray.getElem_extract]
    exact (List.getElem_toArray _).trans (List.getElem_ofFn _)

end Bytes

theorem Word.toBytes_ofBytes {bytes : Bytes} (h : bytes.size = 32) :
    (Word.ofBytes bytes).toBytes = bytes := by
  have hlength : bytes.octets.length = 32 := by rw [Bytes.length_octets, h]
  have hoctets := Hash.octets_toBytes_ofNat hlength
  rw [Bytes.ofList_octets] at hoctets
  exact (Bytes.ofList_octets _).symm.trans
    ((congrArg Bytes.ofList hoctets).trans (Bytes.ofList_octets bytes))

namespace Abi

/-! ## Encoded data -/

/-- The first word of the body leads to a second one, both counted from the start of the body, and
that is the length of the text, which follows. Anything may stand between and behind. -/
def LeadsTo (body text : Bytes) : Prop :=
  ∃ (offset length : Word) (rest front trailing : Bytes),
    body = offset.toBytes ++ rest ∧
    body = front ++ (length.toBytes ++ (text ++ trailing)) ∧
    front.size = offset.toNat ∧ text.size = length.toNat

/-- The data is an encoded error with the given text. -/
def EncodesError (data text : Bytes) : Prop :=
  ∃ body, data = errorSelector ++ body ∧ LeadsTo body text

/-- The data is an encoded panic with the given code, whatever stands behind it. -/
def EncodesPanic (data : Bytes) (code : Word) : Prop :=
  ∃ trailing, data = encodePanic code ++ trailing

/-- The data is neither an encoded error nor an encoded panic. -/
def Undecodable (data : Bytes) : Prop :=
  (∀ text, ¬ EncodesError data text) ∧ ∀ code, ¬ EncodesPanic data code

theorem arguments?_eq_some_iff {selector data body : Bytes} (hsize : selector.size = 4) :
    arguments? selector data = some body ↔ data = selector ++ body := by
  constructor
  · intro h
    unfold arguments? at h
    split at h
    next hselector =>
      cases h
      have hlong : 4 ≤ data.size := by
        have hstart := congrArg ByteArray.size hselector
        rw [ByteArray.size_extract, hsize] at hstart
        omega
      rw [← hselector, Bytes.extract_append_extract_size data hlong]
    next => cases h
  · rintro rfl
    exact arguments?_append hsize body

/-- A word is read from where its 32 bytes stand. -/
theorem wordAt?_eq_some_iff {body : Bytes} {position : Nat} {word : Word} :
    wordAt? body position = some word ↔
      ∃ front rest, body = front ++ (word.toBytes ++ rest) ∧ front.size = position := by
  constructor
  · intro h
    unfold wordAt? at h
    split at h
    next hinside =>
      cases h
      refine ⟨body.extract 0 position, body.extract (position + 32) body.size, ?_, ?_⟩
      · rw [Word.toBytes_ofBytes (by rw [Bytes.size_extract_of_le hinside]; omega),
          Bytes.extract_append_extract_of_le body (by omega) hinside,
          Bytes.extract_append_extract_size body (by omega)]
      · rw [Bytes.size_extract_of_le (by omega), Nat.sub_zero]
    next => cases h
  · rintro ⟨front, rest, rfl, hposition⟩
    have hword := wordAt?_encodeNumber hposition word.toNat rest
    exact hword.trans (congrArg some (BitVec.ofNat_toNat 256 word))

/-- Bytes are found where their offset and length lead to, if all of them are there. -/
theorem dynamicBytes?_eq_some_iff {body text : Bytes} :
    dynamicBytes? body = some text ↔ LeadsTo body text := by
  have hword (word : Word) : word.toBytes.size = 32 := Bytes.size_ofNat 32 _
  simp only [dynamicBytes?, Option.bind_eq_bind, Option.bind_eq_some_iff, wordAt?_eq_some_iff,
    Option.pure_def, Option.ite_none_right_eq_some, Option.some.injEq]
  constructor
  · rintro ⟨offset, ⟨start, rest, hoffset, hstart⟩, length, ⟨front, tail, hlength, hfront⟩,
      hinside, rfl⟩
    obtain rfl : start = ByteArray.empty := ByteArray.size_eq_zero_iff.mp hstart
    rw [ByteArray.empty_append] at hoffset
    -- What follows the length is the text and the rest of the body.
    have htail : body.extract (offset.toNat + 32) body.size = tail := by
      rw [hlength, ← ByteArray.append_assoc]
      apply ByteArray.extract_append_eq_right
      · rw [ByteArray.size_append, hword, hfront]
      · rw [ByteArray.size_append, ByteArray.size_append]
    refine ⟨offset, length, rest, front,
      body.extract (offset.toNat + 32 + length.toNat) body.size, hoffset, ?_, hfront, ?_⟩
    · rw [Bytes.extract_append_extract_of_le body (by omega) hinside, htail]
      exact hlength
    · rw [Bytes.size_extract_of_le hinside, Nat.add_sub_cancel_left]
  · rintro ⟨offset, length, rest, front, trailing, hoffset, hlength, hfront, htext⟩
    have hstart : (front ++ length.toBytes).size = offset.toNat + 32 := by
      rw [ByteArray.size_append, hword, hfront]
    have hextract := Bytes.extract_between hstart text trailing
    rw [ByteArray.append_assoc, ← hlength, htext] at hextract
    have hbody : body = ByteArray.empty ++ (offset.toBytes ++ rest) := by
      rw [ByteArray.empty_append]
      exact hoffset
    refine ⟨offset, ⟨.empty, rest, hbody, rfl⟩, length,
      ⟨front, text ++ trailing, hlength, hfront⟩, ?_, hextract⟩
    rw [hlength]
    simp only [ByteArray.size_append, hword]
    omega

theorem errorReason?_eq_some_iff {data : Bytes} {reason : String} :
    errorReason? data = some reason ↔
      ∃ text, EncodesError data text ∧ Text.Utf8.decodeLossy text.octets = reason := by
  have hselector : errorSelector.size = 4 := by decide
  simp only [errorReason?, Option.bind_eq_bind, Option.bind_eq_some_iff, Option.pure_def,
    Option.some.injEq, arguments?_eq_some_iff hselector, dynamicBytes?_eq_some_iff]
  constructor
  · rintro ⟨body, hdata, text, hleads, hreason⟩
    exact ⟨text, ⟨body, hdata, hleads⟩, hreason⟩
  · rintro ⟨text, ⟨body, hdata, hleads⟩, hreason⟩
    exact ⟨body, hdata, text, hleads, hreason⟩

theorem panicCode?_eq_some_iff {data : Bytes} {code : Word} :
    panicCode? data = some code ↔ EncodesPanic data code := by
  have hselector : panicSelector.size = 4 := by decide
  constructor
  · intro h
    simp only [panicCode?, Option.bind_eq_bind, Option.bind_eq_some_iff,
      arguments?_eq_some_iff hselector, wordAt?_eq_some_iff] at h
    obtain ⟨body, rfl, front, rest, rfl, hfront⟩ := h
    obtain rfl : front = ByteArray.empty := ByteArray.size_eq_zero_iff.mp hfront
    refine ⟨rest, ?_⟩
    rw [ByteArray.empty_append, encodePanic, ByteArray.append_assoc]
  · rintro ⟨trailing, rfl⟩
    exact panicCode?_encodePanic code trailing

/-- Data is undecodable if it is read neither as an error nor as a panic. -/
theorem undecodable_iff {data : Bytes} :
    Undecodable data ↔ errorReason? data = none ∧ panicCode? data = none := by
  simp only [Option.eq_none_iff_forall_ne_some, Ne, errorReason?_eq_some_iff,
    panicCode?_eq_some_iff, Undecodable]
  constructor
  · rintro ⟨herror, hpanic⟩
    exact ⟨fun reason ⟨text, htext, _⟩ => herror text htext, hpanic⟩
  · rintro ⟨herror, hpanic⟩
    exact ⟨fun text htext => herror _ ⟨text, htext, rfl⟩, hpanic⟩

theorem revertMessage_of_undecodable {data : Bytes} (hsize : data.size ≠ 0)
    (h : Undecodable data) : revertMessage data = Text.Hex.ofBytes data := by
  obtain ⟨herror, hpanic⟩ := undecodable_iff.mp h
  rw [revertMessage, if_neg hsize, herror, hpanic]

/-! ## Reading inside the data -/

namespace Bounded

/-- The arguments of data that starts with `selector`. -/
def arguments? (selector data : Bytes) : Option Bytes :=
  if inside : 4 ≤ data.size then
    if data.part 0 4 inside = selector then some (data.part 4 data.size (Nat.le_refl _)) else none
  else none

/-- The word whose 32 bytes start at `position`. -/
def wordAt? (body : Bytes) (position : Nat) : Option Word :=
  if inside : position + 32 ≤ body.size then
    some (Word.ofBytes (body.part position (position + 32) inside))
  else none

/-- The bytes that an argument of variable length at the start of `body` stands for. -/
def dynamicBytes? (body : Bytes) : Option Bytes := do
  let offset ← wordAt? body 0
  let length ← wordAt? body offset.toNat
  let start := offset.toNat + 32
  let stop := start + length.toNat
  if inside : stop ≤ body.size then return body.part start stop inside else none

def errorReason? (data : Bytes) : Option String := do
  let body ← arguments? errorSelector data
  let text ← dynamicBytes? body
  return Text.Utf8.decodeLossy (Bytes.octets text)

def panicCode? (data : Bytes) : Option Word := do
  let body ← arguments? panicSelector data
  wordAt? body 0

/-- What revert data says, where every byte is taken from inside the data. -/
def revertMessage (data : Bytes) : String :=
  if data.size = 0 then ""
  else
    match errorReason? data with
    | some reason => reason
    | none =>
        match panicCode? data with
        | some code => panicMessage code
        | none => Text.Hex.ofBytes data

theorem arguments?_eq {selector : Bytes} (hsize : selector.size = 4) (data : Bytes) :
    arguments? selector data = Abi.arguments? selector data := by
  unfold arguments? Abi.arguments?
  split
  next => simp only [Bytes.part_eq_extract]
  next hshort =>
    rw [if_neg]
    intro hselector
    have hstart := congrArg ByteArray.size hselector
    rw [ByteArray.size_extract, hsize] at hstart
    omega

theorem wordAt?_eq (body : Bytes) (position : Nat) :
    wordAt? body position = Abi.wordAt? body position := by
  unfold wordAt? Abi.wordAt?
  simp only [Bytes.part_eq_extract]
  rfl

theorem dynamicBytes?_eq (body : Bytes) : dynamicBytes? body = Abi.dynamicBytes? body := by
  unfold dynamicBytes? Abi.dynamicBytes?
  simp only [Bytes.part_eq_extract, wordAt?_eq]
  rfl

theorem errorReason?_eq (data : Bytes) : errorReason? data = Abi.errorReason? data := by
  unfold errorReason? Abi.errorReason?
  rw [arguments?_eq (by decide)]
  simp only [dynamicBytes?_eq]

theorem panicCode?_eq (data : Bytes) : panicCode? data = Abi.panicCode? data := by
  unfold panicCode? Abi.panicCode?
  rw [arguments?_eq (by decide)]
  simp only [wordAt?_eq]

/-- Taking every byte from inside comes to the same. -/
theorem revertMessage_eq (data : Bytes) : revertMessage data = Abi.revertMessage data := by
  rw [revertMessage, errorReason?_eq, panicCode?_eq]
  rfl

end Bounded

/-- Data that is neither empty nor an encoded error or panic is told in full, in lower-case digits:
it is read back from what is told, so that no two such data are told alike. Of any data, only bytes
that are there are read. -/
theorem revertMessage_tells_undecodable :
    (∀ data : Bytes, data.size ≠ 0 → Undecodable data →
      revertMessage data = "0x" ++ String.ofList (Text.Hex.digits data.octets) ∧
      Command.decodeHex (revertMessage data) = .ok data) ∧
    (∀ data other : Bytes, data.size ≠ 0 → other.size ≠ 0 → Undecodable data →
      Undecodable other → revertMessage data = revertMessage other → data = other) ∧
    ∀ data, revertMessage data = Bounded.revertMessage data := by
  have hback {data : Bytes} (hsize : data.size ≠ 0) (h : Undecodable data) :
      Command.decodeHex (revertMessage data) = .ok data := by
    rw [revertMessage_of_undecodable hsize h, Command.decodeHex_ofBytes]
  refine ⟨?_, ?_, fun data => (Bounded.revertMessage_eq data).symm⟩
  · intro data hsize h
    exact ⟨revertMessage_of_undecodable hsize h, hback hsize h⟩
  · intro data other hsize hsize' h h' hsame
    have hdata := hback hsize h
    rw [hsame, hback hsize' h'] at hdata
    exact (Except.ok.inj hdata).symm

/-- An error whose text has the greatest length that a word can tell, and one that is cut off
where the length should be. -/
theorem revertMessage_of_cut_errors :
    let endless := errorSelector ++ (encodeNumber 32 ++ encodeNumber (Word.size - 1))
    let short := errorSelector ++ encodeNumber 32
    (endless.size ≠ 0 ∧ Undecodable endless) ∧ (short.size ≠ 0 ∧ Undecodable short) ∧
      Command.decodeHex (revertMessage endless) = .ok endless ∧
      revertMessage endless ≠ revertMessage short := by
  intro endless short
  have hsize : endless.size ≠ 0 := by decide +kernel
  have hsize' : short.size ≠ 0 := by decide +kernel
  have hendless : Undecodable endless := undecodable_iff.mpr (by decide +kernel)
  have hshort : Undecodable short := undecodable_iff.mpr (by decide +kernel)
  obtain ⟨htold, hdistinct, -⟩ := revertMessage_tells_undecodable
  refine ⟨⟨hsize, hendless⟩, ⟨hsize', hshort⟩, (htold endless hsize hendless).2, ?_⟩
  intro hsame
  have hequal := hdistinct endless short hsize hsize' hendless hshort hsame
  exact absurd hequal (by decide +kernel)

end Abi

end ForkReplay
