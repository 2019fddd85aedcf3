import Mathlib.Algebra.GroupWithZero.Nat
import Mathlib.Data.List.Basic
import ForkReplay.Proofs.StraightCode

/-!
# Scanning assembled code

Code is read from its start, one instruction after the other, and the bytes that belong to a push
are passed over. Assembled code reads as the instructions that its pieces stand for and ends with
the last of them, so no byte of data is taken for an instruction. The machine sees the same
instructions when it notes where jumps may go.
-/

namespace ForkReplay

namespace Bytes

variable {bytes other : List UInt8}

theorem toNat_lt_pow (bytes : List UInt8) : toNat (ofList bytes) < 2 ^ (8 * bytes.length) := by
  rw [← toNat_ofNat_toNat]
  exact BitVec.isLt _

theorem pow_le_toNat {byte : UInt8} (h : byte ≠ 0) (rest : List UInt8) :
    2 ^ (8 * rest.length) ≤ toNat (ofList (byte :: rest)) := by
  induction rest using List.reverseRecOn with
  | nil =>
      have hbyte : byte.toNat ≠ 0 := fun hzero => h (UInt8.toNat_inj.mp hzero)
      have hvalue : toNat (ofList [byte]) = byte.toNat := by
        simp [toNat, ofList]
      rw [hvalue]
      exact Nat.one_le_iff_ne_zero.mpr hbyte
  | append_singleton rest last ih =>
      have hlength : 8 * (rest ++ [last]).length = 8 * rest.length + 8 := by
        rw [List.length_append, List.length_singleton, Nat.mul_add]
      rw [← List.cons_append, toNat_ofList_concat, hlength, Nat.pow_add]
      exact Nat.le_trans (Nat.mul_le_mul_right _ ih) (Nat.le_add_right _ _)

/-- Bytes without a leading zero are the fewest that spell their value. -/
theorem length_le_of_toNat_eq (hbytes : bytes.head? ≠ some 0)
    (h : toNat (ofList bytes) = toNat (ofList other)) : bytes.length ≤ other.length := by
  cases bytes with
  | nil => exact Nat.zero_le _
  | cons byte rest =>
      have hbyte : byte ≠ 0 := fun hzero => hbytes (congrArg some hzero)
      have hpow := Nat.lt_of_le_of_lt (h ▸ pow_le_toNat hbyte rest) (toNat_lt_pow other)
      have hless := (Nat.pow_lt_pow_iff_right (by decide)).mp hpow
      rw [List.length_cons]
      omega

theorem eq_of_toNat_eq (hbytes : bytes.head? ≠ some 0) (hother : other.head? ≠ some 0)
    (h : toNat (ofList bytes) = toNat (ofList other)) : bytes = other := by
  have hlength := Nat.le_antisymm (length_le_of_toNat_eq hbytes h)
    (length_le_of_toNat_eq hother h.symm)
  have hspelled := ofNat_toNat bytes
  rw [hlength, h, ofNat_toNat] at hspelled
  rw [← octets_ofList bytes, ← hspelled, octets_ofList]

theorem toNat_ofNatShort (value : Nat) : toNat (ofNatShort value) = value := by
  rw [ofNatShort, toNat_ofNat, BitVec.toNat_ofNat]
  refine Nat.mod_eq_of_lt ?_
  split
  next hzero =>
    rw [hzero]
    decide
  next =>
    refine Nat.lt_of_lt_of_le Nat.lt_log2_self (Nat.pow_le_pow_right (by decide) ?_)
    omega

theorem head?_ofNatShort (value : Nat) : (ofNatShort value).octets.head? ≠ some 0 := by
  intro hhead
  obtain ⟨rest, hrest⟩ := List.head?_eq_some_iff.mp hhead
  have hvalue : toNat (ofList rest) = value := by
    have hall := toNat_ofNatShort value
    rw [← ofList_octets (ofNatShort value), hrest] at hall
    rw [← hall]
    simp [toNat, ofList]
  have hsize : rest.length + 1 = if value = 0 then 0 else value.log2 / 8 + 1 := by
    rw [← List.length_cons, ← hrest, length_octets, ofNatShort, size_ofNat]
  split at hsize
  next => exact Nat.succ_ne_zero _ hsize
  next hvalue0 =>
    have hlow := Nat.log2_self_le hvalue0
    have hhigh := toNat_lt_pow rest
    rw [hvalue] at hhigh
    have hless := (Nat.pow_lt_pow_iff_right (by decide)).mp (Nat.lt_of_le_of_lt hlow hhigh)
    omega

end Bytes

namespace Assembly

/-! ## Instructions -/

/-- How many bytes after a byte belong to its instruction. Only pushes have some. -/
def operandLength (byte : UInt8) : Nat :=
  if 0x60 ≤ byte ∧ byte < 0x80 then byte.toNat - 0x5f else 0

/-- An instruction as it stands in code. -/
structure Instruction where
  byte : UInt8
  operand : List UInt8 := []
deriving DecidableEq, Repr

namespace Instruction

/-- The push of bytes. -/
def push (bytes : List UInt8) : Instruction := ⟨Evm.Opcode.pushByte bytes.length, bytes⟩

/-- The push of a number in the fewest bytes. -/
def number (value : Nat) : Instruction := push (Bytes.ofNatShort value).octets

/-- The push of a word in all its bytes. -/
def word (value : Word) : Instruction := push value.toBytes.octets

/-- An instruction without an operand. -/
def plain (byte : UInt8) : Instruction := ⟨byte, []⟩

/-- The instructions that store a chunk of at most 32 bytes at an offset of memory, filled up
with zeros. -/
def store (offset : Nat) (chunk : List UInt8) : List Instruction :=
  [push (chunk ++ List.replicate (32 - chunk.length) 0), number offset, plain 0x52]

/-- The instructions that store each started chunk of 32 bytes, one behind the other. -/
def stores (offset : Nat) (bytes : List UInt8) : List Instruction :=
  (List.range (Bytes.words bytes.length)).flatMap fun index =>
    store (offset + 32 * index) ((bytes.drop (32 * index)).take 32)

def code (instruction : Instruction) : List UInt8 := instruction.byte :: instruction.operand

/-- An instruction has the bytes that belong to it. -/
def IsWhole (instruction : Instruction) : Prop :=
  instruction.operand.length = operandLength instruction.byte

theorem operandLength_pushByte :
    ∀ count : Fin 33, operandLength (Evm.Opcode.pushByte count) = count := by decide

theorem isWhole_push {bytes : List UInt8} (h : bytes.length ≤ 32) : (push bytes).IsWhole :=
  (operandLength_pushByte ⟨bytes.length, Nat.lt_succ_of_le h⟩).symm

theorem isWhole_plain {byte : UInt8} (h : ¬ (0x60 ≤ byte ∧ byte < 0x80)) :
    (plain byte).IsWhole := (if_neg h).symm

theorem isWhole_word (value : Word) : (word value).IsWhole := by
  refine isWhole_push (Nat.le_of_eq ?_)
  rw [Bytes.length_octets, Word.toBytes, Bytes.size_ofNat]

theorem length_number_le {value : Nat} (h : value < UInt64.size) :
    (Bytes.ofNatShort value).octets.length ≤ 8 := by
  have hother : Bytes.toNat (Bytes.ofList (Evm.numberBytes (UInt64.ofNat value))) = value :=
    (Evm.toNat_numberBytes _).trans (UInt64.toNat_ofNat_of_lt' h)
  refine Nat.le_trans (Bytes.length_le_of_toNat_eq (Bytes.head?_ofNatShort value) ?_)
    (Evm.length_numberBytes (UInt64.ofNat value))
  rw [hother, Bytes.ofList_octets, Bytes.toNat_ofNatShort]

theorem isWhole_number {value : Nat} (h : value < UInt64.size) : (number value).IsWhole :=
  isWhole_push (Nat.le_trans (length_number_le h) (by decide))

end Instruction

open Instruction

/-! ## Scanning -/

/-- The instructions of a code, none if the last one is cut off. -/
def scan? : List UInt8 → Option (List Instruction)
  | [] => some []
  | byte :: rest =>
      if rest.length < operandLength byte then none
      else (scan? (rest.drop (operandLength byte))).map
        (⟨byte, rest.take (operandLength byte)⟩ :: ·)
  termination_by bytes => bytes.length
  decreasing_by
    simp only [List.length_drop, List.length_cons]
    omega

theorem scan?_code_append {instruction : Instruction} (h : instruction.IsWhole)
    (rest : List UInt8) :
    scan? (instruction.code ++ rest) = (scan? rest).map (instruction :: ·) := by
  have hlong : ¬ (instruction.operand ++ rest).length < operandLength instruction.byte := by
    rw [← h, List.length_append]
    omega
  rw [code, List.cons_append, scan?, if_neg hlong, ← h, List.drop_left, List.take_left]

/-- Whole instructions, one after the other, are read back. -/
theorem scan?_flatMap_code {instructions : List Instruction}
    (h : ∀ instruction ∈ instructions, instruction.IsWhole) :
    scan? (instructions.flatMap code) = some instructions := by
  induction instructions with
  | nil => rw [List.flatMap_nil, scan?]
  | cons instruction rest ih =>
      obtain ⟨hfirst, hrest⟩ := List.forall_mem_cons.mp h
      rw [List.flatMap_cons, scan?_code_append hfirst, ih hrest]
      rfl

/-! ## Pieces -/

theorem head?_numberBytes (value : UInt64) : (Evm.numberBytes value).head? ≠ some 0 := by
  intro hhead
  have hnot := List.head?_dropWhile_not (fun byte => byte == 0)
    (Bytes.ofNat 8 value.toNat).octets
  rw [Evm.numberBytes] at hhead
  rw [hhead] at hnot
  cases hnot

theorem pushNumber_eq (value : UInt64) : pushNumber value = (number value.toNat).code := by
  have hbytes : Evm.numberBytes value = (Bytes.ofNatShort value.toNat).octets := by
    refine Bytes.eq_of_toNat_eq (head?_numberBytes value) (Bytes.head?_ofNatShort _) ?_
    rw [Evm.toNat_numberBytes, Bytes.ofList_octets, Bytes.toNat_ofNatShort]
  exact congrArg pushBytes hbytes

theorem storeWord_eq (offset : UInt64) (chunk : List UInt8) :
    storeWord offset chunk = (store offset.toNat chunk).flatMap code := by
  rw [storeWord, pushNumber_eq, List.append_assoc]
  rfl

theorem words_eq_succ {count : Nat} (h : count ≠ 0) :
    Bytes.words count = Bytes.words (count - 32) + 1 := by
  unfold Bytes.words
  omega

/-- Code that stores bytes is that of storing each chunk, as long as no offset wraps. -/
theorem mstore_eq {offset : UInt64} {bytes : List UInt8}
    (h : ∀ index < Bytes.words bytes.length, offset.toNat + 32 * index < UInt64.size) :
    mstore offset bytes = (stores offset.toNat bytes).flatMap code := by
  unfold mstore
  induction bytes using chunks.induct generalizing offset with
  | case1 =>
      rw [chunks, dif_pos rfl]
      rfl
  | case2 bytes hsome ih =>
      have hwords := words_eq_succ (mt List.length_eq_zero_iff.mp hsome)
      have hlength : (bytes.drop 32).length = bytes.length - 32 := List.length_drop
      -- A chunk behind the first one is at an offset that does not wrap.
      have hnext (index : Nat) (hindex : index < Bytes.words (bytes.drop 32).length) :
          (offset + 32).toNat + 32 * index = offset.toNat + 32 * (index + 1) := by
        have hoffset := h (index + 1) (by rw [hwords, ← hlength]; omega)
        rw [UInt64.toNat_add]
        change (offset.toNat + 32) % UInt64.size + 32 * index = _
        rw [Nat.mod_eq_of_lt (by omega)]
        omega
      have hrest := @ih (offset + 32) fun index hindex => by
        rw [hnext index hindex]
        exact h (index + 1) (by rw [hwords, ← hlength]; omega)
      rw [chunks, dif_neg hsome, storeChunks, hrest, storeWord_eq, stores, stores, hwords,
        List.range_succ_eq_map, List.flatMap_cons, List.flatMap_map, List.flatMap_append, hlength]
      refine congrArg _ (congrArg (List.flatMap code) (List.flatMap_congr fun index hindex => ?_))
      rw [hnext index (by rw [hlength]; exact List.mem_range.mp hindex), List.drop_drop,
        Nat.mul_succ, Nat.add_comm 32]

theorem isWhole_of_mem_stores {offset : Nat} {bytes : List UInt8}
    (h : ∀ index < Bytes.words bytes.length, offset + 32 * index < UInt64.size)
    {instruction : Instruction} (hmem : instruction ∈ stores offset bytes) :
    instruction.IsWhole := by
  obtain ⟨index, hindex, hmem⟩ := List.mem_flatMap.mp hmem
  simp only [store, List.mem_cons, List.not_mem_nil, or_false] at hmem
  rcases hmem with rfl | rfl | rfl
  · refine isWhole_push (Nat.le_of_eq ?_)
    rw [List.length_append, List.length_replicate, List.length_take]
    omega
  · exact isWhole_number (h index (List.mem_range.mp hindex))
  · exact isWhole_plain (by decide)

/-- The chunks of bytes that are stored from the start of memory lie within it. -/
theorem offset_lt {bytes : List UInt8} (h : bytes.length < UInt64.size) :
    ∀ index < Bytes.words bytes.length, 0 + 32 * index < UInt64.size := by
  intro index hindex
  unfold Bytes.words at hindex
  omega

theorem endWith_eq (opcode : UInt8) {data : List UInt8} (h : data.length < UInt64.size) :
    endWith opcode data =
      (stores 0 data ++ [number data.length, number 0, plain opcode]).flatMap code := by
  have hlength : (UInt64.ofNat data.length).toNat = data.length := UInt64.toNat_ofNat_of_lt' h
  have hstores : mstore 0 data = (stores 0 data).flatMap code := mstore_eq (offset_lt h)
  rw [endWith, hstores, pushNumber_eq, pushNumber_eq, hlength, List.flatMap_append,
    List.append_assoc, List.append_assoc]
  rfl

theorem isWhole_of_mem_ending {opcode : UInt8} (hopcode : ¬ (0x60 ≤ opcode ∧ opcode < 0x80))
    {data : List UInt8} (hdata : data.length < UInt64.size) {instruction : Instruction}
    (hmem : instruction ∈ stores 0 data ++ [number data.length, number 0, plain opcode]) :
    instruction.IsWhole := by
  simp only [List.mem_append, List.mem_cons, List.not_mem_nil, or_false] at hmem
  rcases hmem with hstored | rfl | rfl | rfl
  · exact isWhole_of_mem_stores (offset_lt hdata) hstored
  · exact isWhole_number hdata
  · exact isWhole_number (by decide)
  · exact isWhole_plain hopcode

/-! ## Jumps -/

/-- What the machine notes for the bytes of an instruction: whether a jump may go there. -/
def Instruction.marks (instruction : Instruction) : List UInt8 :=
  (if instruction.byte = 0x5b then 1 else 0) :: List.replicate instruction.operand.length 0

theorem set!_ofList (bytes : List UInt8) (position : Nat) (byte : UInt8) :
    (Bytes.ofList bytes).set! position byte = Bytes.ofList (bytes.set position byte) :=
  congrArg ByteArray.mk (List.setIfInBounds_toArray ..)

/-- Where an instruction starts, the machine notes its marks and goes on behind it. -/
theorem markJumps_code_append {instruction : Instruction} (h : instruction.IsWhole)
    {passed noted : List UInt8} (hnoted : noted.length = passed.length) (more : List UInt8)
    (fuel : Nat) :
    Evm.markJumps (Bytes.ofList (passed ++ (instruction.code ++ more))) (fuel + 1) passed.length
        (Bytes.ofList (noted ++ List.replicate (instruction.code ++ more).length 0)) =
      Evm.markJumps (Bytes.ofList (passed ++ (instruction.code ++ more))) fuel
        (passed ++ instruction.code).length
        (Bytes.ofList (noted ++ instruction.marks ++ List.replicate more.length 0)) := by
  obtain ⟨byte, operand⟩ := instruction
  have hcode : code ⟨byte, operand⟩ ++ more = byte :: (operand ++ more) := rfl
  have hnext : (passed ++ code ⟨byte, operand⟩).length = passed.length + (operand.length + 1) :=
    List.length_append
  have hzeros : List.replicate (operand ++ more).length (0 : UInt8) =
      List.replicate operand.length 0 ++ List.replicate more.length 0 := by
    rw [List.length_append, List.replicate_add]
  have hlt : passed.length < (Bytes.ofList (passed ++ byte :: (operand ++ more))).size := by
    rw [Bytes.size_ofList, List.length_append, List.length_cons]
    omega
  have hbyte : (Bytes.ofList (passed ++ byte :: (operand ++ more)))[passed.length] = byte := by
    have hread := Bytes.getElem?_octets (Bytes.ofList (passed ++ byte :: (operand ++ more)))
      passed.length
    rw [Bytes.octets_ofList, List.getElem?_append_right (Nat.le_refl _), Nat.sub_self,
      List.getElem?_cons_zero, getElem?_pos (Bytes.ofList _) _ hlt] at hread
    exact (Option.some.inj hread).symm
  rw [hcode, List.length_cons, List.replicate_succ, hzeros, hnext, Evm.markJumps, dif_pos hlt]
  dsimp only
  rw [hbyte]
  unfold IsWhole operandLength at h
  dsimp only at h
  split
  next hdest =>
    rw [if_neg (by rw [hdest]; decide)] at h
    rw [set!_ofList, ← hnoted, List.set_append_right _ _ (Nat.le_refl _), Nat.sub_self, h, marks,
      if_pos hdest, List.length_eq_zero_iff.mp h, List.append_assoc]
    rfl
  next hdest =>
    have hmarks : noted ++ marks ⟨byte, operand⟩ ++ List.replicate more.length 0 =
        noted ++ 0 :: (List.replicate operand.length 0 ++ List.replicate more.length 0) := by
      rw [marks, if_neg hdest, List.append_assoc]
      rfl
    rw [hmarks]
    split
    next hpush =>
      rw [if_pos hpush] at h
      have hlow := UInt8.le_iff_toNat_le.mp hpush.1
      change 0x60 ≤ byte.toNat at hlow
      have hskip : byte.toNat - 0x5e = operand.length + 1 := by omega
      rw [hskip]
    next hplain =>
      rw [if_neg hplain] at h
      rw [h]

/-- The machine notes the marks of whole instructions from where the first of them starts. -/
theorem markJumps_flatMap_code {instructions : List Instruction}
    (h : ∀ instruction ∈ instructions, instruction.IsWhole) {passed noted : List UInt8}
    (hnoted : noted.length = passed.length) {fuel : Nat}
    (hfuel : (instructions.flatMap code).length ≤ fuel) :
    Evm.markJumps (Bytes.ofList (passed ++ instructions.flatMap code)) fuel passed.length
        (Bytes.ofList (noted ++ List.replicate (instructions.flatMap code).length 0)) =
      Bytes.ofList (noted ++ instructions.flatMap marks) := by
  -- Each instruction starts where the one before it ends, so what was passed is general.
  induction instructions generalizing passed noted fuel with
  | nil =>
      have hend : ¬ passed.length < (Bytes.ofList (passed ++ [])).size := by
        rw [Bytes.size_ofList, List.append_nil]
        exact Nat.lt_irrefl _
      cases fuel with
      | zero => rfl
      | succ fuel =>
          rw [List.flatMap_nil, Evm.markJumps, dif_neg hend]
          rfl
  | cons instruction rest ih =>
      obtain ⟨hfirst, hrest⟩ := List.forall_mem_cons.mp h
      have hlength : (instruction.code ++ rest.flatMap code).length =
          instruction.operand.length + 1 + (rest.flatMap code).length := List.length_append
      rw [List.flatMap_cons] at hfuel ⊢
      obtain ⟨fuel, rfl⟩ : ∃ less, fuel = less + 1 := ⟨fuel - 1, by omega⟩
      have hmarked : (noted ++ instruction.marks).length = (passed ++ instruction.code).length := by
        rw [List.length_append, List.length_append, hnoted, marks, code, List.length_cons,
          List.length_cons, List.length_replicate]
      have hothers := ih hrest hmarked (show (rest.flatMap code).length ≤ fuel by omega)
      rw [markJumps_code_append hfirst hnoted, ← List.append_assoc, hothers, List.flatMap_cons,
        List.append_assoc]

theorem jumpTable_flatMap_code {instructions : List Instruction}
    (h : ∀ instruction ∈ instructions, instruction.IsWhole) :
    Evm.jumpTable (Bytes.ofList (instructions.flatMap code)) =
      Bytes.ofList (instructions.flatMap marks) := by
  have hzeros : Bytes.zeros (instructions.flatMap code).length =
      Bytes.ofList (List.replicate (instructions.flatMap code).length 0) :=
    congrArg ByteArray.mk (List.toArray_replicate _ _).symm
  have hmarks := @markJumps_flatMap_code _ h [] [] rfl _ (Nat.le_refl _)
  rw [Evm.jumpTable, Bytes.size_ofList, hzeros]
  exact hmarks

end Assembly

namespace Piece

open Assembly

/-- A step of putting code together: a raw byte is no push, a push has at most 32 bytes, and
what goes to memory has its place there. -/
def IsStep : Piece → Prop
  | .raw bytes => ∃ byte, bytes = [byte] ∧ ¬ (0x60 ≤ byte ∧ byte < 0x80)
  | .push bytes => bytes.length ≤ 32
  | .mstore offset bytes =>
      ∀ index < Bytes.words bytes.length, offset.toNat + 32 * index < UInt64.size
  | .revertWith data | .returnWith data => data.length < UInt64.size
  | .number _ | .word _ | .sstore _ _ | .increment _ _ | .stop => True

/-- The instructions that a piece stands for. -/
def instructions : Piece → List Instruction
  | .raw bytes => bytes.map .plain
  | .push bytes => [.push bytes]
  | .number value => [.number value.toNat]
  | .word value => [.word value]
  | .mstore offset bytes => Instruction.stores offset.toNat bytes
  | .sstore slot value => [.word value, .number slot.toNat, .plain 0x55]
  | .increment slot delta =>
      [.number delta.toNat, .number slot.toNat, .plain 0x54, .plain 0x01, .number slot.toNat,
        .plain 0x55]
  | .stop => [.plain 0x00]
  | .revertWith data => Instruction.stores 0 data ++ [.number data.length, .number 0, .plain 0xfd]
  | .returnWith data => Instruction.stores 0 data ++ [.number data.length, .number 0, .plain 0xf3]

variable {piece : Piece}

theorem IsStep.isSound (h : piece.IsStep) : piece.isSound := by
  cases piece with
  | push bytes => exact decide_eq_true h
  | _ => rfl

theorem IsStep.code_eq (h : piece.IsStep) :
    piece.code = piece.instructions.flatMap Instruction.code := by
  cases piece with
  | raw bytes =>
      obtain ⟨byte, rfl, -⟩ := h
      rfl
  | push bytes => exact (List.append_nil _).symm
  | number value => exact (pushNumber_eq value).trans (List.append_nil _).symm
  | word value => exact (List.append_nil _).symm
  | mstore offset bytes => exact mstore_eq h
  | sstore slot value =>
      change Assembly.sstore slot value = _
      rw [Assembly.sstore, pushNumber_eq, List.append_assoc]
      rfl
  | increment slot delta =>
      change Assembly.increment slot delta = _
      rw [Assembly.increment, pushNumber_eq, pushNumber_eq]
      simp only [List.append_assoc]
      rfl
  | stop => rfl
  | revertWith data => exact endWith_eq 0xfd h
  | returnWith data => exact endWith_eq 0xf3 h

theorem IsStep.isWhole (h : piece.IsStep) :
    ∀ instruction ∈ piece.instructions, instruction.IsWhole := by
  have hnumber (value : UInt64) := Instruction.isWhole_number value.toNat_lt
  cases piece with
  | raw bytes =>
      obtain ⟨byte, rfl, hbyte⟩ := h
      exact List.forall_mem_singleton.mpr (Instruction.isWhole_plain hbyte)
  | push bytes => exact List.forall_mem_singleton.mpr (Instruction.isWhole_push h)
  | number value => exact List.forall_mem_singleton.mpr (hnumber value)
  | word value => exact List.forall_mem_singleton.mpr (Instruction.isWhole_word value)
  | mstore offset bytes => exact fun instruction => isWhole_of_mem_stores h
  | sstore slot value =>
      simp only [instructions, List.forall_mem_cons]
      exact ⟨Instruction.isWhole_word value, hnumber slot, Instruction.isWhole_plain (by decide),
        nofun⟩
  | increment slot delta =>
      simp only [instructions, List.forall_mem_cons]
      exact ⟨hnumber delta, hnumber slot, Instruction.isWhole_plain (by decide),
        Instruction.isWhole_plain (by decide), hnumber slot, Instruction.isWhole_plain (by decide),
        nofun⟩
  | stop => exact List.forall_mem_singleton.mpr (Instruction.isWhole_plain (by decide))
  | revertWith data => exact fun instruction => isWhole_of_mem_ending (by decide) h
  | returnWith data => exact fun instruction => isWhole_of_mem_ending (by decide) h

end Piece

open Assembly

/-- The code of steps, whatever they are given, reads from its start as the instructions that the
steps stand for, up to its very end, and the machine notes where jumps may go at the same
instructions. The push of a number has its value in the fewest bytes, none for zero and never a
zero byte at the front. What a step stores in memory it stores chunk by chunk, each filled up with
zeros to 32 bytes. -/
theorem assemble_scans_as_instructions (pieces : List Piece)
    (hsteps : ∀ piece ∈ pieces, piece.IsStep) :
    (∃ code, assemble? pieces = some code ∧
        scan? code = some (pieces.flatMap Piece.instructions) ∧
        Evm.jumpTable (Bytes.ofList code) =
          Bytes.ofList ((pieces.flatMap Piece.instructions).flatMap Instruction.marks)) ∧
      (∀ value : UInt64, ∃ bytes,
        (Piece.number value).instructions = [⟨Evm.Opcode.pushByte bytes.length, bytes⟩] ∧
          Bytes.toNat (Bytes.ofList bytes) = value.toNat ∧ bytes.length ≤ 8 ∧
          bytes.head? ≠ some 0 ∧ (value = 0 → bytes = []) ∧
          ∀ other, Bytes.toNat (Bytes.ofList other) = value.toNat → bytes.length ≤ other.length) ∧
      ∀ offset bytes, (Piece.mstore offset bytes).instructions =
        (List.range ((bytes.length + 31) / 32)).flatMap fun index =>
          let chunk := (bytes.drop (32 * index)).take 32
          [⟨0x7f, chunk ++ List.replicate (32 - chunk.length) 0⟩,
            .number (offset.toNat + 32 * index), ⟨0x52, []⟩] := by
  refine ⟨?_, ?_, ?_⟩
  · have hsound : pieces.all Piece.isSound := List.all_eq_true.mpr fun piece hpiece =>
      (hsteps piece hpiece).isSound
    have hcode : pieces.flatMap Piece.code =
        (pieces.flatMap Piece.instructions).flatMap Instruction.code := by
      rw [List.flatMap_assoc]
      exact List.flatMap_congr fun piece hpiece => (hsteps piece hpiece).code_eq
    have hwhole : ∀ instruction ∈ pieces.flatMap Piece.instructions, instruction.IsWhole := by
      intro instruction hmem
      obtain ⟨piece, hpiece, hmem⟩ := List.mem_flatMap.mp hmem
      exact (hsteps piece hpiece).isWhole instruction hmem
    refine ⟨_, if_pos hsound, ?_, ?_⟩
    · rw [hcode]
      exact scan?_flatMap_code hwhole
    · rw [hcode]
      exact jumpTable_flatMap_code hwhole
  · intro value
    have hvalue := Bytes.toNat_ofNatShort value.toNat
    rw [← Bytes.ofList_octets (Bytes.ofNatShort value.toNat)] at hvalue
    refine ⟨(Bytes.ofNatShort value.toNat).octets, rfl, hvalue,
      Instruction.length_number_le value.toNat_lt, Bytes.head?_ofNatShort _, ?_, ?_⟩
    · rintro rfl
      rfl
    · intro other hother
      exact Bytes.length_le_of_toNat_eq (Bytes.head?_ofNatShort _) (hvalue.trans hother.symm)
  · intro offset bytes
    refine List.flatMap_congr fun index _ => ?_
    have hlength : ((bytes.drop (32 * index)).take 32 ++
        List.replicate (32 - ((bytes.drop (32 * index)).take 32).length) 0).length = 32 := by
      rw [List.length_append, List.length_replicate, List.length_take]
      omega
    rw [Instruction.store, Instruction.push, hlength]
    rfl

/-- Bytes that look like places for jumps are one only where they are no data. -/
theorem scan_of_pushed_jump_places :
    let pieces : List Piece :=
      [.raw [0x5b], .push [0x5b, 0x60], .number 0, .mstore 64 [0x5b], .increment 1 300]
    (∀ piece ∈ pieces, piece.IsStep) ∧
      ∃ code, assemble? pieces = some code ∧
        scan? code = some
          [⟨0x5b, []⟩, ⟨0x61, [0x5b, 0x60]⟩, ⟨0x5f, []⟩,
            ⟨0x7f, 0x5b :: List.replicate 31 0⟩, ⟨0x60, [0x40]⟩, ⟨0x52, []⟩,
            ⟨0x61, [0x01, 0x2c]⟩, ⟨0x60, [0x01]⟩, ⟨0x54, []⟩, ⟨0x01, []⟩, ⟨0x60, [0x01]⟩,
            ⟨0x55, []⟩] ∧
        Evm.jumpTable (Bytes.ofList code) = Bytes.ofList (0x01 :: List.replicate 50 0) := by
  intro pieces
  have hsteps : ∀ piece ∈ pieces, piece.IsStep := by
    intro piece hmem
    simp only [pieces, List.mem_cons, List.not_mem_nil, or_false] at hmem
    rcases hmem with rfl | rfl | rfl | rfl | rfl
    · exact ⟨0x5b, rfl, by decide⟩
    · exact (by decide : 2 ≤ 32)
    · trivial
    · intro index hindex
      rw [Nat.lt_one_iff.mp hindex]
      decide
    · trivial
  obtain ⟨⟨code, hcode, hscan, hjumps⟩, -⟩ := assemble_scans_as_instructions pieces hsteps
  refine ⟨hsteps, code, hcode, hscan.trans ?_, hjumps.trans ?_⟩
  · decide +kernel
  · decide +kernel

end ForkReplay
