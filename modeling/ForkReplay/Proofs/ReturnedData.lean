import Mathlib.Algebra.Group.Nat.Defs
import ForkReplay.Proofs.BlockReplay
import ForkReplay.Proofs.Calls
import ForkReplay.Proofs.StraightCode

/-!
# Code that returns data

Code that is assembled to end with a byte string puts it into memory word by word and ends with
as many bytes as there are. A transaction that calls it comes to these bytes or runs out of gas,
and which of both depends on its gas alone.
-/

namespace ForkReplay

open Evm.Stage

namespace Assembly

theorem length_padWord {bytes : List UInt8} (h : bytes.length ≤ 32) :
    (padWord bytes).length = 32 := by
  rw [padWord, List.length_append, List.length_replicate]
  omega

theorem length_le_of_mem_chunks {bytes chunk : List UInt8} (h : chunk ∈ chunks bytes) :
    chunk.length ≤ 32 := by
  induction bytes using chunks.induct with
  | case1 =>
      rw [chunks, dif_pos rfl] at h
      cases h
  | case2 bytes hsome ih =>
      rw [chunks, dif_neg hsome, List.mem_cons] at h
      cases h with
      | inl hfirst =>
          rw [hfirst, List.length_take]
          exact Nat.min_le_left _ _
      | inr hrest => exact ih hrest

theorem length_chunks (bytes : List UInt8) : 32 * (chunks bytes).length < bytes.length + 32 := by
  induction bytes using chunks.induct with
  | case1 =>
      rw [chunks, dif_pos rfl]
      decide
  | case2 bytes hsome ih =>
      have hlength := List.length_pos_iff.mpr hsome
      rw [chunks, dif_neg hsome, List.length_cons]
      rw [List.length_drop] at ih
      omega

theorem dvd_length_flatMap_padWord {chunks : List (List UInt8)}
    (h : ∀ chunk ∈ chunks, chunk.length ≤ 32) : 32 ∣ (chunks.flatMap padWord).length := by
  induction chunks with
  | nil => exact Nat.dvd_zero 32
  | cons chunk chunks ih =>
      obtain ⟨hchunk, hrest⟩ := List.forall_mem_cons.mp h
      rw [List.flatMap_cons, List.length_append, length_padWord hchunk]
      exact Nat.dvd_add (Nat.dvd_refl 32) (ih hrest)

/-- The words that a byte string is stored in start with it. -/
theorem flatMap_padWord_chunks (bytes : List UInt8) :
    ∃ padding, (chunks bytes).flatMap padWord = bytes ++ padding := by
  induction bytes using chunks.induct with
  | case1 => exact ⟨[], by rw [chunks, dif_pos rfl]; rfl⟩
  | case2 bytes hsome ih =>
      obtain ⟨padding, hpadding⟩ := ih
      rw [chunks, dif_neg hsome, List.flatMap_cons, hpadding, padWord]
      by_cases hfull : 32 ≤ bytes.length
      · refine ⟨padding, ?_⟩
        rw [List.length_take, Nat.min_eq_left hfull, Nat.sub_self, List.replicate_zero,
          List.append_nil, ← List.append_assoc, List.take_append_drop]
      · -- Only the last chunk is filled up, and nothing follows it.
        have hlast := Nat.le_of_lt (Nat.lt_of_not_le hfull)
        rw [List.take_of_length_le hlast, List.drop_of_length_le hlast]
        exact ⟨_, List.append_assoc ..⟩

end Assembly

namespace Evm

variable {env : Env} {overlay : Overlay} {world : World} {f : Frame} {rest : List UInt8}

open Assembly (padWord storeWord storeChunks)

/-! ## Words in memory -/

/-- The price of one more word of memory. -/
def growthGas (words : Nat) : Nat := Gas.memory (words + 1) - Gas.memory words

theorem growthGas_add (words : Nat) :
    growthGas words + Gas.memory words = Gas.memory (words + 1) := by
  refine Nat.sub_add_cancel ?_
  unfold Gas.memory
  have hsquare : words * words ≤ (words + 1) * (words + 1) :=
    Nat.mul_le_mul (Nat.le_succ _) (Nat.le_succ _)
  omega

/-- Memory grows by the word that is stored right behind it. -/
theorem grow_word {words : Nat} (hsize : f.memory.size = 32 * words) :
    f.grow (32 * words) 32 =
      if f.gas < growthGas words then .error (.outOfGas .memoryLimit)
      else .ok { f with gas := f.gas - growthGas words, memory := f.memory ++ Bytes.zeros 32 } := by
  have hheld : f.memory.size / 32 = words := by omega
  have hneeded : Bytes.words (32 * words + 32) = words + 1 := by
    unfold Bytes.words
    omega
  have hzeros : 32 * (words + 1) - f.memory.size = 32 := by omega
  unfold Frame.grow
  dsimp only
  rw [hneeded, hheld, if_neg (Nat.not_succ_le_self words), hzeros]
  rfl

theorem offset_ofNat {value : Nat} (h : value < UInt64.size) :
    Frame.offset (Word.ofNat value) = .ok value := by
  have hvalue : (Word.ofNat value).toNat = value := by
    rw [Word.ofNat, BitVec.toNat_ofNat]
    exact Nat.mod_eq_of_lt (Nat.lt_trans h (by decide))
  rw [Frame.offset, Word.toOffset?, hvalue, if_pos h]

/-- The frame with more at the end of its memory. -/
def Frame.stored (f : Frame) (part : List UInt8) : Frame :=
  { f with memory := f.memory ++ Bytes.ofList part }

/-- A word is stored right behind the memory for the price of its growth. -/
theorem asks_mstore {words : Nat} {bytes : List UInt8} (hlength : bytes.length = 32)
    (hoffset : 32 * words < UInt64.size) (hsize : f.memory.size = 32 * words) :
    Asks env .mstore (growthGas words)
      ((f.pushed (Word.ofBytes (Bytes.ofList bytes))).pushed (Word.ofNat (32 * words)))
      (f.stored bytes) := by
  have hbytes : (Bytes.ofList bytes).size = 32 := (Bytes.size_ofList bytes).trans hlength
  have hstored : Bytes.store (f.memory ++ Bytes.zeros 32) (32 * words) (Bytes.ofList bytes) =
      f.memory ++ Bytes.ofList bytes := by
    rw [← hbytes]
    exact Bytes.store_at_end (hbytes ▸ hsize)
  have hexecute (gas : Nat) :
      execute env .mstore (((f.pushed (Word.ofBytes (Bytes.ofList bytes))).pushed
        (Word.ofNat (32 * words))).withGas gas) =
      if gas < growthGas words then .error (.outOfGas .memoryLimit)
      else .ok (.next ((f.stored bytes).withGas (gas - growthGas words))) := by
    have hgrow := @grow_word (f.withGas gas) words hsize
    change (do
      let start ← Frame.offset (Word.ofNat (32 * words))
      let f ← (f.withGas gas).grow start 32
      return Effect.next (f.write start (Word.ofBytes (Bytes.ofList bytes)).toBytes)) = _
    rw [offset_ofNat hoffset, Word.toBytes_ofBytes hbytes]
    change ((f.withGas gas).grow (32 * words) 32 >>= _) = _
    rw [hgrow]
    change (if gas < growthGas words then _ else _) >>= _ = _
    split
    next => rfl
    next =>
      exact congrArg (fun memory =>
        Except.ok (Effect.next { f with memory, gas := gas - growthGas words })) hstored
  refine ⟨rfl, fun gas => ?_, fun gas hless => ⟨.memoryLimit, ?_⟩⟩
  · rw [hexecute, if_neg (Nat.not_lt.mpr (Nat.le_add_right _ _)), Nat.add_sub_cancel_left]
  · rw [hexecute, if_pos hless]

/-- The price of storing a word behind the memory. -/
def storeGas (offset : UInt64) : Nat :=
  pushGas 32 + (pushGas (numberBytes offset).length + (3 + growthGas (offset.toNat / 32)))

/-- Code that stores a chunk puts it, filled up to a word, behind the memory. -/
theorem pays_storeWord (hfork : env.fork.has .shanghai) {offset : UInt64} {chunk : List UInt8}
    (hchunk : chunk.length ≤ 32) (hwhole : 32 ∣ offset.toNat) (hsize : f.memory.size = offset.toNat)
    (hahead : f.ahead = storeWord offset chunk ++ rest) (hroom : f.stack.length + 1 < stackLimit) :
    Pays env overlay world (storeGas offset) f
      ((f.past (storeWord offset chunk)).stored (padWord chunk)) := by
  have hlength := Assembly.length_padWord hchunk
  have hoffset : 32 * (offset.toNat / 32) = offset.toNat := Nat.mul_div_cancel' hwhole
  rw [storeWord, List.append_assoc, List.append_assoc] at hahead
  let word := (f.past (Assembly.pushBytes (padWord chunk))).pushed
    (Word.ofBytes (Bytes.ofList (padWord chunk)))
  let both := (word.past (Assembly.pushNumber offset)).pushed (Word.ofNat offset.toNat)
  have hword : Pays env overlay world (pushGas 32) f word :=
    hlength ▸ pays_push hfork hlength.le hahead (by omega)
  have hnumberAhead : word.ahead = Assembly.pushNumber offset ++ ([0x52] ++ rest) :=
    ahead_past hahead
  have hboth : Pays env overlay world (pushGas (numberBytes offset).length) word both :=
    pays_number hfork hnumberAhead hroom
  have hstoreAhead : both.ahead = 0x52 :: rest := ahead_past hnumberAhead
  have hasks : Asks env .mstore (growthGas (offset.toNat / 32)) (both.past [0x52])
      ((f.past (storeWord offset chunk)).stored (padWord chunk)) := by
    have hmstore := @asks_mstore env (f.past (storeWord offset chunk)) (offset.toNat / 32)
      (padWord chunk) hlength (hoffset.trans_lt offset.toNat_lt) (hsize.trans hoffset.symm)
    rw [hoffset] at hmstore
    rw [storeWord, past_append, past_append] at hmstore ⊢
    exact hmstore
  exact hword.trans (hboth.trans (hasks.pays hstoreAhead rfl (decide_eq_true (Nat.zero_le _))))

/-- The price of storing the given number of words, one behind the other. -/
def storesGas (offset : UInt64) : Nat → Nat
  | 0 => 0
  | count + 1 => storeGas offset + storesGas (offset + 32) count

theorem toNat_add_word {offset : UInt64} (h : offset.toNat + 32 < UInt64.size) :
    (offset + 32).toNat = offset.toNat + 32 := by
  rw [UInt64.toNat_add]
  exact Nat.mod_eq_of_lt h

theorem stored_append (f : Frame) (part more : List UInt8) :
    f.stored (part ++ more) = (f.stored part).stored more := by
  have hmemory : f.memory ++ Bytes.ofList (part ++ more) =
      f.memory ++ Bytes.ofList part ++ Bytes.ofList more := by
    apply Bytes.eq_of_octets
    simp only [Bytes.octets_append, Bytes.octets_ofList, List.append_assoc]
  exact congrArg (fun memory => { f with memory }) hmemory

/-- Code that stores chunks puts one behind the other into memory, each filled up to a word. -/
theorem pays_storeChunks (hfork : env.fork.has .shanghai) {chunks : List (List UInt8)}
    {offset : UInt64} (hchunks : ∀ chunk ∈ chunks, chunk.length ≤ 32)
    (hwhole : 32 ∣ offset.toNat) (hsize : f.memory.size = offset.toNat)
    (hfits : offset.toNat + 32 * chunks.length < UInt64.size)
    (hahead : f.ahead = storeChunks offset chunks ++ rest)
    (hroom : f.stack.length + 1 < stackLimit) :
    Pays env overlay world (storesGas offset chunks.length) f
      ((f.past (storeChunks offset chunks)).stored (chunks.flatMap padWord)) := by
  -- The offset of each chunk is where the memory ends, which is behind whole words.
  induction chunks generalizing offset f with
  | nil =>
      have hend : (f.past []).stored [] = f :=
        congrArg (fun memory => { f with memory }) ByteArray.append_empty
      rw [storeChunks, List.flatMap_nil, hend]
      exact .refl f
  | cons chunk chunks ih =>
      obtain ⟨hchunk, hrest⟩ := List.forall_mem_cons.mp hchunks
      rw [List.length_cons] at hfits
      rw [storeChunks, List.append_assoc] at hahead
      have hnext := @toNat_add_word offset (by omega)
      let middle := (f.past (storeWord offset chunk)).stored (padWord chunk)
      have hmiddle : middle.memory.size = (offset + 32).toNat := by
        change (f.memory ++ Bytes.ofList (padWord chunk)).size = _
        rw [ByteArray.size_append, hsize, hnext, Bytes.size_ofList, Assembly.length_padWord hchunk]
      rw [storeChunks, List.flatMap_cons, past_append, stored_append]
      exact (pays_storeWord hfork hchunk hwhole hsize hahead hroom).trans
        (@ih middle (offset + 32) hrest (by omega) hmiddle (by omega) (ahead_past hahead) hroom)

/-! ## The end -/

/-- Memory that is there is read without a price. -/
theorem output_of_stored {data padding : List UInt8} (hmemory : f.memory.octets = data ++ padding)
    (hwhole : 32 ∣ f.memory.size) (hlength : data.length < UInt64.size) :
    ((f.pushed (Word.ofNat data.length)).pushed (Word.ofNat 0)).output =
      .ok (Bytes.ofList data, f) := by
  have hread : f.memory.extract 0 (0 + data.length) = Bytes.ofList data := by
    rw [← Bytes.ofList_octets (f.memory.extract _ _), Bytes.octets_extract, hmemory, List.drop_zero,
      Nat.sub_zero, Nat.zero_add, List.take_left]
  have hheld : Bytes.words (0 + data.length) ≤ f.memory.size / 32 := by
    have hsize := congrArg List.length hmemory
    rw [Bytes.length_octets, List.length_append] at hsize
    unfold Bytes.words
    omega
  have hgrow : f.growRange (Word.ofNat 0) data.length = .ok (0, f) := by
    unfold Frame.growRange
    split
    next => rfl
    next =>
      rw [offset_ofNat (by decide)]
      change (f.grow 0 data.length >>= _) = _
      rw [Frame.grow, if_pos hheld]
      rfl
  change (Frame.offset (Word.ofNat data.length) >>= _) = _
  rw [offset_ofNat hlength]
  change (f.growRange (Word.ofNat 0) data.length >>= _) = _
  rw [hgrow]
  exact congrArg (fun output => Except.ok (output, f)) hread

/-- The price of putting data into memory and pushing where it is. -/
def dataGas (data : List UInt8) : Nat :=
  storesGas 0 (Assembly.chunks data).length +
    (pushGas (numberBytes (UInt64.ofNat data.length)).length + pushGas (numberBytes 0).length)

theorem storesGas_le {count : Nat} {offset : UInt64} (hwhole : 32 ∣ offset.toNat)
    (hfits : offset.toNat + 32 * count < UInt64.size) :
    storesGas offset count + Gas.memory (offset.toNat / 32) ≤
      9 * count + Gas.memory (offset.toNat / 32 + count) := by
  -- The prices of the growth add up to that of the whole memory.
  induction count generalizing offset with
  | zero => exact Nat.le_refl _
  | succ count ih =>
      have hnext := @toNat_add_word offset (by omega)
      have hrest := @ih (offset + 32) (by omega) (by omega)
      have hplace : (offset + 32).toNat / 32 = offset.toNat / 32 + 1 := by omega
      rw [hplace, Nat.add_right_comm] at hrest
      have hgrowth := growthGas_add (offset.toNat / 32)
      have hpush := pushGas_le 32
      have hnumber := pushGas_le (numberBytes offset).length
      rw [storesGas, storeGas, ← Nat.add_assoc _ count 1]
      omega

theorem dataGas_lt {data : List UInt8} (h : data.length < 2 ^ 32) : dataGas data < 2 ^ 46 := by
  have hcount : (Assembly.chunks data).length ≤ 2 ^ 27 := by
    have hchunks := Assembly.length_chunks data
    omega
  have hstores := @storesGas_le (Assembly.chunks data).length 0 (by decide) (by
    change 0 + 32 * _ < 18446744073709551616
    omega)
  have hmemory : Gas.memory (Assembly.chunks data).length ≤ Gas.memory (2 ^ 27) := by
    unfold Gas.memory
    have hsquare := Nat.mul_le_mul hcount hcount
    omega
  have hwhole : Gas.memory (2 ^ 27) = 3 * 2 ^ 27 + 2 ^ 45 := by decide
  have hlength := pushGas_le (numberBytes (UInt64.ofNat data.length)).length
  have hzero := pushGas_le (numberBytes 0).length
  change _ + 0 ≤ 9 * _ + Gas.memory (0 + _) at hstores
  rw [Nat.zero_add] at hstores
  unfold dataGas
  omega

/-- An instruction that ends a call with a range of the memory, whatever gas is left. -/
structure Closes (env : Env) (opcode : UInt8) (op : Opcode) (exit : Exit) : Prop where
  byte : Opcode.ofByte? opcode = some op
  since : env.fork.has op.since
  free : op.staticGas env.fork = 0
  ends : ∀ (overlay : Overlay) (world saved : World) {f after : Frame} {output : Bytes},
    f.output = .ok (output, after) → after.purpose = .call 0 0 →
    ∃ gas refund last, Step.ofEffect env overlay world saved (execute env op f) =
      .done { exit, output, gas, refund } last

theorem closes_return (env : Env) : Closes env 0xf3 .return .ok where
  byte := rfl
  since := decide_eq_true (Nat.zero_le _)
  free := rfl
  ends overlay world saved f after output houtput hpurpose := by
    refine ⟨after.gas, after.refund, world, ?_⟩
    have hexecute : execute env .return f = .ok (.finish after output) := by
      rw [execute, houtput]
      rfl
    rw [hexecute, Step.ofEffect, closeFinished, hpurpose]
    rfl

theorem closes_revert {env : Env} (hfork : env.fork.has .shanghai) :
    Closes env 0xfd .revert .revert where
  byte := rfl
  since := decide_eq_true (Nat.le_trans (by decide) (of_decide_eq_true hfork))
  free := rfl
  ends overlay world saved f after output houtput hpurpose := by
    refine ⟨after.gas, 0, after.saved, ?_⟩
    have hexecute : execute env .revert f = .ok (.revert after output) := by
      rw [execute, houtput]
      rfl
    rw [hexecute, Step.ofEffect]

/-- Data is put into memory, and its length and place are pushed, for a price. -/
theorem pays_data {opcode : UInt8} {data : List UInt8} (hfork : env.fork.has .shanghai)
    (hdata : data.length < 2 ^ 32) (hahead : f.ahead = Assembly.endWith opcode data)
    (hstack : f.stack = []) (hmemory : f.memory = Bytes.ofList []) :
    ∃ stored : Frame, Pays env overlay world (dataGas data) f
        ((stored.pushed (Word.ofNat data.length)).pushed (Word.ofNat 0)) ∧
      stored.ahead = [opcode] ∧ stored.purpose = f.purpose ∧ 32 ∣ stored.memory.size ∧
      ∃ padding, stored.memory.octets = data ++ padding := by
  obtain ⟨padding, hpadding⟩ := Assembly.flatMap_padWord_chunks data
  have hchunks : ∀ chunk ∈ Assembly.chunks data, chunk.length ≤ 32 :=
    fun _ => Assembly.length_le_of_mem_chunks
  have hcount := Assembly.length_chunks data
  have hfits : (0 : UInt64).toNat + 32 * (Assembly.chunks data).length < UInt64.size := by
    change 0 + _ < 18446744073709551616
    omega
  have hlength : (UInt64.ofNat data.length).toNat = data.length :=
    UInt64.toNat_ofNat_of_lt' (Nat.lt_trans hdata (by decide))
  rw [Assembly.endWith, Assembly.mstore, List.append_assoc, List.append_assoc] at hahead
  let stored := (f.past (storeChunks 0 (Assembly.chunks data))).stored
    ((Assembly.chunks data).flatMap padWord)
  have hoctets : stored.memory.octets = data ++ padding := by
    change (f.memory ++ Bytes.ofList _).octets = _
    rw [hmemory, Bytes.octets_append, Bytes.octets_ofList, Bytes.octets_ofList, List.nil_append,
      hpadding]
  let counted := (stored.past (Assembly.pushNumber (UInt64.ofNat data.length))).pushed
    (Word.ofNat data.length)
  have hstored : Pays env overlay world (storesGas 0 (Assembly.chunks data).length) f stored :=
    pays_storeChunks hfork hchunks (Nat.dvd_zero 32) (hmemory ▸ rfl) hfits hahead
      (by rw [hstack]; decide)
  have hstoredAhead : stored.ahead = Assembly.pushNumber (UInt64.ofNat data.length) ++
      (Assembly.pushNumber 0 ++ [opcode]) := ahead_past hahead
  have hcounted : Pays env overlay world
      (pushGas (numberBytes (UInt64.ofNat data.length)).length) stored counted := by
    have hpushed := @pays_number env overlay world stored _ hfork _ hstoredAhead
      (by change f.stack.length < _; rw [hstack]; decide)
    rwa [hlength] at hpushed
  have hcountedAhead : counted.ahead = Assembly.pushNumber 0 ++ [opcode] := ahead_past hstoredAhead
  have hplaced := @pays_number env overlay world counted _ hfork 0 hcountedAhead
    (by change f.stack.length + 1 < _; rw [hstack]; decide)
  have hwhole : 32 ∣ stored.memory.octets.length := by
    rw [hoctets, ← hpadding]
    exact Assembly.dvd_length_flatMap_padWord hchunks
  exact ⟨(stored.past (Assembly.pushNumber (UInt64.ofNat data.length))).past
    (Assembly.pushNumber 0), hstored.trans (hcounted.trans hplaced), ahead_past hcountedAhead, rfl,
    Bytes.length_octets stored.memory ▸ hwhole, padding, hoctets⟩

/-- A frame with enough gas ends as it is meant to, and one with less is out of gas. -/
def Result.Covered (result : Result) (needed gas : Nat) (exit : Exit) (output : Bytes) : Prop :=
  if needed ≤ gas then ∃ left refund, result = { exit, output, gas := left, refund }
  else ∃ cause, result = .halted (.outOfGas cause)

theorem Result.Covered.tells {result : Result} {needed gas : Nat} {exit : Exit} {output : Bytes}
    {ended exhausted : Prop} (h : result.Covered needed gas exit output)
    (hended : ∀ left refund, result = { exit, output, gas := left, refund } → ended)
    (hexhausted : ∀ cause, result = .halted (.outOfGas cause) → exhausted) :
    if needed ≤ gas then ended else exhausted := by
  unfold Result.Covered at h
  by_cases hcovered : needed ≤ gas
  · rw [if_pos hcovered] at h ⊢
    obtain ⟨left, refund, hresult⟩ := h
    exact hended left refund hresult
  · rw [if_neg hcovered] at h ⊢
    obtain ⟨cause, hresult⟩ := h
    exact hexhausted cause hresult

theorem Result.Covered.shift {result : Result} {needed limit paid : Nat} {exit : Exit}
    {output : Bytes} (h : result.Covered needed (limit - paid) exit output) (hpaid : paid ≤ limit) :
    result.Covered (paid + needed) limit exit output := by
  unfold Result.Covered at h ⊢
  simpa only [Nat.le_sub_iff_add_le' hpaid] using h

/-- Code that ends with data has it as its output if there is the gas for that. -/
theorem leads_endWith {opcode : UInt8} {op : Opcode} {exit : Exit} {data : List UInt8}
    (hcloses : Closes env opcode op exit) (hfork : env.fork.has .shanghai)
    (hdata : data.length < 2 ^ 32) (hahead : f.ahead = Assembly.endWith opcode data)
    (hpurpose : f.purpose = .call 0 0) (hstack : f.stack = [])
    (hmemory : f.memory = Bytes.ofList []) (gas : Nat) :
    ∃ result last, Leads env overlay (.next ⟨f.withGas gas, [], world⟩) (.done result last) ∧
      result.Covered (dataGas data) gas exit (Bytes.ofList data) := by
  obtain ⟨stored, hpays, hend, hkept, hwhole, padding, hpadding⟩ :=
    @pays_data env overlay world f opcode data hfork hdata hahead hstack hmemory
  unfold Result.Covered
  split
  next hcovered =>
    obtain ⟨left, rfl⟩ := Nat.exists_eq_add_of_le hcovered
    have houtput := @output_of_stored ((stored.past [opcode]).withGas left) data padding hpadding
      hwhole (Nat.lt_trans hdata (by decide))
    obtain ⟨gas, refund, last, hends⟩ :=
      hcloses.ends overlay world stored.saved houtput (hkept.trans hpurpose)
    refine ⟨_, last, (hpays.affords left).trans (.next ?_), gas, refund, rfl⟩
    have hstep := @step_of_covered env overlay world
      ((stored.pushed (Word.ofNat data.length)).pushed (Word.ofNat 0)) [] op opcode hend
      hcloses.byte hcloses.since left
    rw [hcloses.free, Nat.zero_add] at hstep
    rw [hstep]
    exact hends ▸ .refl _
  next hless =>
    obtain ⟨cause, hleads⟩ := hpays.exhausts gas (Nat.lt_of_not_le hless)
    exact ⟨_, _, hleads, cause, rfl⟩

/-! ## The call -/

variable {config : Config} {block : BlockEnv} {tx : Transaction} {db : Database}
  {callee : Address}

/-- A call without value of code that ends with data comes to the data or runs out of gas. -/
theorem attains_runTransaction_endWith {opcode : UInt8} {op : Opcode} {exit : Exit}
    {data : List UInt8} (hanswers : db.Answers)
    (hpassed : Passed config block tx (db.account tx.caller))
    (hcloses : Closes (environment config block tx) opcode op exit)
    (hfork : config.fork.has .shanghai) (hdata : data.length < 2 ^ 32)
    (hcallee : tx.callee = some callee) (hvalue : tx.value = 0)
    (hordinary : callee ∉ Precompile.addresses config.fork)
    (hcode : (db.account callee).code = .plain (Bytes.ofList (Assembly.endWith opcode data))) :
    db.Attains (runTransaction config block tx (intrinsicGas config.fork tx)) fun value _ =>
      ∃ result settlement, value.1 = .ofResult result settlement ∧
        result.Covered (dataGas data)
          (tx.gasLimit.toNat - (intrinsicGas config.fork tx).initial) exit (Bytes.ofList data) := by
  have hsome : (Bytes.ofList (Assembly.endWith opcode data)).size ≠ 0 := by
    rw [Bytes.size_ofList, Assembly.endWith, List.length_append]
    exact Nat.succ_ne_zero _
  have hown : (db.account callee).ownsCode := by
    rw [Account.ownsCode, hcode]
    simp [Code.isEmpty, Code.delegate?, hsome]
  have hother : tx.caller ≠ callee := by
    intro hsame
    exact (checkCaller_eq_ok.mp hpassed.accepted).1 (hsame ▸ hown)
  rw [runTransaction_eq]
  refine (attains_prepare hanswers hpassed.accepted).bind ?_
  rintro ⟨world, existing⟩ prepared hprepared ⟨hworld, -, -⟩
  have hunchanged : (world.seen prepared callee).account = db.account callee := by
    rw [World.seen_of_extends hprepared, hworld.account callee hother fun _ => hown]
  have hcalled := @attains_called world config block tx prepared callee
    (Bytes.ofList (Assembly.endWith opcode data)) (intrinsicGas config.fork tx) existing
    (fun result _ _ => result.Covered (dataGas data)
      (tx.gasLimit.toNat - (intrinsicGas config.fork tx).initial) exit (Bytes.ofList data))
    (hanswers.of_extends hprepared) hcallee hvalue hordinary (hunchanged ▸ hcode) hsome ?_
  · refine hcalled.mono ?_
    rintro value after - ⟨result, settlement, last, ran, hresult, hcovered, -⟩
    exact ⟨result, settlement, hresult, hcovered⟩
  · intro saved moved opened _ _ _ _
    obtain ⟨result, last, hleads, hcovered⟩ :=
      @leads_endWith (environment config block tx) opened.overlay moved
        (.ofCall tx callee (Bytes.ofList (Assembly.endWith opcode data)) 0 saved) opcode op exit
        data hcloses hfork hdata (Bytes.octets_ofList _) rfl rfl rfl
        (tx.gasLimit.toNat - (intrinsicGas config.fork tx).initial)
    exact .of_leads hleads (.done hcovered)

end Evm

namespace Executor

open Evm in
/-- As the target of a replay such a call ends as the code is meant to, or for lack of gas. -/
theorem run_executeTarget_endWith {executor : Executor} {db : Database} {target : BlockTransaction}
    {tx : Transaction} {callee : Address} {opcode : UInt8} {op : Opcode} {exit : Exit}
    {data : List UInt8} (hanswers : db.Answers) (hpayload : target.payload = .executable tx)
    (hpassed : Passed executor.config executor.block tx (db.account tx.caller))
    (hcloses : Closes (environment executor.config executor.block tx) opcode op exit)
    (hfork : executor.config.fork.has .shanghai) (hdata : data.length < 2 ^ 32)
    (hcallee : tx.callee = some callee) (hvalue : tx.value = 0)
    (hordinary : callee ∉ Precompile.addresses executor.config.fork)
    (hcode : (db.account callee).code = .plain (Bytes.ofList (Assembly.endWith opcode data))) :
    ∃ result settlement, (db.run (executor.executeTarget target)).1 =
        .ok (.ofResult (.ofResult result settlement)) ∧
      result.Covered ((intrinsicGas executor.config.fork tx).initial + dataGas data)
        tx.gasLimit.toNat exit (Bytes.ofList data) := by
  obtain ⟨final, world, after, -, ⟨result, settlement, hfinal, hcovered⟩, hrun⟩ :=
    run_transact_of_attains hpassed (attains_runTransaction_endWith hanswers hpassed hcloses hfork
      hdata hcallee hvalue hordinary hcode)
  cases hfinal
  refine ⟨result, settlement, ?_, hcovered.shift (checkIntrinsicGas_eq_ok.mp hpassed.covered).1⟩
  rw [run_executeTarget_of_executable db hpayload, attempt, hrun]
  rfl

/-- A valid transaction without value that calls code assembled to return or to revert with data
comes to that data once its gas limit covers two prices: what it costs before the code runs, which
is the same for every gas limit, and a price that depends on the data alone. With less gas it runs
out, and it never ends in any other way. -/
theorem target_comes_to_data_if_covered (executor : Executor) (db : Database)
    (target : BlockTransaction) {tx : Transaction} {callee : Address} {data : List UInt8}
    (hdata : data.length < 2 ^ 32) (hanswers : db.Answers)
    (hfork : executor.config.fork.has .shanghai) (hpayload : target.payload = .executable tx)
    (hpassed : Evm.Passed executor.config executor.block tx (db.account tx.caller))
    (hcallee : tx.callee = some callee) (hvalue : tx.value = 0)
    (hordinary : callee ∉ Evm.Precompile.addresses executor.config.fork) :
    Evm.dataGas data < 2 ^ 46 ∧
      (∀ gasLimit, Evm.intrinsicGas executor.config.fork { tx with gasLimit } =
        Evm.intrinsicGas executor.config.fork tx) ∧
      ((db.account callee).code = .plain (Bytes.ofList (Assembly.returnWith data)) →
        ∃ gasUsed,
          if (Evm.intrinsicGas executor.config.fork tx).initial + Evm.dataGas data ≤
              tx.gasLimit.toNat then
            ∃ gasRefunded, (db.run (executor.executeTarget target)).1 =
              .ok (.success gasUsed gasRefunded (Bytes.ofList data) none)
          else
            ∃ cause, (db.run (executor.executeTarget target)).1 =
              .ok (.halt gasUsed (Evm.Halt.outOfGas cause).name)) ∧
      ((db.account callee).code = .plain (Bytes.ofList (Assembly.revertWith data)) →
        ∃ gasUsed,
          if (Evm.intrinsicGas executor.config.fork tx).initial + Evm.dataGas data ≤
              tx.gasLimit.toNat then
            (db.run (executor.executeTarget target)).1 =
              .ok (.revert gasUsed (Abi.revertMessage (Bytes.ofList data)))
          else
            ∃ cause, (db.run (executor.executeTarget target)).1 =
              .ok (.halt gasUsed (Evm.Halt.outOfGas cause).name)) := by
  refine ⟨Evm.dataGas_lt hdata, fun _ => rfl, fun hcode => ?_, fun hcode => ?_⟩
  · obtain ⟨result, settlement, hrun, hcovered⟩ := run_executeTarget_endWith hanswers hpayload
      hpassed (Evm.closes_return _) hfork hdata hcallee hvalue hordinary hcode
    refine ⟨UInt64.ofNat (settlement.spent - settlement.refunded),
      hcovered.tells (fun left refund hresult => ?_) fun cause hresult => ⟨cause, ?_⟩⟩
    · refine ⟨UInt64.ofNat settlement.refunded, ?_⟩
      rw [hrun, hresult]
      rfl
    · rw [hrun, hresult]
      rfl
  · obtain ⟨result, settlement, hrun, hcovered⟩ := run_executeTarget_endWith hanswers hpayload
      hpassed (Evm.closes_revert hfork) hfork hdata hcallee hvalue hordinary hcode
    refine ⟨UInt64.ofNat (settlement.spent - settlement.refunded),
      hcovered.tells (fun left refund hresult => ?_) fun cause hresult => ⟨cause, ?_⟩⟩
    · rw [hrun, hresult]
      rfl
    · rw [hrun, hresult]
      rfl

/-- Code that returns one byte, called with ample gas, comes to that byte, and code that reverts
with it tells it. -/
theorem target_comes_to_one_byte :
    let executor : Executor := { config := Sample.config, block := Sample.block 1 }
    let tx := Sample.transaction 0xa11ce 0 (some 0xc0de) (Bytes.ofList []) 0
    let target : BlockTransaction := { hash := 1, sender := 0xa11ce, payload := .executable tx }
    let returning := Sample.codeAt 0xc0de (.plain (Bytes.ofList (Assembly.returnWith [0x2a])))
    let reverting := Sample.codeAt 0xc0de (.plain (Bytes.ofList (Assembly.revertWith [0x2a])))
    (∃ gasUsed gasRefunded, (returning.run (executor.executeTarget target)).1 =
      .ok (.success gasUsed gasRefunded (Bytes.ofList [0x2a]) none)) ∧
    ∃ gasUsed, (reverting.run (executor.executeTarget target)).1 =
      .ok (.revert gasUsed (Abi.revertMessage (Bytes.ofList [0x2a]))) := by
  intro executor tx target returning reverting
  have hpassed (db : Database) (hcaller : db.account 0xa11ce = {}) :
      Evm.Passed executor.config executor.block tx (db.account tx.caller) := by
    change Evm.Passed _ _ _ (db.account 0xa11ce)
    rw [hcaller]
    exact ⟨by decide +kernel, by decide +kernel, by decide +kernel, by decide +kernel⟩
  have hcovered : (Evm.intrinsicGas executor.config.fork tx).initial + Evm.dataGas [0x2a] ≤
      tx.gasLimit.toNat := by
    decide +kernel
  have hdata : [(0x2a : UInt8)].length < 2 ^ 32 := by decide
  have hordinary : (0xc0de : Address) ∉ Evm.Precompile.addresses executor.config.fork := by
    decide +kernel
  obtain ⟨gasUsed, hreturned⟩ := (executor.target_comes_to_data_if_covered returning target hdata
    (fun _ _ _ => rfl) rfl rfl (hpassed returning (by decide +kernel)) rfl rfl hordinary).2.2.1
    (by decide +kernel)
  obtain ⟨gasUsed', hreverted⟩ := (executor.target_comes_to_data_if_covered reverting target hdata
    (fun _ _ _ => rfl) rfl rfl (hpassed reverting (by decide +kernel)) rfl rfl hordinary).2.2.2
    (by decide +kernel)
  rw [if_pos hcovered] at hreturned hreverted
  exact ⟨⟨gasUsed, hreturned⟩, gasUsed', hreverted⟩

end Executor

end ForkReplay
