import ForkReplay.Assembly
import ForkReplay.Proofs.CallStages
import ForkReplay.Proofs.RawRevert

/-!
# Straight code

Code that runs from one instruction to the next has a price. With as much gas it gets to its end,
and with less it runs out of gas on the way, whatever it was that needed the gas. The prices of
pieces of code add up.
-/

namespace ForkReplay

open Evm.Stage

namespace Bytes

variable {bytes part : Bytes} {start : Nat}

theorem eq_of_octets {other : Bytes} (h : bytes.octets = other.octets) : bytes = other := by
  rw [← ofList_octets bytes, h, ofList_octets]

theorem octets_append (bytes other : Bytes) :
    (bytes ++ other).octets = bytes.octets ++ other.octets := by
  unfold octets
  rw [ByteArray.data_append, Array.toList_append]

theorem octets_extract (bytes : Bytes) (start stop : Nat) :
    octets (bytes.extract start stop) = (bytes.octets.drop start).take (stop - start) := by
  unfold octets
  rw [ByteArray.data_extract, Array.toList_extract, List.extract_eq_take_drop]

theorem getElem?_octets (bytes : Bytes) (position : Nat) :
    bytes.octets[position]? = bytes[position]? := by
  unfold octets
  rw [Array.getElem?_toList]
  rfl

/-- A window on bytes that are there shows them. -/
theorem window_of_drop {shown rest : List UInt8} (h : bytes.octets.drop start = shown ++ rest) :
    bytes.window start shown.length = ofList shown := by
  have hpart : bytes.extract start (start + shown.length) = ofList shown := by
    rw [← ofList_octets (bytes.extract _ _), octets_extract, h, Nat.add_sub_cancel_left,
      List.take_left]
  unfold window
  dsimp only
  rw [hpart, if_pos (size_ofList shown)]

/-- Bytes that are stored over zeros at the end of others. -/
theorem store_at_end (h : bytes.size = start) :
    store (bytes ++ zeros part.size) start part = bytes ++ part := by
  have hsize : (bytes ++ zeros part.size).data.size = start + part.size := by
    change (bytes ++ zeros part.size).size = _
    rw [ByteArray.size_append, size_zeros, h]
  have hlength : min part.size (part.data.size - 0) = part.size := Nat.min_self _
  rw [store, ByteArray.copySlice_eq_append, ByteArray.extract_append_eq_left h.symm, Nat.zero_add,
    ByteArray.extract_zero_size, hsize, hlength, ByteArray.extract_same, ByteArray.append_empty]

/-- Leading zero bytes do not count. -/
theorem toNat_dropWhile (bytes : List UInt8) :
    toNat (ofList (bytes.dropWhile fun byte => byte == 0)) = toNat (ofList bytes) := by
  induction bytes with
  | nil => rfl
  | cons byte bytes ih =>
      rw [List.dropWhile_cons]
      split
      next hzero =>
        rw [ih, eq_of_beq hzero]
        simp [toNat, ofList]
      next => rfl

end Bytes

namespace Evm

variable {env : Env} {overlay : Overlay}

/-! ## Runs -/

/-- The machine gets from one step to a later one by instructions alone. -/
inductive Leads (env : Env) (overlay : Overlay) : Step → Step → Prop
  | refl (s : Step) : Leads env overlay s s
  | next {m : Machine} {s : Step} (rest : Leads env overlay (step env overlay m) s) :
      Leads env overlay (.next m) s

theorem Leads.trans {first second third : Step} (h : Leads env overlay first second)
    (h' : Leads env overlay second third) : Leads env overlay first third := by
  induction h with
  | refl => exact h'
  | next _ ih => exact .next (ih h')

/-- A run that has fuel for all steps that may follow has it at a later step as well. -/
theorem Leads.run_eq {first last : Step} (h : Leads env overlay first last) {fuel : Nat}
    (hfuel : first.rounds ≤ fuel) : ∃ left, last.rounds ≤ left ∧
      run env fuel overlay first = run env left overlay last := by
  induction h generalizing fuel with
  | refl => exact ⟨fuel, hfuel, rfl⟩
  | @next m last _ ih =>
      have hspent := (spends_step env overlay m).rounds
      obtain ⟨fuel, rfl⟩ : ∃ less, fuel = less + 1 := ⟨fuel - 1, by omega⟩
      exact ih (by omega)

end Evm

namespace Database

open Evm

variable {env : Env} {db : Database} {post : Result → World → Database → Prop}

/-- A run with fuel for all steps that may follow ends as wanted, and has only looked things up. -/
def Runs (db : Database) (env : Env) (first : Step) (post : Result → World → Database → Prop) :
    Prop :=
  ∀ fuel, first.rounds ≤ fuel → ∃ result last after, after.Extends db ∧
    db.resume (Evm.run env fuel db.overlay first) = (.ok (result, last), after) ∧
      post result last after

theorem Runs.done {result : Result} {last : World} (h : post result last db) :
    db.Runs env (.done result last) post := by
  intro fuel _
  rw [run_done]
  exact ⟨result, last, db, .refl db, rfl, h⟩

theorem Runs.of_leads {first next : Step} (hleads : Leads env db.overlay first next)
    (h : db.Runs env next post) : db.Runs env first post := by
  intro fuel hfuel
  obtain ⟨left, hleft, hrun⟩ := hleads.run_eq hfuel
  rw [hrun]
  exact h left hleft

theorem Runs.step {m : Machine} (h : db.Runs env (Evm.step env db.overlay m) post) :
    db.Runs env (.next m) post :=
  .of_leads (.next (.refl _)) h

/-- On a database that answers, an access is performed once what it needs is at hand. -/
theorem Runs.access (hanswers : db.Answers) {what : Access} {m : Machine}
    (h : ∀ after : Database, after.Extends db → what.missing? after.overlay m = none →
      after.Runs env (perform env after.overlay what m) post) :
    db.Runs env (.access what m) post := by
  intro fuel hfuel
  have hpositive : 0 < (Step.access what m).rounds := by
    simp only [Step.rounds, Step.weight]
    omega
  obtain ⟨fuel, rfl⟩ : ∃ less, fuel = less + 1 := ⟨fuel - 1, by omega⟩
  obtain ⟨middle, hmiddle, hnone, hsupply⟩ :=
    @Answers.resume_supply db (fun overlay => what.missing? overlay m) hanswers
      Access.lacks_of_missing? 2
  have hspent := (spends_perform env middle.overlay what m).rounds
  obtain ⟨result, last, after, hafter, hrun, hpost⟩ :=
    h middle hmiddle (hnone (settles_missing what m)) fuel (by omega)
  rw [run_access, resume_bind, hsupply]
  exact ⟨result, last, after, hafter.trans hmiddle, hrun, hpost⟩

theorem Runs.attains {first : Step} {fuel : Nat} (h : db.Runs env first post)
    (hfuel : first.rounds ≤ fuel) :
    db.Attains (runMachine env fuel first) fun value after => post value.1 value.2 after := by
  obtain ⟨result, last, after, hafter, hrun, hpost⟩ := h fuel hfuel
  exact .keeping hafter hrun hpost

end Database

namespace Evm

variable {env : Env} {overlay : Overlay} {world : World} {f g h : Frame} {price more gas : Nat}
  {rest : List UInt8}

/-! ## Prices -/

/-- The same frame with another amount of gas. -/
def Frame.withGas (f : Frame) (gas : Nat) : Frame := { f with gas }

/-- For a price, whatever gas there is beyond it, code takes a frame to another one. With less
gas the frame runs out of it. -/
structure Pays (env : Env) (overlay : Overlay) (world : World) (price : Nat) (f g : Frame) :
    Prop where
  saved : g.saved = f.saved
  affords : ∀ gas, Leads env overlay (.next ⟨f.withGas (price + gas), [], world⟩)
    (.next ⟨g.withGas gas, [], world⟩)
  exhausts : ∀ gas < price, ∃ cause, Leads env overlay (.next ⟨f.withGas gas, [], world⟩)
    (.done (.halted (.outOfGas cause)) f.saved)

theorem Pays.refl (f : Frame) : Pays env overlay world 0 f f where
  saved := rfl
  affords gas := by
    rw [Nat.zero_add]
    exact .refl _
  exhausts gas h := absurd h (Nat.not_lt_zero gas)

/-- The prices of two pieces of code add up. -/
theorem Pays.trans (hfirst : Pays env overlay world price f g)
    (hsecond : Pays env overlay world more g h) : Pays env overlay world (price + more) f h where
  saved := hsecond.saved.trans hfirst.saved
  affords gas := by
    rw [Nat.add_assoc]
    exact (hfirst.affords (more + gas)).trans (hsecond.affords gas)
  exhausts gas hless := by
    by_cases hfails : gas < price
    · exact hfirst.exhausts gas hfails
    · obtain ⟨left, rfl⟩ := Nat.exists_eq_add_of_le (Nat.le_of_not_lt hfails)
      obtain ⟨cause, hleads⟩ := hsecond.exhausts left (by omega)
      rw [hfirst.saved] at hleads
      exact ⟨cause, (hfirst.affords left).trans hleads⟩

/-! ## Instructions -/

/-- The code from the next instruction on. -/
def Frame.ahead (f : Frame) : List UInt8 := f.code.octets.drop f.pc

/-- The frame behind a part of its code. -/
def Frame.past (f : Frame) (part : List UInt8) : Frame := { f with pc := f.pc + part.length }

theorem past_append (f : Frame) (part more : List UInt8) :
    f.past (part ++ more) = (f.past part).past more := by
  unfold Frame.past
  rw [List.length_append, Nat.add_assoc]

theorem ahead_past {part : List UInt8} (h : f.ahead = part ++ rest) :
    (f.past part).ahead = rest := by
  change f.code.octets.drop (f.pc + part.length) = rest
  rw [← List.drop_drop]
  exact (congrArg (List.drop part.length) h).trans List.drop_left

theorem byte_of_ahead {byte : UInt8} (h : f.ahead = byte :: rest) :
    f.code[f.pc]?.getD 0 = byte := by
  have hhead : f.ahead[0]? = some byte := by rw [h, List.getElem?_cons_zero]
  rw [Frame.ahead, List.getElem?_drop, Nat.add_zero, Bytes.getElem?_octets] at hhead
  rw [hhead, Option.getD_some]

/-- What the effect of an instruction makes of a frame for which none waits. -/
def Step.ofEffect (env : Env) (overlay : Overlay) (world saved : World) : Except Halt Effect → Step
  | .error cause => .done (.halted cause) saved
  | .ok (.next f) => .next ⟨f, [], world⟩
  | .ok (.access what f) => .access what ⟨f, [], world⟩
  | .ok (.finish f output) =>
      conclude [] f.purpose (closeFinished env overlay f output world).1
        (closeFinished env overlay f output world).2
  | .ok (.revert f output) => .done { exit := .revert, output, gas := f.gas } f.saved

/-- A frame that cannot pay the static price of its instruction is out of gas. -/
theorem step_of_lt {op : Opcode} {byte : UInt8} (hahead : f.ahead = byte :: rest)
    (hop : Opcode.ofByte? byte = some op) (hless : gas < op.staticGas env.fork) :
    step env overlay ⟨f.withGas gas, [], world⟩ =
      .done (.halted (.outOfGas .basic)) f.saved := by
  unfold step Frame.withGas
  dsimp only
  rw [byte_of_ahead hahead, hop]
  dsimp only
  rw [if_pos hless]
  rfl

/-- A frame that pays the static price of its instruction carries it out. -/
theorem step_of_covered {op : Opcode} {byte : UInt8} (hahead : f.ahead = byte :: rest)
    (hop : Opcode.ofByte? byte = some op) (hsince : env.fork.has op.since) (gas : Nat) :
    step env overlay ⟨f.withGas (op.staticGas env.fork + gas), [], world⟩ =
      .ofEffect env overlay world f.saved (execute env op ((f.past [byte]).withGas gas)) := by
  unfold step Frame.withGas
  dsimp only
  rw [byte_of_ahead hahead, hop]
  dsimp only
  rw [if_neg (Nat.not_lt.mpr (Nat.le_add_right _ _)), hsince, Bool.not_true,
    if_neg Bool.false_ne_true, Nat.add_sub_cancel_left]
  split
  all_goals
    next heffect => exact congrArg (Step.ofEffect env overlay world f.saved) heffect.symm

/-- What an instruction asks for beyond its static price. -/
structure Asks (env : Env) (op : Opcode) (extra : Nat) (f g : Frame) : Prop where
  saved : g.saved = f.saved
  affords : ∀ gas, execute env op (f.withGas (extra + gas)) = .ok (.next (g.withGas gas))
  exhausts : ∀ gas < extra, ∃ cause, execute env op (f.withGas gas) = .error (.outOfGas cause)

/-- An instruction takes its static price and what it asks for beyond. -/
theorem Asks.pays {op : Opcode} {byte : UInt8} {extra : Nat}
    (hasks : Asks env op extra (f.past [byte]) g) (hahead : f.ahead = byte :: rest)
    (hop : Opcode.ofByte? byte = some op) (hsince : env.fork.has op.since) :
    Pays env overlay world (op.staticGas env.fork + extra) f g where
  saved := hasks.saved
  affords gas := by
    refine .next ?_
    rw [Nat.add_assoc, step_of_covered hahead hop hsince, hasks.affords]
    exact .refl _
  exhausts gas hless := by
    by_cases hstatic : gas < op.staticGas env.fork
    · refine ⟨.basic, .next ?_⟩
      rw [step_of_lt hahead hop hstatic]
      exact .refl _
    · obtain ⟨left, rfl⟩ := Nat.exists_eq_add_of_le (Nat.le_of_not_lt hstatic)
      obtain ⟨cause, hexecute⟩ := hasks.exhausts left (by omega)
      refine ⟨cause, .next ?_⟩
      rw [step_of_covered hahead hop hsince, hexecute]
      exact .refl _

/-! ## Pushes -/

theorem Opcode.ofByte?_pushByte :
    ∀ count : Fin 33, Opcode.ofByte? (Opcode.pushByte count) = some (.push count) := by decide

/-- The price of a push of the given number of bytes. -/
def pushGas (count : Nat) : Nat := if count = 0 then 2 else 3

theorem pushGas_le (count : Nat) : pushGas count ≤ 3 := by
  unfold pushGas
  split
  next => decide
  next => decide

/-- The frame with a word on its stack. -/
def Frame.pushed (f : Frame) (word : Word) : Frame := { f with stack := word :: f.stack }

theorem has_since_push {fork : HardFork} (h : fork.has .shanghai) (count : Fin 33) :
    fork.has (Opcode.push count).since := by
  change fork.has (if count = 0 then .shanghai else .frontier)
  split
  next => exact h
  next => exact decide_eq_true (Nat.zero_le _)

/-- A push of at most 32 bytes pushes their value, which is zero for none. -/
theorem pays_push (hfork : env.fork.has .shanghai) {bytes : List UInt8}
    (hlength : bytes.length ≤ 32) (hahead : f.ahead = Assembly.pushBytes bytes ++ rest)
    (hroom : f.stack.length < stackLimit) :
    Pays env overlay world (pushGas bytes.length) f
      ((f.past (Assembly.pushBytes bytes)).pushed (Word.ofBytes (Bytes.ofList bytes))) := by
  let count : Fin 33 := ⟨bytes.length, by omega⟩
  let passed := f.past [Opcode.pushByte bytes.length]
  have hword : passed.immediate count = Word.ofBytes (Bytes.ofList bytes) := by
    have hrest : passed.ahead = bytes ++ rest := ahead_past hahead
    exact congrArg Word.ofBytes (Bytes.window_of_drop hrest)
  have hasks : Asks env (.push count) 0 passed
      ((passed.past bytes).pushed (Word.ofBytes (Bytes.ofList bytes))) := by
    refine ⟨rfl, fun gas => ?_, fun gas h => absurd h (Nat.not_lt_zero gas)⟩
    have hpush : (passed.withGas gas).push (passed.immediate count) =
        .ok ((passed.withGas gas).pushed (passed.immediate count)) :=
      if_neg (Nat.not_le.mpr hroom)
    rw [Nat.zero_add]
    change (do
      let f ← (passed.withGas gas).push (passed.immediate count)
      Except.ok (Effect.next { f with pc := f.pc + bytes.length })) = _
    rw [hpush, hword]
    rfl
  have hstatic : (Opcode.push count).staticGas env.fork = pushGas bytes.length := by
    simp only [Opcode.staticGas, pushGas, count, Fin.ext_iff, Fin.val_zero]
  have hend : f.past (Assembly.pushBytes bytes) = passed.past bytes := past_append f [_] bytes
  rw [← hstatic, hend]
  exact hasks.pays hahead (Opcode.ofByte?_pushByte count) (has_since_push hfork count)

/-- The bytes of a number without leading zeros. -/
def numberBytes (value : UInt64) : List UInt8 :=
  (Bytes.ofNat 8 value.toNat).octets.dropWhile fun byte => byte == 0

theorem length_numberBytes (value : UInt64) : (numberBytes value).length ≤ 8 := by
  have hsize : (Bytes.ofNat 8 value.toNat).octets.length = 8 := by
    rw [Bytes.length_octets, Bytes.size_ofNat]
  exact hsize ▸ (List.dropWhile_suffix _).length_le

theorem toNat_numberBytes (value : UInt64) :
    Bytes.toNat (Bytes.ofList (numberBytes value)) = value.toNat := by
  have hfits : value.toNat < 2 ^ (8 * 8) := value.toNat_lt
  rw [numberBytes, Bytes.toNat_dropWhile, Bytes.ofList_octets, Bytes.toNat_ofNat,
    BitVec.toNat_ofNat, Nat.mod_eq_of_lt hfits]

theorem pays_number (hfork : env.fork.has .shanghai) {value : UInt64}
    (hahead : f.ahead = Assembly.pushNumber value ++ rest) (hroom : f.stack.length < stackLimit) :
    Pays env overlay world (pushGas (numberBytes value).length) f
      ((f.past (Assembly.pushNumber value)).pushed (Word.ofNat value.toNat)) := by
  have hvalue : Word.ofBytes (Bytes.ofList (numberBytes value)) = Word.ofNat value.toNat := by
    rw [Word.ofBytes, toNat_numberBytes]
    rfl
  rw [← hvalue]
  exact pays_push hfork (Nat.le_trans (length_numberBytes value) (by decide)) hahead hroom

/-! ## Calls -/

variable {config : Config} {block : BlockEnv} {tx : Transaction} {db : Database}
  {callee : Address} {code : Bytes} {gas : IntrinsicGas} {existing : Nat}
  {post : Result → World → Database → Prop}

/-- A transaction that calls code without value ends as its frame does, and its settlement changes
nothing that is seen of the accounts. -/
theorem attains_called (h : db.Answers) (hcallee : tx.callee = some callee) (hvalue : tx.value = 0)
    (hordinary : callee ∉ Precompile.addresses config.fork)
    (hcode : (world.seen db callee).account.code = .plain code) (hsome : code.size ≠ 0)
    (hruns : ∀ (saved moved : World) (opened : Database), opened.Extends db →
      (world.Writes → moved.Writes) → (moved.seen opened callee).touched = true →
      moved.view opened = world.view db →
      opened.Runs (environment config block tx)
        (.next ⟨.ofCall tx callee code (tx.gasLimit.toNat - gas.initial) saved, [], moved⟩) post) :
    db.Attains (runPrepared config block tx gas world existing)
      fun value after => ∃ result settlement last ran,
        value.1 = .ofResult result settlement ∧ post result last ran ∧
          (db.overlay.Holds (.account tx.caller) →
            value.2.view after = last.view ran ∧ (last.Writes → value.2.Writes)) := by
  refine (attains_openFirst_of_code h _ hcallee hvalue hordinary hcode hsome).bind ?_
  rintro first opened hopened ⟨saved, moved, rfl, hwrites, htouched, hview⟩
  rw [World.view_of_extends hopened world] at hview
  have hfuel : (Step.next ⟨.ofCall tx callee code (tx.gasLimit.toNat - gas.initial) saved, [],
      moved⟩).rounds ≤ fuelFor tx.gasLimit.toNat := by
    change 8 * (tx.gasLimit.toNat - gas.initial + 0) + 3 ≤ 8 * (tx.gasLimit.toNat + 8)
    omega
  refine ((hruns saved moved opened hopened hwrites htouched hview).attains hfuel).bind ?_
  rintro ⟨result, last⟩ ran hran hpost
  refine (attains_payOut ((h.of_extends hopened).of_extends hran) ..).bind ?_
  intro settled settledDb hsettled hkept
  refine .pure ⟨result, _, last, ran, rfl, hpost, fun hheld => ?_⟩
  obtain ⟨hsettledView, hsettledWrites, -⟩ := hkept (hran.grows _ (hopened.grows _ hheld))
  exact ⟨hsettledView.trans (World.view_of_extends hsettled last), hsettledWrites⟩

end Evm

end ForkReplay
