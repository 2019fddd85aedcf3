import ForkReplay.Chain.Sample
import ForkReplay.Proofs.SeparateReplays
import ForkReplay.Proofs.StraightCode
import ForkReplay.State.MemoryState

/-!
# Counters

A contract whose code adds a number to one of its slots counts the calls that it gets. Replaying a
block of such calls up to one of them leaves the slot with as many increments as there are calls
up to that one, and changes no other slot.
-/

namespace ForkReplay

open Evm Evm.Stage

/-- A contract has been accessed by a transaction that destroys nothing. -/
structure World.Ready (world : World) (db : Database) (contract : Address) : Prop where
  writes : world.Writes
  touched : (world.seen db contract).touched = true

theorem World.Ready.of_extends {world : World} {db after : Database} {contract : Address}
    (h : world.Ready db contract) (hafter : after.Extends db) : world.Ready after contract where
  writes := h.writes
  touched := by
    rw [World.seen_of_extends hafter]
    exact h.touched

/-- Recording a slot of the contract leaves it ready. -/
theorem World.Ready.putSlot {world : World} {db : Database} {contract : Address}
    (h : world.Ready db contract) (hnone : world.missingAccount? db.overlay contract = none)
    (key : Word) (slot : Slot) :
    (world.putSlot db.overlay contract key slot).Ready db contract where
  writes := by
    apply World.Writes.modify
    · intro other entry _ hentry
      exact h.writes other entry hentry
    · rw [World.accessed_eq_seen hnone]
      exact ⟨h.touched, h.writes.destroyed db contract⟩
  touched := by
    rw [World.putSlot, World.seen_modify hnone, if_pos rfl]
    exact h.touched

namespace Evm

variable {env : Env} {world : World} {db : Database} {f g : Frame} {gas price : Nat}
  {rest : List UInt8} {post : Result → World → Database → Prop}

/-! ## Instructions -/

theorem runs_of_pays (hpays : Pays env db.overlay world price f g) (hcovered : price ≤ gas)
    (h : db.Runs env (.next ⟨g.withGas (gas - price), [], world⟩) post) :
    db.Runs env (.next ⟨f.withGas gas, [], world⟩) post := by
  have hleads := hpays.affords (gas - price)
  rw [Nat.add_sub_cancel' hcovered] at hleads
  exact .of_leads hleads h

theorem pays_add {a b : Word} (hahead : f.ahead = 0x01 :: rest) :
    Pays env db.overlay world 3 ((f.pushed b).pushed a) ((f.past [0x01]).pushed (a + b)) := by
  have hasks : Asks env (.binary .add) 0 (((f.pushed b).pushed a).past [0x01])
      ((f.past [0x01]).pushed (a + b)) := by
    refine ⟨rfl, fun gas => ?_, fun gas hless => absurd hless (Nat.not_lt_zero gas)⟩
    rw [Nat.zero_add]
    rfl
  exact hasks.pays hahead rfl (decide_eq_true (Nat.zero_le _))

theorem runs_stop (hahead : f.ahead = 0x00 :: rest) (hpurpose : f.purpose = .call 0 0)
    (h : post { exit := .ok, gas, refund := f.refund } world db) :
    db.Runs env (.next ⟨f.withGas gas, [], world⟩) post := by
  have hstep := @step_of_covered env db.overlay world f rest .stop 0x00 hahead rfl
    (decide_eq_true (Nat.zero_le _)) gas
  have heffect : Step.ofEffect env db.overlay world f.saved
      (execute env .stop ((f.past [0x00]).withGas gas)) =
        .done { exit := .ok, gas, refund := f.refund } world := by
    have hkept : ((f.past [0x00]).withGas gas).purpose = .call 0 0 := hpurpose
    rw [execute, Step.ofEffect, closeFinished, hkept]
    rfl
  rw [heffect, show Opcode.stop.staticGas env.fork = 0 from rfl, Nat.zero_add] at hstep
  apply Database.Runs.step
  rw [hstep]
  exact .done h

theorem coldSlotRead_le (fork : HardFork) (warm : Bool) : Gas.coldSlotRead fork warm ≤ 2000 := by
  unfold Gas.coldSlotRead
  split
  next => exact Nat.le_refl _
  next => exact Nat.zero_le _

/-- Performing a load pushes what is seen of the slot, and changes nothing that is seen. -/
theorem runs_performLoad {key : Word}
    (hnone : world.missingSlot? db.overlay f.address key = none) (hgas : 2000 ≤ f.gas)
    (hready : world.Ready db f.address)
    (h : ∀ (left : Nat) (loaded : World), f.gas ≤ left + 2000 → loaded.Ready db f.address →
      loaded.view db = world.view db →
      db.Runs env (.next ⟨(f.pushed ((world.view db).slot f.address key)).withGas left, [], loaded⟩)
        post) :
    db.Runs env (perform env db.overlay (.load key) ⟨f, [], world⟩) post := by
  have hmissing := World.missingAccount?_of_missingSlot? hnone
  have hstays := hready.writes.destroyed db f.address
  have hpresent : (world.slot db.overlay f.address key).present =
      (world.view db).slot f.address key := World.slot_eq_seenSlot hnone hstays
  have hcost := coldSlotRead_le env.fork (world.isWarmSlot db.overlay f.address key)
  rw [perform]
  dsimp only
  rw [answer, if_neg (Nat.not_lt.mpr (Nat.le_trans hcost hgas)), hpresent]
  refine h _ _ (by omega) (hready.putSlot hmissing key _) ?_
  rw [World.view_putSlot hmissing hstays, hpresent, View.withSlot_self]

theorem slotWrite_le (fork : HardFork) (slot : Slot) (new : Word) (warm : Bool) :
    Gas.slotWrite fork slot new warm ≤ 22100 := by
  have hwarm : Gas.warmSlot fork ≤ 20000 := by
    unfold Gas.warmSlot
    split
    next => decide
    next => decide
  have hreset : Gas.slotReset fork ≤ 20000 := by
    unfold Gas.slotReset
    split
    next => decide
    next => decide
  have hcold : (if fork.has .berlin && !warm then 2100 else 0) ≤ 2100 := by
    split
    next => exact Nat.le_refl _
    next => exact Nat.zero_le _
  change _ + _ ≤ 2100 + 20000
  refine Nat.add_le_add hcold ?_
  split
  next => exact hwarm
  next =>
    split
    next =>
      split
      next => exact Nat.le_refl _
      next => exact hreset
    next => exact hwarm

/-- Performing a store changes what is seen of the slot, and nothing else. -/
theorem runs_performStore {key value : Word}
    (hnone : world.missingSlot? db.overlay f.address key = none) (hgas : 22100 ≤ f.gas)
    (hready : world.Ready db f.address)
    (h : ∀ (left : Nat) (refund : Int) (stored : World), stored.Ready db f.address →
      stored.view db = (world.view db).withSlot f.address key value →
      db.Runs env (.next ⟨{ f with gas := left, refund }, [], stored⟩) post) :
    db.Runs env (perform env db.overlay (.store key value) ⟨f, [], world⟩) post := by
  have hmissing := World.missingAccount?_of_missingSlot? hnone
  have hstays := hready.writes.destroyed db f.address
  have hcost := slotWrite_le env.fork (world.slot db.overlay f.address key) value
    (world.isWarmSlot db.overlay f.address key)
  rw [perform, performStore, if_neg (Nat.not_lt.mpr (Nat.le_trans hcost hgas))]
  exact h _ _ _ (hready.putSlot hmissing key _) (World.view_putSlot hmissing hstays key _)

theorem runs_sload {key : Word} (hanswers : db.Answers) (hahead : f.ahead = 0x54 :: rest)
    (hgas : 2800 ≤ gas) (hready : world.Ready db f.address)
    (h : ∀ (left : Nat) (loaded : World) (after : Database), gas ≤ left + 2800 →
      after.Extends db → loaded.Ready after f.address → loaded.view after = world.view db →
      after.Runs env (.next ⟨((f.past [0x54]).pushed ((world.view db).slot f.address key)).withGas
        left, [], loaded⟩) post) :
    db.Runs env (.next ⟨(f.pushed key).withGas gas, [], world⟩) post := by
  have hstatic : Opcode.sload.staticGas env.fork ≤ 800 := by
    change Opcode.accessGas env.fork 800 100 ≤ 800
    unfold Opcode.accessGas
    split
    next => decide
    next => decide
  obtain ⟨less, rfl⟩ := Nat.exists_eq_add_of_le (Nat.le_trans hstatic (by omega : 800 ≤ gas))
  have hstep := @step_of_covered env db.overlay world (f.pushed key) rest .sload 0x54 hahead rfl
    (decide_eq_true (Nat.zero_le _)) less
  apply Database.Runs.step
  rw [hstep]
  refine .access hanswers fun after hafter hnone => ?_
  refine @runs_performLoad env world after ((f.past [0x54]).withGas less) post key hnone
    (by change 2000 ≤ less; omega) (hready.of_extends hafter)
    fun left loaded hleft hloaded hview => ?_
  rw [World.view_of_extends hafter world] at hview ⊢
  exact h left loaded after (by change less ≤ _ at hleft; omega) hafter hloaded hview

theorem runs_sstore {key value : Word} (hanswers : db.Answers) (hahead : f.ahead = 0x55 :: rest)
    (hwritable : f.isStatic = false) (hgas : 22100 ≤ gas) (hready : world.Ready db f.address)
    (h : ∀ (left : Nat) (refund : Int) (stored : World) (after : Database), after.Extends db →
      stored.Ready after f.address →
      stored.view after = (world.view db).withSlot f.address key value →
      after.Runs env (.next ⟨{ f.past [0x55] with gas := left, refund }, [], stored⟩) post) :
    db.Runs env (.next ⟨((f.pushed value).pushed key).withGas gas, [], world⟩) post := by
  have hstep := @step_of_covered env db.overlay world ((f.pushed value).pushed key) rest .sstore
    0x55 hahead rfl (decide_eq_true (Nat.zero_le _)) gas
  have hexecute : execute env .sstore ((((f.pushed value).pushed key).past [0x55]).withGas gas) =
      .ok (.access (.store key value) ((f.past [0x55]).withGas gas)) := by
    have hwrites : ((((f.pushed value).pushed key).past [0x55]).withGas gas).requireWritable =
        .ok () := by
      rw [Frame.requireWritable]
      change (if f.isStatic then _ else _) = _
      rw [hwritable]
      rfl
    rw [execute, hwrites]
    change (if gas ≤ Gas.callStipend then _ else _) = _
    rw [if_neg (Nat.not_le.mpr (Nat.lt_of_lt_of_le (by decide) hgas))]
    rfl
  rw [hexecute, show Opcode.sstore.staticGas env.fork = 0 from rfl, Nat.zero_add] at hstep
  apply Database.Runs.step
  rw [hstep]
  refine .access hanswers fun after hafter hnone => ?_
  refine @runs_performStore env world after ((f.past [0x55]).withGas gas) post key value hnone hgas
    (hready.of_extends hafter) fun left refund stored hstored hview => ?_
  rw [World.view_of_extends hafter world] at hview
  exact h left refund stored after hafter hstored hview

/-! ## The code of a counter -/

/-- The code of a contract that increments a slot and stops. -/
def counterCode (slot delta : UInt64) : List UInt8 :=
  Assembly.increment slot delta ++ Assembly.stop

theorem size_counterCode_ne_zero (slot delta : UInt64) :
    (Bytes.ofList (counterCode slot delta)).size ≠ 0 := by
  rw [Bytes.size_ofList, counterCode, List.length_append]
  exact Nat.succ_ne_zero _

/-- The value of a slot is added to the word on the stack. -/
theorem runs_load_and_add (hanswers : db.Answers) (hfork : env.fork.has .shanghai)
    {slot : UInt64} {word : Word}
    (hahead : f.ahead = Assembly.pushNumber slot ++ 0x54 :: 0x01 :: rest)
    (hstack : f.stack = []) (hgas : 2806 ≤ gas) (hready : world.Ready db f.address)
    (h : ∀ (left : Nat) (loaded : World) (after : Database), gas ≤ left + 2806 →
      after.Extends db → loaded.Ready after f.address → loaded.view after = world.view db →
      after.Runs env (.next ⟨((f.past (Assembly.pushNumber slot ++ [0x54, 0x01])).pushed
        ((world.view db).slot f.address (Word.ofNat slot.toNat) + word)).withGas left, [], loaded⟩)
        post) :
    db.Runs env (.next ⟨(f.pushed word).withGas gas, [], world⟩) post := by
  have hslot := pushGas_le (numberBytes slot).length
  have hloadAhead : (f.past (Assembly.pushNumber slot)).ahead = 0x54 :: 0x01 :: rest :=
    ahead_past hahead
  have haddAhead : ((f.past (Assembly.pushNumber slot)).past [0x54]).ahead = 0x01 :: rest :=
    @ahead_past _ _ [0x54] hloadAhead
  have hroom : (f.pushed word).stack.length < stackLimit := by
    change f.stack.length + 1 < stackLimit
    rw [hstack]
    decide
  refine runs_of_pays (@pays_number env db.overlay world (f.pushed word) _ hfork slot hahead hroom)
    (by omega) ?_
  refine @runs_sload env world db ((f.past (Assembly.pushNumber slot)).pushed word) _ _ post
    (Word.ofNat slot.toNat) hanswers hloadAhead (by omega) hready ?_
  intro left loaded after hleft hafter hloaded hview
  refine runs_of_pays (pays_add haddAhead) (by omega) ?_
  have hend : (f.past (Assembly.pushNumber slot)).past [0x54, 0x01] =
      ((f.past (Assembly.pushNumber slot)).past [0x54]).past [0x01] := past_append _ [0x54] [0x01]
  rw [past_append, hend] at h
  exact h (left - 3) loaded after (by omega) hafter hloaded hview

/-- The word on the stack is stored in a slot, and the code stops. -/
theorem runs_store_and_stop (hanswers : db.Answers) (hfork : env.fork.has .shanghai)
    {slot : UInt64} {word : Word} (hahead : f.ahead = Assembly.pushNumber slot ++ [0x55, 0x00])
    (hstack : f.stack = []) (hpurpose : f.purpose = .call 0 0) (hwritable : f.isStatic = false)
    (hgas : 22103 ≤ gas) (hready : world.Ready db f.address)
    (h : ∀ (left : Nat) (refund : Int) (stored : World) (after : Database), after.Extends db →
      stored.Ready after f.address →
      stored.view after = (world.view db).withSlot f.address (Word.ofNat slot.toNat) word →
      post { exit := .ok, gas := left, refund } stored after) :
    db.Runs env (.next ⟨(f.pushed word).withGas gas, [], world⟩) post := by
  have hslot := pushGas_le (numberBytes slot).length
  have hstoreAhead : (f.past (Assembly.pushNumber slot)).ahead = [0x55, 0x00] := ahead_past hahead
  have hstopAhead : ((f.past (Assembly.pushNumber slot)).past [0x55]).ahead = [0x00] :=
    @ahead_past _ _ [0x55] hstoreAhead
  have hroom : (f.pushed word).stack.length < stackLimit := by
    change f.stack.length + 1 < stackLimit
    rw [hstack]
    decide
  refine runs_of_pays (@pays_number env db.overlay world (f.pushed word) _ hfork slot hahead hroom)
    (by omega) ?_
  refine @runs_sstore env world db (f.past (Assembly.pushNumber slot)) _ _ post
    (Word.ofNat slot.toNat) word hanswers hstoreAhead hwritable (by omega) hready ?_
  intro left refund stored after hafter hstored hview
  exact @runs_stop env stored after
    { (f.past (Assembly.pushNumber slot)).past [0x55] with refund } left _ post hstopAhead hpurpose
    (h left refund stored after hafter hstored hview)

/-- With some gas the code of a counter changes its slot by the increment, and nothing else. -/
theorem runs_counterCode (hanswers : db.Answers) (hfork : env.fork.has .shanghai)
    {slot delta : UInt64} (hahead : f.ahead = counterCode slot delta) (hstack : f.stack = [])
    (hpurpose : f.purpose = .call 0 0) (hwritable : f.isStatic = false) (hgas : 30000 ≤ gas)
    (hready : world.Ready db f.address)
    (h : ∀ (left : Nat) (refund : Int) (last : World) (after : Database), after.Extends db →
      last.Ready after f.address →
      last.view after = (world.view db).withSlot f.address (Word.ofNat slot.toNat)
        ((world.view db).slot f.address (Word.ofNat slot.toNat) + Word.ofNat delta.toNat) →
      post { exit := .ok, gas := left, refund } last after) :
    db.Runs env (.next ⟨f.withGas gas, [], world⟩) post := by
  have hdelta := pushGas_le (numberBytes delta).length
  rw [counterCode, Assembly.increment] at hahead
  simp only [List.append_assoc] at hahead
  have hroom : f.stack.length < stackLimit := by
    rw [hstack]
    decide
  let loading := f.past (Assembly.pushNumber delta)
  have hloadAhead : loading.ahead = Assembly.pushNumber slot ++ 0x54 :: 0x01 ::
      (Assembly.pushNumber slot ++ [0x55, 0x00]) := ahead_past hahead
  let storing := loading.past (Assembly.pushNumber slot ++ [0x54, 0x01])
  have hstoreAhead : storing.ahead = Assembly.pushNumber slot ++ [0x55, 0x00] := by
    apply ahead_past
    rw [hloadAhead, List.append_assoc]
    rfl
  refine runs_of_pays (pays_number hfork hahead hroom) (by omega) ?_
  refine @runs_load_and_add env world db loading _ _ post hanswers hfork slot _ hloadAhead hstack
    (by omega) hready ?_
  intro left loaded middle hleft hmiddle hloaded hview
  refine @runs_store_and_stop env loaded middle storing _ post (hanswers.of_extends hmiddle) hfork
    slot _ hstoreAhead hstack hpurpose hwritable (by omega) hloaded ?_
  intro left refund stored after hafter hstored hstoredView
  rw [hview] at hstoredView
  exact h left refund stored after (hafter.trans hmiddle) hstored hstoredView

end Evm

/-! ## Calls of a counter -/

/-- A caller without code and a counter that it can call. -/
structure Counting (db : Database) (caller contract : Address) (slot delta nonce : UInt64) :
    Prop where
  steady : db.Steady
  codeless : (db.account caller).code.isEmpty = true
  nonce : (db.account caller).nonce = nonce
  code : (db.account contract).code = .plain (Bytes.ofList (counterCode slot delta))

/-- The view of the accounts after a call of a counter. -/
def View.counted (view : View) (caller contract : Address) (slot delta nonce : UInt64) : View :=
  (view.withNonce caller (nonce + 1)).withSlot contract (Word.ofNat slot.toNat)
    (view.slot contract (Word.ofNat slot.toNat) + Word.ofNat delta.toNat)

/-- A call without data of a contract. -/
def counterCall (caller contract : Address) (nonce : UInt64) : Transaction :=
  Sample.transaction caller nonce (some contract) (Bytes.ofList []) 0

theorem intrinsicGas_counterCall (caller contract : Address) (nonce : UInt64) :
    intrinsicGas .prague (counterCall caller contract nonce) =
      { initial := 21000, floor := 21000 } := by
  have htokens : tokens (Bytes.ofList []) = 0 := rfl
  simp [intrinsicGas, counterCall, Sample.transaction, htokens, keyCount, HardFork.has]

/-- The gas that a call of a counter leaves to its code. -/
theorem gas_counterCall (caller contract : Address) (nonce : UInt64) :
    (counterCall caller contract nonce).gasLimit.toNat -
      (intrinsicGas .prague (counterCall caller contract nonce)).initial = 979000 := by
  have hlimit : (counterCall caller contract nonce).gasLimit.toNat = 1000000 := rfl
  rw [hlimit, intrinsicGas_counterCall]
  rfl

namespace Counting

variable {db : Database} {caller contract : Address} {slot delta nonce : UInt64}

theorem passed (h : Counting db caller contract slot delta nonce)
    (precompiles : Precompiles) (number : UInt64) :
    Passed (Sample.config precompiles) (Sample.block number) (counterCall caller contract nonce)
      (db.account caller) where
  complete := rfl
  valid := by
    refine checkTransaction_eq_ok.mpr ⟨rfl, rfl, ?_, fun _ hnone => nomatch hnone⟩
    change (1000000 : UInt64) ≤ 30000000
    decide
  covered := by
    change checkIntrinsicGas (intrinsicGas .prague (counterCall caller contract nonce)) _ = _
    rw [intrinsicGas_counterCall]
    rfl
  accepted := by
    refine checkCaller_eq_ok.mpr ⟨?_, fun _ => h.nonce.symm, 0, rfl, Nat.zero_le _⟩
    simp [Account.ownsCode, h.codeless]

/-- The payment is seen in the nonce of the caller alone. -/
theorem attains_payUp (h : Counting db caller contract slot delta nonce)
    (hlast : nonce ≠ Account.lastNonce) (precompiles : Precompiles) (number : UInt64) :
    db.Attains (payUp (Sample.config precompiles) (Sample.block number)
        (counterCall caller contract nonce) (openingWorld .prague (Sample.block number)))
      fun opened after => opened.Writes ∧ after.overlay.Holds (.account caller) ∧
        opened.view after = db.view.withNonce caller (nonce + 1) := by
  refine (Evm.attains_payUp h.steady.answers (h.passed precompiles number).accepted).mono ?_
  rintro opened after hafter ⟨hwrites, hheld, hseen⟩
  have hnonce : (paid (Sample.block number) (counterCall caller contract nonce)
      (db.account caller)).nonce = nonce + 1 := by
    change (if _ ∧ (db.account caller).nonce ≠ _ then (db.account caller).nonce + 1 else _) = _
    rw [h.nonce, if_pos ⟨rfl, hlast⟩]
  exact ⟨hwrites, hheld,
    (view_of_paid hafter hseen).trans (congrArg (db.view.withNonce caller) hnonce)⟩

/-- A call of a counter runs to its end and counts. -/
theorem attains_runTransaction (h : Counting db caller contract slot delta nonce)
    (hordinary : contract ∉ Precompile.addresses .prague) (hlast : nonce ≠ Account.lastNonce)
    (precompiles : Precompiles) (number : UInt64) :
    db.Attains (runTransaction (Sample.config precompiles) (Sample.block number)
        (counterCall caller contract nonce)
        (intrinsicGas (Sample.config precompiles).fork (counterCall caller contract nonce)))
      fun value after => ∃ gasUsed gasRefunded,
        value.1 = .success gasUsed gasRefunded (Bytes.ofList []) none ∧ value.2.Writes ∧
          value.2.view after = db.view.counted caller contract slot delta nonce := by
  let tx := counterCall caller contract nonce
  let config := Sample.config precompiles
  refine (h.attains_payUp hlast precompiles number).bind ?_
  rintro opened paidDb hpaid ⟨hopenedWrites, hheld, hopenedView⟩
  have hpaidAnswers := h.steady.answers.of_extends hpaid
  have hlisted : paidDb.Attains (accessListed tx opened) fun world after =>
      opened = world ∧ paidDb = after := .pure ⟨rfl, rfl⟩
  refine hlisted.bind ?_
  rintro _ _ - ⟨rfl, rfl⟩
  have hauthorized : paidDb.Attains (authorize config tx opened) fun value after =>
      (opened, 0) = value ∧ paidDb = after := .pure ⟨rfl, rfl⟩
  refine hauthorized.bind ?_
  rintro _ _ - ⟨rfl, rfl⟩
  have hcode : (opened.seen paidDb contract).account.code =
      .plain (Bytes.ofList (counterCode slot delta)) :=
    (congrFun (congrArg View.code hopenedView) contract).trans h.code
  have hcalled := @attains_called opened config (Sample.block number) tx paidDb contract
    (Bytes.ofList (counterCode slot delta)) (intrinsicGas config.fork tx) 0
    (fun result last after => (∃ left refund, result = { exit := .ok, gas := left, refund }) ∧
      last.Writes ∧ last.view after = db.view.counted caller contract slot delta nonce)
    hpaidAnswers rfl rfl hordinary hcode
    (Evm.size_counterCode_ne_zero slot delta) ?_
  · refine hcalled.mono ?_
    rintro ⟨final, settled⟩ after - ⟨_, settlement, last, ran, hfinal,
      ⟨⟨left, refund, rfl⟩, hlastWrites, hlastView⟩, hkept⟩
    obtain ⟨hsettledView, hsettledWrites⟩ := hkept hheld
    exact ⟨_, _, hfinal, hsettledWrites hlastWrites, hsettledView.trans hlastView⟩
  · intro saved moved openDb hopen hmovedWrites htouched hmovedView
    have hgas : tx.gasLimit.toNat - (intrinsicGas config.fork tx).initial = 979000 :=
      gas_counterCall caller contract nonce
    rw [hgas]
    refine @runs_counterCode (environment config (Sample.block number) tx) moved openDb
      (.ofCall tx contract (Bytes.ofList (counterCode slot delta)) 0 saved) 979000 _
      (hpaidAnswers.of_extends hopen) rfl slot delta (Bytes.octets_ofList _) rfl rfl rfl
      (by decide) ⟨hmovedWrites hopenedWrites, htouched⟩ ?_
    intro left refund last after _ hlastReady hlastView
    rw [hmovedView, hopenedView] at hlastView
    exact ⟨⟨left, refund, rfl⟩, hlastReady.writes, hlastView⟩

/-- What comes of a call that has counted counts on. -/
theorem next (h : Counting db caller contract slot delta nonce) {after : Database}
    (hsteady : after.Steady)
    (hview : after.view = db.view.counted caller contract slot delta nonce) :
    Counting after caller contract slot delta (nonce + 1) where
  steady := hsteady
  codeless := by
    have hcode : (after.account caller).code = (db.account caller).code :=
      congrFun (congrArg View.code hview) caller
    rw [hcode, h.codeless]
  nonce := (congrFun (congrArg View.nonce hview) caller).trans (if_pos rfl)
  code := (congrFun (congrArg View.code hview) contract).trans h.code

end Counting

/-- The executor of the sample environment. -/
def Sample.executor (precompiles : Evm.Precompiles) (number : UInt64) : Executor :=
  { config := Sample.config precompiles, block := Sample.block number }

/-- A number of calls of a counter has counted up the nonce of the caller, has added as many
increments to the slot, and has changed no other slot. -/
structure Counted (db after : Database) (caller contract : Address) (slot delta : UInt64)
    (count : Nat) : Prop where
  nonce : (after.account caller).nonce = (db.account caller).nonce + UInt64.ofNat count
  value : after.slot contract (Word.ofNat slot.toNat) =
    db.slot contract (Word.ofNat slot.toNat) + Word.ofNat (count * delta.toNat)
  others : ∀ address key, ¬ (address = contract ∧ key = Word.ofNat slot.toNat) →
    after.slot address key = db.slot address key

namespace Counted

variable {db middle after : Database} {caller contract : Address} {slot delta : UInt64}

theorem refl (db : Database) (caller contract : Address) (slot delta : UInt64) :
    Counted db db caller contract slot delta 0 where
  nonce := by simp
  value := by simp [Word.ofNat]
  others _ _ _ := rfl

theorem trans {first second : Nat} (h : Counted db middle caller contract slot delta first)
    (h' : Counted middle after caller contract slot delta second) :
    Counted db after caller contract slot delta (first + second) where
  nonce := by rw [h'.nonce, h.nonce, UInt64.ofNat_add, UInt64.add_assoc]
  value := by
    have hsum : Word.ofNat (first * delta.toNat + second * delta.toNat) =
        Word.ofNat (first * delta.toNat) + Word.ofNat (second * delta.toNat) :=
      BitVec.ofNat_add _ _
    rw [h'.value, h.value, Nat.add_mul, hsum, BitVec.add_assoc]
  others address key hother := (h'.others address key hother).trans (h.others address key hother)

end Counted

namespace Counting

variable {db : Database} {caller contract : Address} {slot delta nonce : UInt64}

/-- A call of a counter succeeds and counts once. -/
theorem attempt (h : Counting db caller contract slot delta nonce)
    (hordinary : contract ∉ Precompile.addresses .prague) (hlast : nonce ≠ Account.lastNonce)
    (precompiles : Precompiles) (number : UInt64) :
    ∃ gasUsed gasRefunded after,
      (Sample.executor precompiles number).attempt db (counterCall caller contract nonce) =
        (.ok (.success gasUsed gasRefunded (Bytes.ofList []) none), after) ∧
      Counting after caller contract slot delta (nonce + 1) ∧
      Counted db after caller contract slot delta 1 := by
  obtain ⟨result, world, after, hafter, ⟨gasUsed, gasRefunded, hresult, hwrites, hview⟩, hrun⟩ :=
    run_transact_of_attains (h.passed precompiles number)
      (h.attains_runTransaction hordinary hlast precompiles number)
  dsimp only at hresult hwrites hview
  subst hresult
  have hsteady := h.steady.of_extends hafter
  have hcommitted : (after.commit world).view =
      db.view.counted caller contract slot delta nonce :=
    (Database.view_commit hwrites (hsteady.remembers _)).trans hview
  refine ⟨gasUsed, gasRefunded, _, hrun, h.next (hsteady.commit hwrites) hcommitted, ?_⟩
  refine ⟨?_, ?_, ?_⟩
  · rw [h.nonce]
    exact (congrFun (congrArg View.nonce hcommitted) caller).trans (if_pos rfl)
  · rw [Nat.one_mul]
    exact (congrFun (congrFun (congrArg View.slot hcommitted) contract) _).trans
      (if_pos ⟨rfl, rfl⟩)
  · intro address key hother
    exact (congrFun (congrFun (congrArg View.slot hcommitted) address) key).trans
      (if_neg fun hsame => hother ⟨hsame.1.symm, hsame.2.symm⟩)

end Counting

/-! ## Blocks of calls -/

theorem add_ofNat_succ (nonce : UInt64) (i : Nat) :
    nonce + UInt64.ofNat (i + 1) = nonce + 1 + UInt64.ofNat i := by
  rw [Nat.add_comm i 1, UInt64.ofNat_add, UInt64.add_assoc]
  rfl

theorem toNat_add_ofNat {nonce : UInt64} {count : Nat} (h : nonce.toNat + count < UInt64.size) :
    (nonce + UInt64.ofNat count).toNat = nonce.toNat + count := by
  have hcount : (UInt64.ofNat count).toNat = count := UInt64.toNat_ofNat_of_lt' (by omega)
  rw [UInt64.toNat_add, hcount]
  exact Nat.mod_eq_of_lt h

/-- A call of a contract as a transaction of a block. -/
def counterTransaction (caller contract : Address) (nonce : UInt64) (hash : Hash) :
    BlockTransaction :=
  { hash, sender := caller, payload := .executable (counterCall caller contract nonce) }

/-- Calls of a contract with nonces one after the other. -/
def counterBlock (caller contract : Address) (nonce : UInt64) (hashes : List Hash) :
    List BlockTransaction :=
  hashes.mapIdx fun i hash => counterTransaction caller contract (nonce + UInt64.ofNat i) hash

section Block

variable (caller contract : Address) (nonce : UInt64)

theorem counterBlock_cons (hash : Hash) (hashes : List Hash) :
    counterBlock caller contract nonce (hash :: hashes) =
      counterTransaction caller contract nonce hash ::
        counterBlock caller contract (nonce + 1) hashes := by
  have hfirst : nonce + UInt64.ofNat 0 = nonce := UInt64.add_zero nonce
  rw [counterBlock, List.mapIdx_cons, hfirst]
  simp only [add_ofNat_succ]
  rfl

theorem map_hash_counterBlock (hashes : List Hash) :
    (counterBlock caller contract nonce hashes).map BlockTransaction.hash = hashes := by
  induction hashes generalizing nonce with
  | nil => rfl
  | cons hash hashes ih =>
      rw [counterBlock_cons, List.map_cons, ih]
      rfl

theorem take_counterBlock (hashes : List Hash) (count : Nat) :
    (counterBlock caller contract nonce hashes).take count =
      counterBlock caller contract nonce (hashes.take count) := by
  induction hashes generalizing nonce count with
  | nil => simp [counterBlock]
  | cons hash hashes ih =>
      cases count with
      | zero => rfl
      | succ count =>
          rw [counterBlock_cons, List.take_succ_cons, List.take_succ_cons, counterBlock_cons, ih]

end Block

namespace Counting

variable {db : Database} {caller contract : Address} {slot delta nonce : UInt64}

theorem ne_lastNonce (h : nonce.toNat + 1 < UInt64.size) : nonce ≠ Account.lastNonce := by
  rintro rfl
  exact absurd h (by decide)

/-- A block of calls is applied, and each of them counts. -/
theorem run_applyPreceding (h : Counting db caller contract slot delta nonce)
    (hordinary : contract ∉ Precompile.addresses .prague) (precompiles : Precompiles)
    (number : UInt64) {hashes : List Hash}
    (hnonces : nonce.toNat + hashes.length < UInt64.size) :
    ∃ executed after,
      db.run ((Sample.executor precompiles number).applyPreceding
        (counterBlock caller contract nonce hashes)) = (.ok executed, after) ∧
      Counting after caller contract slot delta (nonce + UInt64.ofNat hashes.length) ∧
      Counted db after caller contract slot delta hashes.length := by
  -- Each call leaves a state in which the next one counts as well.
  induction hashes generalizing db nonce with
  | nil =>
      refine ⟨0, db, Database.run_pure db 0, ?_, .refl db caller contract slot delta⟩
      simpa using h
  | cons hash hashes ih =>
      rw [List.length_cons] at hnonces
      have hlast : nonce ≠ Account.lastNonce := ne_lastNonce (by omega)
      obtain ⟨gasUsed, gasRefunded, middle, hattempt, hnext, hcounted⟩ :=
        h.attempt hordinary hlast precompiles number
      have hnextNonces : (nonce + 1).toNat + hashes.length < UInt64.size := by
        have hone : (nonce + 1).toNat = nonce.toNat + 1 := @toNat_add_ofNat nonce 1 (by omega)
        omega
      obtain ⟨executed, after, hrun, hlastCounting, hrest⟩ := ih hnext hnextNonces
      have hmember : (Sample.executor precompiles number).member?
          (counterTransaction caller contract nonce hash) =
            some { hash, tx := counterCall caller contract nonce } :=
        Executor.member?_eq_some.mpr ⟨rfl, List.not_mem_nil, rfl⟩
      refine ⟨executed + 1, after, ?_, ?_, ?_⟩
      · rw [counterBlock_cons, Executor.run_applyPreceding_cons_of_some db hmember, hattempt]
        dsimp only
        rw [hrun]
        rfl
      · rw [List.length_cons, add_ofNat_succ]
        exact hlastCounting
      · rw [List.length_cons, Nat.add_comm]
        exact hcounted.trans hrest

/-- A call behind some others of the block counts once more than they do. -/
theorem run_replayInBlock (h : Counting db caller contract slot delta nonce)
    (hordinary : contract ∉ Precompile.addresses .prague) (precompiles : Precompiles)
    (number : UInt64)
    {txs : List BlockTransaction} {earlier : List Hash} {hash : Hash}
    (hbefore : Executor.before hash txs = counterBlock caller contract nonce earlier)
    (hnonces : nonce.toNat + earlier.length + 1 < UInt64.size) :
    ∃ outcome after,
      db.run ((Sample.executor precompiles number).replayInBlock txs
        (counterTransaction caller contract (nonce + UInt64.ofNat earlier.length) hash)) =
          (.ok outcome, after) ∧
      outcome.isSuccess ∧ Counted db after caller contract slot delta (earlier.length + 1) := by
  obtain ⟨executed, start, hrun, hcounting, hcounted⟩ :=
    h.run_applyPreceding hordinary precompiles number (Nat.lt_of_succ_lt hnonces)
  have hlast : nonce + UInt64.ofNat earlier.length ≠ Account.lastNonce := by
    apply ne_lastNonce
    rwa [toNat_add_ofNat (Nat.lt_of_succ_lt hnonces)]
  obtain ⟨gasUsed, gasRefunded, after, hattempt, -, honce⟩ :=
    hcounting.attempt hordinary hlast precompiles number
  let target := counterTransaction caller contract (nonce + UInt64.ofNat earlier.length) hash
  have hreplay : db.run ((Sample.executor precompiles number).replayInBlock txs target) =
      start.run ((Sample.executor precompiles number).executeTarget target) :=
    Executor.run_replayInBlock_of_ok (hbefore ▸ hrun)
  refine ⟨.success (UInt64.ofNat gasUsed) (UInt64.ofNat gasRefunded) (Bytes.ofList []) none, after,
    ?_, rfl, hcounted.trans honce⟩
  rw [hreplay, Executor.run_executeTarget_of_executable start rfl, hattempt]
  rfl

end Counting

/-- Replaying a block of calls of a counter up to any of them, or all of it before another one,
succeeds and leaves the slot with one increment for each call, the nonce of the caller counted up
as often, and every other slot of every account as it was. -/
theorem replays_count_calls (precompiles : Evm.Precompiles) (number : UInt64) {db : Database}
    {caller contract : Address} {slot delta nonce : UInt64} {hashes : List Hash}
    (h : Counting db caller contract slot delta nonce)
    (hordinary : contract ∉ Precompile.addresses .prague) (hdistinct : hashes.Nodup)
    (hnonces : nonce.toNat + hashes.length + 1 < UInt64.size) :
    (∀ i target, (counterBlock caller contract nonce hashes)[i]? = some target →
      ∃ outcome after,
        db.run ((Sample.executor precompiles number).replayInBlock
          (counterBlock caller contract nonce hashes) target) = (.ok outcome, after) ∧
        outcome.isSuccess ∧ Counted db after caller contract slot delta (i + 1)) ∧
    ∀ hash ∉ hashes, ∃ outcome after,
      db.run ((Sample.executor precompiles number).replayInBlock
        (counterBlock caller contract nonce hashes)
        (counterTransaction caller contract (nonce + UInt64.ofNat hashes.length) hash)) =
          (.ok outcome, after) ∧
      outcome.isSuccess ∧ Counted db after caller contract slot delta (hashes.length + 1) := by
  have hhashes := map_hash_counterBlock caller contract nonce hashes
  constructor
  · intro i target htarget
    obtain ⟨hi, rfl⟩ := List.getElem?_eq_some_iff.mp htarget
    have hlength : i < hashes.length := by
      rwa [counterBlock, List.length_mapIdx] at hi
    have htake : (hashes.take i).length = i := by
      rw [List.length_take, Nat.min_eq_left (Nat.le_of_lt hlength)]
    have htx : (counterBlock caller contract nonce hashes)[i] =
        counterTransaction caller contract (nonce + UInt64.ofNat i) hashes[i] := by
      simp [counterBlock]
    have hbefore : Executor.before hashes[i] (counterBlock caller contract nonce hashes) =
        counterBlock caller contract nonce (hashes.take i) := by
      have hfirst := Executor.before_getElem (hhashes.symm ▸ hdistinct) hi
      rw [htx, take_counterBlock] at hfirst
      exact hfirst
    have hreplay := h.run_replayInBlock hordinary precompiles number hbefore (by rw [htake]; omega)
    rw [htake] at hreplay
    rw [htx]
    exact hreplay
  · intro hash hnot
    refine h.run_replayInBlock hordinary precompiles number ?_ hnonces
    refine List.takeWhile_eq_self_iff.mpr fun tx htx => decide_eq_true ?_
    intro hsame
    have hmem := List.mem_map_of_mem (f := BlockTransaction.hash) htx
    rw [hhashes, hsame] at hmem
    exact hnot hmem

/-- A state of its own in which a counter that adds one to its first slot is deployed. -/
def Sample.counter (contract : Address) : Database :=
  { Sample.emptyFork with
    overlay := Overlay.empty.setCode contract (Bytes.ofList (counterCode 0 1)) }

/-- The second of three calls finds what the first has left, and the third is not executed. -/
theorem replays_count_three_calls :
    let txs := counterBlock 0xa11ce 0xc0ffee00 0 [1, 2, 3]
    ∃ outcome after,
      (Sample.counter 0xc0ffee00).run ((Sample.executor Evm.Precompiles.basic 100).replayInBlock txs
        (counterTransaction 0xa11ce 0xc0ffee00 1 2)) = (.ok outcome, after) ∧
      outcome.isSuccess ∧ after.slot 0xc0ffee00 0 = 2 ∧ (after.account 0xa11ce).nonce = 2 := by
  intro txs
  have hcounting : Counting (Sample.counter 0xc0ffee00) 0xa11ce 0xc0ffee00 0 1 0 :=
    ⟨.of_own (by decide +kernel), by decide +kernel, by decide +kernel, by decide +kernel⟩
  have hdistinct : ([1, 2, 3] : List Hash).Nodup := by decide
  obtain ⟨outcome, after, hreplay, hsuccess, hcounted⟩ :=
    (replays_count_calls Evm.Precompiles.basic 100 hcounting (by decide +kernel) hdistinct
      (by decide)).1 1 _ rfl
  refine ⟨outcome, after, hreplay, hsuccess, ?_, ?_⟩
  · exact hcounted.value.trans (by decide +kernel)
  · exact hcounted.nonce.trans (by decide +kernel)

end ForkReplay
