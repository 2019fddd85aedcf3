import ForkReplay.Proofs.Calls
import ForkReplay.Proofs.StraightCode

/-!
# The code that a call runs

A transaction that calls an account runs the code of that account, or the code of the one that
it delegates to. Either runs for the account called, on the state that the payment and the
authorizations of the transaction have left.
-/

namespace ForkReplay

open Evm Evm.Stage

/-- The code that runs for an account. -/
def View.running (view : View) (address : Address) : Code :=
  match (view.code address).delegate? with
  | some target => view.code target
  | none => view.code address

/-! ## Moving value -/

namespace World

variable {world : World} {db : Database} {address other payer payee : Address} {value : Word}

theorem view_setBalance (h : world.missingAccount? db.overlay address = none) (balance : Word) :
    (world.setBalance db.overlay address balance).view db = world.view db :=
  view_modify h (fun _ => rfl) (fun _ => rfl) fun _ _ _ => rfl

theorem balance_touch (h : world.missingAccount? db.overlay address = none) (other : Address) :
    ((world.touch db.overlay address).seen db other).account.balance =
      (world.seen db other).account.balance := by
  rw [touch, seen_modify h]
  split
  next => rfl
  next => rfl

theorem balance_setBalance (h : world.missingAccount? db.overlay address = none) (balance : Word)
    (other : Address) :
    ((world.setBalance db.overlay address balance).seen db other).account.balance =
      if address = other then balance else (world.seen db other).account.balance := by
  rw [setBalance, seen_modify h]
  split
  next => rfl
  next => rfl

/-- Whoever has a value can move it to an account whose balance has room for it. Nothing but
balances changes. -/
theorem exists_transfer (hpayer : world.missingAccount? db.overlay payer = none)
    (hpayee : world.missingAccount? db.overlay payee = none)
    (hfunds : value ≤ (world.seen db payer).account.balance)
    (hroom : payer ≠ payee →
      (world.seen db payee).account.balance.toNat + value.toNat < Word.size) :
    ∃ moved, world.transfer db.overlay payer payee value = .ok moved ∧
      moved.view db = world.view db := by
  by_cases hvalue : value = 0
  · exact ⟨_, if_pos hvalue, view_touch hpayee⟩
  -- The payee may be the payer, so its balance is read again once the payer is charged.
  let owned := (world.account db.overlay payer).balance
  let touched := world.touch db.overlay payer
  let charged := touched.setBalance db.overlay payer (owned - value)
  let facing := charged.touch db.overlay payee
  have hfunds : value ≤ owned := by
    rw [show owned = (world.seen db payer).account.balance from
      congrArg Account.balance (account_eq_seen hpayer)]
    exact hfunds
  have htouched {address : Address} (h : world.missingAccount? db.overlay address = none) :
      touched.missingAccount? db.overlay address = none := missingAccount?_modify h _
  have hcharged : charged.missingAccount? db.overlay payee = none :=
    missingAccount?_modify (htouched hpayee) _
  have hfacing : facing.missingAccount? db.overlay payee = none := missingAccount?_modify hcharged _
  have hview : facing.view db = world.view db :=
    (view_touch hcharged).trans ((view_setBalance (htouched hpayer) _).trans (view_touch hpayer))
  have hheld : (facing.account db.overlay payee).balance =
      if payer = payee then owned - value else (world.seen db payee).account.balance := by
    rw [account_eq_seen hfacing, balance_touch hcharged, balance_setBalance (htouched hpayer),
      balance_touch hpayer]
  have hfits : (facing.account db.overlay payee).balance.toNat + value.toNat < Word.size := by
    rw [hheld]
    split
    next =>
      rw [BitVec.toNat_sub_of_le hfunds, Nat.sub_add_cancel hfunds]
      exact owned.isLt
    next hother => exact hroom hother
  refine ⟨facing.setBalance db.overlay payee ((facing.account db.overlay payee).balance + value),
    ?_, (view_setBalance hfacing _).trans hview⟩
  unfold transfer
  rw [if_neg hvalue]
  exact (if_neg (BitVec.not_lt.mpr hfunds)).trans (if_pos hfits)

end World

/-! ## The frame of a call -/

namespace Evm

variable {env : Env} {overlay : Overlay} {tx : Transaction} {callee : Address} {code : Bytes}
  {gas : Nat} {saved moved : World}

/-- Empty code stops at once. -/
theorem step_of_empty (h : code.size = 0) :
    step env overlay ⟨.ofCall tx callee code gas saved, [], moved⟩ =
      .done { exit := .ok, gas } moved := by
  obtain rfl : code = ByteArray.empty := by simpa using h
  have hstop : Opcode.ofByte? ((ByteArray.empty : Bytes)[0]?.getD 0) = some .stop := rfl
  have hfree : ¬ gas < Opcode.staticGas env.fork .stop := Nat.not_lt_zero gas
  have hsince : env.fork.has (Opcode.since .stop) = true := decide_eq_true (Nat.zero_le _)
  unfold step Frame.ofCall
  dsimp only
  rw [hstop]
  dsimp only
  rw [if_neg hfree, hsince]
  rfl

/-- Code that starts with a byte that is no instruction halts at once. -/
theorem step_of_unknown (h : Opcode.ofByte? (code[0]?.getD 0) = none) :
    step env overlay ⟨.ofCall tx callee code gas saved, [], moved⟩ =
      .done (.halted .opcodeNotFound) saved := by
  unfold step Frame.ofCall
  dsimp only
  rw [h]
  rfl

/-- A call without code comes to what a frame with empty code comes to. -/
theorem run_ofCall (env : Env) (fuel : Nat) (overlay : Overlay) (code : Code) :
    run env (fuel + 1) overlay (.ofCall tx callee code gas saved moved) =
      run env (fuel + 1) overlay (.next ⟨.ofCall tx callee code.bytes gas saved, [], moved⟩) := by
  unfold Step.ofCall
  split
  next hempty =>
    cases code with
    | plain bytes =>
        rw [run, run, Code.bytes, step_of_empty (by simpa [Code.isEmpty] using hempty)]
        exact (run_done ..).symm
    | delegation target => cases hempty
  next => rfl

/-! ## The call of a transaction -/

variable {config : Config} {block : BlockEnv} {db : Database} {world : World}

theorem paid_affords_value {caller : Account} (h : Passed config block tx caller) :
    tx.value ≤ (paid block tx caller).balance := by
  obtain ⟨-, -, cost, hcost, hfunds⟩ := checkCaller_eq_ok.mp h.accepted
  have hspent := prepayment_add_value_le (checkTransaction_eq_ok.mp h.valid).2.1 hcost
  have hfits : caller.balance.toNat - prepayment block tx < 2 ^ 256 :=
    Nat.lt_of_le_of_lt (Nat.sub_le _ _) caller.balance.isLt
  rw [BitVec.le_def, paid, BitVec.toNat_ofNat, Nat.mod_eq_of_lt hfits]
  omega

/-- The code that runs for an account is what is seen to run for it, once both its account and
the one that it delegates to can be accessed. -/
theorem runningCode_eq_running (h : missingCallee? world db.overlay callee = none) :
    runningCode world db.overlay callee = (world.view db).running callee := by
  have hmissing := missingAccount?_of_missingCallee? h
  have hcode : (world.account db.overlay callee).code = (world.view db).code callee :=
    congrArg Account.code (World.account_eq_seen hmissing)
  unfold missingCallee? at h
  rw [hmissing] at h
  unfold runningCode View.running
  dsimp only at h ⊢
  rw [hcode] at h ⊢
  cases hdelegate : ((world.view db).code callee).delegate? with
  | none => rfl
  | some target =>
      rw [hdelegate] at h
      exact congrArg Account.code (World.account_eq_seen h)

/-- The machine of a transaction runs code for the account that the transaction calls. It starts
in one frame that acts for the account, on the state that the payment and the authorizations have
left, with the value moved and all gas but the intrinsic gas. What it comes to is settled and
committed. -/
inductive Ran (config : Config) (block : BlockEnv) (tx : Transaction) (db : Database)
    (callee : Address) (code : Bytes) : ExecutionResult → Database → Prop where
  | intro {start ended paidOut : Database} {saved moved last settled : World} {result : Result}
      {settlement : Settlement} {existing : Nat}
      (hstart : start.Extends db)
      (hheld : start.overlay.Holds (.account tx.caller))
      (hsaved : Prepared block tx db saved)
      (hmoved : saved.transfer start.overlay tx.caller callee tx.value = .ok moved)
      (hview : moved.view start = saved.view start)
      (hrun : start.resume (run (environment config block tx) (fuelFor tx.gasLimit.toNat)
        start.overlay (.next ⟨.ofCall tx callee code
          (tx.gasLimit.toNat - (intrinsicGas config.fork tx).initial) saved, [], moved⟩)) =
        (.ok (result, last), ended))
      (hexisting : tx.kind ≠ 4 → existing = 0)
      (hsettlement : settlement = settle config.fork tx.gasLimit.toNat
        (intrinsicGas config.fork tx).floor result (12500 * existing))
      (hpayOut : ended.run (payOut config block tx settlement last) = (.ok settled, paidOut)) :
      Ran config block tx db callee code (.ofResult result settlement) (paidOut.commit settled)

/-- Accessing an account and the one that it delegates to changes nothing that is seen. -/
theorem seen_loadCallee (h : missingCallee? world db.overlay callee = none) (address : Address) :
    (loadCallee world db.overlay callee).seen db address = world.seen db address := by
  have hmissing := missingAccount?_of_missingCallee? h
  unfold missingCallee? at h
  rw [hmissing] at h
  unfold loadCallee
  dsimp only at h ⊢
  rw [World.account_load]
  cases hdelegate : (world.account db.overlay callee).code.delegate? with
  | none => exact World.seen_load hmissing address
  | some target =>
      rw [hdelegate] at h
      exact (World.seen_load (World.missingAccount?_load h _) address).trans
        (World.seen_load hmissing address)

theorem missingAccount?_loadCallee {overlay : Overlay} {address : Address}
    (h : world.missingAccount? overlay address = none) :
    (loadCallee world overlay callee).missingAccount? overlay address = none := by
  unfold loadCallee
  dsimp only
  split
  next => exact World.missingAccount?_load (World.missingAccount?_load h _) _
  next => exact World.missingAccount?_load h _

/-- What a transaction has prepared is enough to move its value. -/
theorem exists_moved (hworld : Prepared block tx db world) {after : Database}
    (hafter : after.Extends db) (hheld : after.overlay.Holds (.account tx.caller))
    (hnone : missingCallee? world after.overlay callee = none)
    (hpassed : Passed config block tx (db.account tx.caller))
    (hroom : tx.caller ≠ callee →
      (db.account callee).balance.toNat + tx.value.toNat < Word.size) :
    ∃ moved, (loadCallee world after.overlay callee).transfer after.overlay tx.caller callee
        tx.value = .ok moved ∧
      moved.view after = (loadCallee world after.overlay callee).view after := by
  have hbalance (address : Address) :
      ((loadCallee world after.overlay callee).seen after address).account.balance =
        if tx.caller = address then (paid block tx (db.account address)).balance
        else (db.account address).balance := by
    rw [seen_loadCallee hnone, World.seen_of_extends hafter, hworld.balance]
  refine World.exists_transfer
    (missingAccount?_loadCallee (Database.missingAccount?_of_holds hheld))
    (missingAccount?_loadCallee (missingAccount?_of_missingCallee? hnone)) ?_ fun hother => ?_
  · rw [hbalance, if_pos rfl]
    exact paid_affords_value hpassed
  · rw [hbalance, if_neg hother]
    exact hroom hother

theorem Prepared.congr {other : World} (h : Prepared block tx db world)
    (hseen : ∀ address, other.seen db address = world.seen db address) :
    Prepared block tx db other where
  account address := by simpa only [hseen] using h.account address
  code address := by simpa only [hseen] using h.code address
  balance address := by simpa only [hseen] using h.balance address
  destroyed address := by simpa only [hseen] using h.destroyed address
  slot address key := by simpa only [World.seenSlot, hseen] using h.slot address key

/-- A valid transaction that calls an account comes to what the code that runs for the account
comes to. -/
theorem attains_ran (hanswers : db.Answers)
    (hpassed : Passed config block tx (db.account tx.caller))
    (hcallee : tx.callee = some callee) (hordinary : callee ∉ Precompile.addresses config.fork)
    (hroom : tx.caller ≠ callee →
      (db.account callee).balance.toNat + tx.value.toNat < Word.size)
    (hcode : ∀ world, Prepared block tx db world → ((world.view db).running callee).bytes = code) :
    db.Attains (runTransaction config block tx (intrinsicGas config.fork tx)) fun value after =>
      Ran config block tx db callee code value.1 (after.commit value.2) := by
  rw [runTransaction_eq]
  refine (attains_prepare hanswers hpassed.accepted).bind ?_
  rintro ⟨world, existing⟩ prepared hprepared ⟨hworld, hheld, hexisting⟩
  have hpreparedAnswers := hanswers.of_extends hprepared
  have hmoves (after : Database) (hafter : after.Extends prepared) :=
    fun hnone => exists_moved hworld (hafter.trans hprepared) (hafter.grows _ hheld) hnone hpassed
      hroom
  -- The value moves wherever the call opens, since all balances are known before the first frame.
  refine (attains_openFirst hpreparedAnswers _ hcallee hordinary
    fun after hafter hnone => (hmoves after hafter hnone).imp fun _ h => h.1).bind ?_
  rintro first start hstart ⟨moved, hnone, hmoved, rfl⟩
  obtain ⟨_, hmoved', hview⟩ := hmoves start hstart hnone
  cases hmoved.symm.trans hmoved'
  have hstartDb := hstart.trans hprepared
  have hrunning : (runningCode world start.overlay callee).bytes = code := by
    rw [runningCode_eq_running hnone, World.view_of_extends hstartDb, hcode world hworld]
  refine ((hpreparedAnswers.of_extends hstart).attains_runMachine ..).bind ?_
  rintro ⟨result, last⟩ ended hended hrun
  have hendedAnswers := (hpreparedAnswers.of_extends hstart).of_extends hended
  refine (attains_payOut hendedAnswers ..).run_eq.bind ?_
  rintro settled paidOut - ⟨hpayOut, -⟩
  -- Empty code opens no frame, but one with empty code would stop in the first round.
  have hfuel : fuelFor tx.gasLimit.toNat = (8 * tx.gasLimit.toNat + 63) + 1 := by
    unfold fuelFor
    omega
  rw [hfuel, run_ofCall, hrunning, ← hfuel] at hrun
  have hseen (address : Address) :
      (loadCallee world start.overlay callee).seen db address = world.seen db address := by
    rw [← World.seen_of_extends hstartDb, seen_loadCallee hnone, World.seen_of_extends hstartDb]
  exact .pure (.intro hstartDb (hstart.grows _ hheld) (hworld.congr hseen) hmoved hview hrun
    hexisting rfl hpayOut)

/-! ## Whose code runs -/

/-- Where an account delegates, the code of the other account runs. -/
theorem Prepared.running_of_delegation (h : Prepared block tx db world) {target : Address}
    (hcode : (db.account callee).code = .delegation target) (hcallee : callee ∉ tx.signers)
    (htarget : target ∉ tx.signers) :
    (world.view db).running callee = (db.account target).code := by
  have hdelegates : (world.view db).code callee = .delegation target :=
    (h.code callee fun hmem => absurd hmem hcallee).trans hcode
  unfold View.running
  rw [hdelegates]
  exact h.code target fun hmem => absurd hmem htarget

/-- Code of its own runs whatever authorizations there are. -/
theorem Prepared.running_of_ownsCode (h : Prepared block tx db world)
    (hown : (db.account callee).ownsCode) :
    (world.view db).running callee = (db.account callee).code := by
  have hsame : (world.view db).code callee = (db.account callee).code := h.code callee fun _ => hown
  have hdelegate : (db.account callee).code.delegate? = none :=
    Option.isNone_iff_eq_none.mp (Bool.and_eq_true_iff.mp hown).2
  unfold View.running
  rw [hsame, hdelegate]

/-! ## Code that is no instruction -/

theorem settle_of_halted {fork : HardFork} {limit floor : Nat} (hfloor : floor ≤ limit)
    (cause : Halt) :
    settle fork limit floor (.halted cause) 0 = { spent := limit, refunded := 0 } := by
  have hwithin := @settle_within limit floor 0 (.halted cause) fork hfloor (Nat.zero_le _)
    (Nat.zero_le _) (.inr (Nat.zero_le _))
  have hspent := hwithin.halted cause rfl
  have hrefunded := hwithin.kept (by simp [Result.halted])
  generalize settle fork limit floor (.halted cause) 0 = settlement at hspent hrefunded ⊢
  obtain ⟨spent, refunded⟩ := settlement
  exact congrArg₂ Settlement.mk hspent hrefunded

/-- Where the first byte that runs is no instruction the transaction halts, and takes all of its
gas unless it has signers. It changes no slot, and no code but those of signers. -/
theorem Ran.of_unknown {final : ExecutionResult} {after : Database} (hsteady : db.Steady)
    (hpassed : Passed config block tx (db.account tx.caller))
    (h : Ran config block tx db callee code final after)
    (hunknown : Opcode.ofByte? (code[0]?.getD 0) = none) :
    ∃ gasUsed, final = .halt gasUsed .opcodeNotFound ∧
      (tx.kind ≠ 4 → gasUsed = tx.gasLimit.toNat) ∧
      (∀ address key, after.slot address key = db.slot address key) ∧
      ∀ address, (address ∈ tx.signers → (db.account address).ownsCode) →
        (after.account address).code = (db.account address).code := by
  obtain ⟨hstart, hheld, hsaved, -, -, hrun, hexisting, rfl, hpayOut⟩ := h
  rw [show fuelFor tx.gasLimit.toNat = (8 * tx.gasLimit.toNat + 63) + 1 by unfold fuelFor; omega,
    run, step_of_unknown hunknown, run_done] at hrun
  cases hrun
  obtain ⟨_, _, hpaidOut, hpayOut', hkept⟩ := attains_payOut (hsteady.answers.of_extends hstart)
    config block tx (settle config.fork tx.gasLimit.toNat (intrinsicGas config.fork tx).floor
      (.halted .opcodeNotFound) _) _
  cases hpayOut.symm.trans hpayOut'
  obtain ⟨hview, -, hdestroyed⟩ := hkept hheld
  have hlater := hpaidOut.trans hstart
  have hview := hview.trans (World.view_of_extends hlater _)
  refine ⟨_, rfl, fun hkind => ?_, fun address key => ?_, fun address haddress => ?_⟩
  · rw [hexisting hkind, Nat.mul_zero,
      settle_of_halted (checkIntrinsicGas_eq_ok.mp hpassed.covered).2]
    rfl
  · rw [← hlater.state.slot]
    refine Database.slot_commit_of_seen ((hsteady.of_extends hlater).remembers _) ?_
    rw [hlater.state.slot, ← hsaved.slot]
    exact congrFun (congrFun (congrArg View.slot hview) address) key
  · rw [← hlater.state.account]
    refine Database.code_commit_of_seen ?_ ?_
    · rw [hdestroyed, World.seen_of_extends hlater, hsaved.destroyed]
    · rw [hlater.state.account, ← hsaved.code address haddress]
      exact congrFun (congrArg View.code hview) address

end Evm

end ForkReplay
