import ForkReplay.Chain.Sample
import ForkReplay.Proofs.BlockReplay
import ForkReplay.Proofs.Checks
import ForkReplay.Proofs.Courses

/-!
# Calls

A call runs as a free transaction without a nonce of its own, with as much gas as is asked
for and the block allows. It comes to an outcome unless its gas does not cover its data, or
its caller lacks the value or has code of its own. Its gas is accounted for within that limit.
-/

namespace ForkReplay

namespace Text

/-- A text that begins with another one. -/
def Begins (start text : String) : Prop := start.toList <+: text.toList

instance (start text : String) : Decidable (Begins start text) :=
  inferInstanceAs (Decidable (start.toList <+: text.toList))

theorem Begins.refl (start : String) : Begins start start := List.prefix_refl _

theorem Begins.append {start text : String} (h : Begins start text) (more : String) :
    Begins start (text ++ more) := by
  rw [Begins, String.toList_append]
  exact h.trans (List.prefix_append _ _)

end Text

namespace Evm

open Text (Begins)

/-! ## Settled gas -/

/-- What a settlement keeps to when nothing but the run itself is refunded. -/
structure Settlement.Within (fork : HardFork) (limit least : Nat) (exit : Exit)
    (settlement : Settlement) : Prop where
  spent : settlement.spent ≤ limit
  least : least ≤ settlement.spent
  refunded : settlement.refunded ≤ settlement.spent / (if fork.has .london then 5 else 2)
  kept : exit ≠ .ok → settlement.refunded = 0
  halted : ∀ cause, exit = .halt cause → settlement.spent = limit

theorem settle_within {limit floor least : Nat} {result : Result} (fork : HardFork)
    (hfloor : floor ≤ limit) (hleast : least ≤ limit) (hgas : result.gas ≤ limit - least)
    (hlow : floor = 0 ∨ least ≤ floor) :
    (settle fork limit floor result 0).Within fork limit least result.exit := by
  -- What holds of the gas that was spent and refunded survives the rise to the floor.
  have hraised {spent refunded : Nat} (hspent : spent ≤ limit) (hleast : least ≤ spent)
      (hrefunded : refunded ≤ spent / (if fork.has .london then 5 else 2))
      (hkept : result.exit ≠ .ok → refunded = 0)
      (hhalted : ∀ cause, result.exit = .halt cause → spent = limit) :
      (if spent - refunded < floor then { spent := floor, refunded := 0 }
        else { spent, refunded } : Settlement).Within fork limit least result.exit := by
    split
    next hbelow =>
      have hraised : least ≤ floor := hlow.resolve_left (by omega)
      refine ⟨hfloor, hraised, Nat.zero_le _, fun _ => rfl, fun cause hcause => ?_⟩
      have hspent := hhalted cause hcause
      have hrefunded := hkept (by simp [hcause])
      omega
    next => exact ⟨hspent, hleast, hrefunded, hkept, hhalted⟩
  have hcapped (refund : Int) (cap : Nat) :
      (if refund < 0 then cap else min refund.toNat cap) ≤ cap := by
    split
    next => exact Nat.le_refl _
    next => exact Nat.min_le_right _ _
  have hspent : least ≤ limit - result.gas := by omega
  unfold settle
  cases hexit : result.exit with
  | ok =>
      rw [hexit] at hraised
      exact hraised (Nat.sub_le _ _) hspent (hcapped _ _) (absurd rfl) nofun
  | revert =>
      rw [hexit] at hraised
      exact hraised (Nat.sub_le _ _) hspent (hcapped _ _) (fun _ => by simp) nofun
  | halt cause =>
      rw [hexit] at hraised
      exact hraised (Nat.sub_le _ _) hleast (hcapped _ _) (fun _ => by simp) fun _ _ => rfl

/-! ## Messages -/

/-- Only one cause is worded like a gas limit above that of the block. -/
theorem Invalid.eq_gasLimitAboveBlock {cause : Invalid}
    (h : cause.message = Invalid.gasLimitAboveBlock.message) : cause = .gasLimitAboveBlock := by
  -- A message with numbers in it differs before the first of them.
  have hbegins {start : String} (hstart : Begins start cause.message) :
      Begins start Invalid.gasLimitAboveBlock.message := h ▸ hstart
  cases cause with
  | gasLimitAboveBlock => rfl
  | notSupported proposal =>
      refine absurd (hbegins ?_) (by decide : ¬ Begins "Eip" _)
      exact ((Begins.refl _).append _).append _
  | gasCostAboveLimit cost limit =>
      refine absurd (hbegins ?_) (by decide : ¬ Begins "call gas cost (" _)
      exact ((((Begins.refl _).append _).append _).append _).append _
  | gasFloorAboveLimit floor limit =>
      refine absurd (hbegins ?_) (by decide : ¬ Begins "gas floor (" _)
      exact ((((Begins.refl _).append _).append _).append _).append _
  | nonceTooHigh given expected | nonceTooLow given expected =>
      refine absurd (hbegins ?_) (by decide : ¬ Begins "nonce " _)
      exact (((Begins.refl _).append _).append _).append _
  | lackOfFunds balance cost =>
      refine absurd (hbegins ?_) (by decide : ¬ Begins "lack of funds (" _)
      exact ((((Begins.refl _).append _).append _).append _).append _
  | _ => exact absurd h (by decide)

theorem Failure.eq_gasLimitAboveBlock {failure : Failure}
    (h : failure.message = (Failure.invalid .gasLimitAboveBlock).message) :
    failure = .invalid .gasLimitAboveBlock := by
  have hbegins {start : String} (hstart : Begins start failure.message) :
      Begins start (Failure.invalid .gasLimitAboveBlock).message := h ▸ hstart
  cases failure with
  | invalid cause => rw [Invalid.eq_gasLimitAboveBlock ((String.append_right_inj _).mp h)]
  | incompleteBlock lack =>
      exact absurd (hbegins ((Begins.refl "header validation error: ").append _)) (by decide)
  | database message =>
      exact absurd (hbegins ((Begins.refl "database error: ").append _)) (by decide)
  | crashed => exact absurd h (by decide)

/-- A transaction that passes the checks on itself is not refused for the gas limit of its
block later on. -/
theorem Course.ne_gasLimitAboveBlock {config : Config} {block : BlockEnv} {tx : Transaction}
    {db : Database} {reply : Except Failure ExecutionResult} (h : Course config block tx db reply)
    (hvalid : checkTransaction config block tx = .ok ()) :
    reply ≠ .error (.invalid .gasLimitAboveBlock) := by
  cases h with
  | incompleteBlock _ => nofun
  | invalid hinvalid =>
      rw [hvalid] at hinvalid
      cases hinvalid
  | tooLittleGas hgas =>
      rintro ⟨⟩
      revert hgas
      fun_cases checkIntrinsicGas with
      | case1 | case2 | case3 => nofun
  | turnedDown hcaller =>
      rintro ⟨⟩
      revert hcaller
      fun_cases checkCaller with
      | case1 | case2 | case3 | case4 | case5 | case6 => nofun
  | interrupted failure _ =>
      cases failure with
      | failed message | crashed => nofun
  | ran _ _ => nofun

end Evm

/-- The gas that was given back. -/
def Outcome.gasRefunded : Outcome → UInt64
  | .success _ gasRefunded _ _ => gasRefunded
  | _ => 0

namespace Executor

variable {executor : Executor} {db : Database} {request : CallRequest}

/-- The rules for calls. -/
def callConfig (executor : Executor) : Evm.Config := { executor.config with checksNonce := false }

/-- The block for calls. -/
def callBlock (executor : Executor) : BlockEnv := { executor.block with baseFee := 0 }

/-- The gas limit of a call. -/
def callCap (executor : Executor) (request : CallRequest) : UInt64 :=
  min (request.gasLimit.getD CallRequest.defaultGasLimit) executor.block.gasLimit

/-! ## The checks on a call -/

theorem checkTransaction_call (executor : Executor) (request : CallRequest) :
    Evm.checkTransaction executor.callConfig executor.callBlock
      (executor.callTransaction request) = .ok () :=
  Evm.checkTransaction_eq_ok.mpr ⟨if_pos rfl, rfl, Std.min_le_right, fun _ => nofun⟩

theorem intrinsicGas_call (fork : HardFork) (executor : Executor) (request : CallRequest) :
    Evm.intrinsicGas fork (executor.callTransaction request) =
      { initial := 21000 + 4 * Evm.tokens request.data
        floor := if fork.has .prague then 21000 + 10 * Evm.tokens request.data else 0 } := by
  simp [Evm.intrinsicGas, callTransaction, Evm.keyCount, Nat.add_comm]

/-- A call takes nothing but its value from its caller. -/
theorem maxSpending?_call (executor : Executor) (request : CallRequest) :
    Evm.maxSpending? (executor.callTransaction request) = some request.value.toNat := by
  have hfits : ¬ Word.size ≤ request.value.toNat := Nat.not_le_of_lt request.value.isLt
  simp [Evm.maxSpending?, callTransaction, hfits]

theorem checkIntrinsicGas_call (fork : HardFork)
    (hcovered : 21000 + 4 * Evm.tokens request.data ≤ (executor.callCap request).toNat)
    (hfloor : fork.has .prague →
      21000 + 10 * Evm.tokens request.data ≤ (executor.callCap request).toNat) :
    Evm.checkIntrinsicGas (Evm.intrinsicGas fork (executor.callTransaction request))
      (executor.callTransaction request) = .ok () := by
  rw [intrinsicGas_call]
  refine Evm.checkIntrinsicGas_eq_ok.mpr ⟨hcovered, ?_⟩
  dsimp only
  split
  next hprague => exact hfloor hprague
  next => exact Nat.zero_le _

/-- The blocks that executors are made for have what their rules ask for. -/
theorem checkBlock_call
    (hblock : (∃ context : BlockContext, executor.block = context.env executor.config.fork) ∨
      ∃ number, executor.block = Sample.block number) :
    Evm.checkBlock executor.config.fork executor.callBlock = .ok () := by
  rw [callBlock]
  rcases hblock with ⟨context, hblock⟩ | ⟨number, hblock⟩
  · rw [hblock]
    refine Evm.checkBlock_eq_ok.mpr ⟨fun hmerge => ?_, fun _ => rfl⟩
    simp [BlockContext.env, hmerge]
  · rw [hblock]
    exact Evm.checkBlock_eq_ok.mpr ⟨fun _ => rfl, fun _ => rfl⟩

theorem checkCaller_call {caller : Account} (hcode : ¬ caller.ownsCode)
    (hfunds : request.value.toNat ≤ caller.balance.toNat) :
    Evm.checkCaller executor.callConfig (executor.callTransaction request) caller = .ok () :=
  Evm.checkCaller_eq_ok.mpr ⟨hcode, nofun, _, maxSpending?_call executor request, hfunds⟩

/-! ## Running a call -/

/-- A call takes the course of its transaction. -/
theorem call_course (executor : Executor) (db : Database) (request : CallRequest) :
    (∃ failure, Evm.Course executor.callConfig executor.callBlock
        (executor.callTransaction request) db (.error failure) ∧
      (db.run (executor.call request)).1 = .error (blamed .call failure)) ∨
    ∃ final, Evm.Course executor.callConfig executor.callBlock
        (executor.callTransaction request) db (.ok final) ∧
      (db.run (executor.call request)).1 = .ok (.ofResult final) := by
  have hcourse := Evm.course_transact executor.callConfig executor.callBlock
    (executor.callTransaction request) db
  have hrun : (db.run (executor.call request)).1 = ((db.run (Evm.transact executor.callConfig
      executor.callBlock (executor.callTransaction request))).1.mapError
        (blamed .call)).map Outcome.ofResult := by
    rw [call, Database.run_map, run_commit]
    rfl
  rw [hrun]
  cases hreply : (db.run (Evm.transact executor.callConfig executor.callBlock
    (executor.callTransaction request))).1 with
  | error failure => exact .inl ⟨failure, hreply ▸ hcourse, rfl⟩
  | ok final => exact .inr ⟨final, hreply ▸ hcourse, rfl⟩

theorem settled_call {final : Evm.ExecutionResult} {caller : Account}
    (hpassed : Evm.Passed executor.callConfig executor.callBlock
      (executor.callTransaction request) caller)
    (hsettled : Evm.Settled executor.callConfig (executor.callTransaction request) final) :
    ∃ result settlement, final = .ofResult result settlement ∧
      settlement.Within executor.config.fork (executor.callCap request).toNat
        (21000 + 4 * Evm.tokens request.data) result.exit := by
  obtain ⟨result, existing, hgas, hexisting, rfl⟩ := hsettled
  obtain ⟨hinitial, hfloor⟩ := Evm.checkIntrinsicGas_eq_ok.mp hpassed.covered
  obtain rfl := hexisting (show (0 : UInt8) ≠ 4 by decide)
  rw [intrinsicGas_call] at *
  refine ⟨_, _, rfl, Evm.settle_within _ hfloor hinitial hgas ?_⟩
  dsimp only
  split
  next => exact .inr (by omega)
  next => exact .inl rfl

/-- The outcome of a settled result has the numbers of its settlement. -/
theorem gas_ofResult {fork : HardFork} {limit : UInt64} {least : Nat} {result : Evm.Result}
    {settlement : Evm.Settlement} (h : settlement.Within fork limit.toNat least result.exit) :
    let outcome := Outcome.ofResult (.ofResult result settlement)
    outcome.gasUsed.toNat + outcome.gasRefunded.toNat = settlement.spent ∧
      outcome.gasRefunded.toNat = settlement.refunded := by
  have hrefunded : settlement.refunded ≤ settlement.spent :=
    Nat.le_trans h.refunded (Nat.div_le_self _ _)
  have hsmall {gas : Nat} (hgas : gas ≤ settlement.spent) : (UInt64.ofNat gas).toNat = gas := by
    rw [UInt64.toNat_ofNat']
    exact Nat.mod_eq_of_lt (Nat.lt_of_le_of_lt (Nat.le_trans hgas h.spent) limit.toNat_lt)
  have hused : (Outcome.ofResult (.ofResult result settlement)).gasUsed =
      UInt64.ofNat (settlement.spent - settlement.refunded) := by
    unfold Evm.ExecutionResult.ofResult
    cases result.exit with
    | ok | revert | halt cause => rfl
  have hback : (Outcome.ofResult (.ofResult result settlement)).gasRefunded =
      UInt64.ofNat settlement.refunded := by
    have hkept := h.kept
    unfold Evm.ExecutionResult.ofResult
    cases hexit : result.exit with
    | ok => rfl
    | revert | halt cause =>
        rw [hkept (by simp [hexit])]
        rfl
  intro outcome
  rw [hused, hback, hsmall (Nat.sub_le _ _), hsmall hrefunded, Nat.sub_add_cancel hrefunded]
  exact ⟨rfl, rfl⟩

theorem exit_of_halt {result : Evm.Result} {settlement : Evm.Settlement} {gasUsed : UInt64}
    {reason : String}
    (h : Outcome.ofResult (.ofResult result settlement) = .halt gasUsed reason) :
    ∃ cause, result.exit = .halt cause := by
  unfold Evm.ExecutionResult.ofResult at h
  cases hexit : result.exit with
  | ok | revert =>
      rw [hexit] at h
      cases h
  | halt cause => exact ⟨cause, rfl⟩

theorem message_of_blamed {failure : Evm.Failure} {message : String}
    (h : blamed .call failure = .call message) : failure.message = message := by
  cases failure with
  | crashed => cases h
  | incompleteBlock _ | invalid _ | database _ =>
      cases h
      rfl

/-- A call uses no more gas than it may, and all of it if it halts. What it spends covers
its intrinsic gas, and of that no more than a fifth is given back, or half before London. It is
never refused for the gas limit of its block. -/
theorem call_within_cap (executor : Executor) (db : Database) (request : CallRequest) :
    (∀ outcome, (db.run (executor.call request)).1 = .ok outcome →
      let spent := outcome.gasUsed.toNat + outcome.gasRefunded.toNat
      outcome.gasUsed ≤ executor.callCap request ∧
        (∀ gasUsed reason, outcome = .halt gasUsed reason →
          gasUsed = executor.callCap request) ∧
        outcome.gasRefunded.toNat ≤ spent / (if executor.config.fork.has .london then 5 else 2) ∧
        21000 + 4 * Evm.tokens request.data ≤ spent ∧
        spent ≤ (executor.callCap request).toNat) ∧
    (db.run (executor.call request)).1 ≠
      .error (.call (Evm.Failure.invalid .gasLimitAboveBlock).message) := by
  rcases executor.call_course db request with ⟨failure, hcourse, hrun⟩ | ⟨final, hcourse, hrun⟩
  · rw [hrun]
    refine ⟨nofun, fun herror => ?_⟩
    have hfailure := Evm.Failure.eq_gasLimitAboveBlock (message_of_blamed (Except.error.inj herror))
    exact hcourse.ne_gasLimitAboveBlock (executor.checkTransaction_call request)
      (congrArg Except.error hfailure)
  · rw [hrun]
    refine ⟨?_, nofun⟩
    rintro outcome ⟨⟩
    cases hcourse with
    | ran hpassed hsettled =>
      obtain ⟨result, settlement, rfl, hwithin⟩ := settled_call hpassed hsettled
      obtain ⟨hspent, hrefunded⟩ := gas_ofResult hwithin
      intro spent
      rw [hrefunded, show spent = settlement.spent from hspent]
      refine ⟨?_, ?_, hwithin.refunded, hwithin.least, hwithin.spent⟩
      · rw [UInt64.le_iff_toNat_le]
        exact Nat.le_trans (Nat.le.intro hspent) hwithin.spent
      · intro gasUsed reason hhalt
        obtain ⟨cause, hexit⟩ := exit_of_halt hhalt
        rw [hhalt, hwithin.halted cause hexit] at hspent
        exact UInt64.toNat_inj.mp hspent

/-- Where no lookup fails, a call with enough gas comes to an outcome for every caller that has
the value, whatever its nonce and the base fee of the block. Only a caller with code of its own
is turned down. -/
theorem call_answers_unless_ownsCode (executor : Executor) (db : Database) (request : CallRequest)
    (hblock : (∃ context : BlockContext, executor.block = context.env executor.config.fork) ∨
      ∃ number, executor.block = Sample.block number)
    (hsucceeds : ∀ asked lookup, db.source.failure? asked lookup = none)
    (hcovered : 21000 + 4 * Evm.tokens request.data ≤ (executor.callCap request).toNat)
    (hfloor : executor.config.fork.has .prague →
      21000 + 10 * Evm.tokens request.data ≤ (executor.callCap request).toNat)
    (hfunds : request.value.toNat ≤ (db.account request.caller).balance.toNat) :
    (¬ (db.account request.caller).ownsCode →
      ∃ outcome, (db.run (executor.call request)).1 = .ok outcome) ∧
    ((db.account request.caller).ownsCode →
      (db.run (executor.call request)).1 =
        .error (.call (Evm.Failure.invalid .callerWithCode).message)) := by
  have hblock := checkBlock_call hblock
  have hvalid := executor.checkTransaction_call request
  have hgas := checkIntrinsicGas_call executor.config.fork hcovered hfloor
  -- All checks but the one on the caller pass, and no lookup interrupts what comes after them.
  rcases executor.call_course db request with ⟨failure, hcourse, hrun⟩ | ⟨final, hcourse, hrun⟩
  · generalize hreply : Except.error failure = reply at hcourse
    cases hcourse with
    | incompleteBlock h => exact absurd (hblock.symm.trans h) nofun
    | invalid h => exact absurd (hvalid.symm.trans h) nofun
    | tooLittleGas h => exact absurd (hgas.symm.trans h) nofun
    | interrupted cause hfails =>
        obtain ⟨asked, lookup, hfailure⟩ := hfails
        exact absurd (hsucceeds asked lookup) hfailure
    | ran _ _ => cases hreply
    | turnedDown h =>
        obtain rfl := Except.error.inj hreply
        refine ⟨fun hcode => ?_, fun hcode => ?_⟩
        · exact absurd ((checkCaller_call hcode hfunds).symm.trans h) nofun
        · cases (Evm.checkCaller_of_ownsCode hcode).symm.trans h
          exact hrun
  · cases hcourse with
    | ran hpassed _ =>
        refine ⟨fun _ => ⟨_, hrun⟩, fun hcode => ?_⟩
        exact absurd hcode (Evm.checkCaller_eq_ok.mp hpassed.accepted).1

end Executor

namespace Sample

/-- A fork of a chain whose accounts are all empty but for the code of one. -/
def codeAt (address : Address) (code : Code) : Database where
  overlay := .fork
  source :=
    { account := fun other => if other = address then { code } else {}
      slot := fun _ _ => 0
      blockHash := fun _ => 0 }

end Sample

/-- The default caller may delegate to another account. -/
theorem Executor.call_of_delegating_caller :
    let executor : Executor := { config := Sample.config, block := Sample.block 1 }
    let request := CallRequest.new 0xb0b (Bytes.ofList [])
    let db := Sample.codeAt request.caller (.delegation 0xb0b)
    ¬ (db.account request.caller).ownsCode ∧
      ∃ outcome, (db.run (executor.call request)).1 = .ok outcome := by
  intro executor request db
  have hcode : ¬ (db.account request.caller).ownsCode := by decide +kernel
  have hcovered : 21000 + 4 * Evm.tokens request.data ≤ (executor.callCap request).toNat := by
    decide +kernel
  have hfloor : 21000 + 10 * Evm.tokens request.data ≤ (executor.callCap request).toNat := by
    decide +kernel
  exact ⟨hcode, (executor.call_answers_unless_ownsCode db request (.inr ⟨1, rfl⟩)
    (fun _ _ => rfl) hcovered (fun _ => hfloor) (Nat.zero_le _)).1 hcode⟩

/-- A caller whose code is a single stop is turned down, though nothing else stands in the way. -/
theorem Executor.call_refused_to_contract :
    let executor : Executor := { config := Sample.config, block := Sample.block 1 }
    let request := CallRequest.new 0xb0b (Bytes.ofList [])
    let db := Sample.codeAt request.caller (.plain (Bytes.ofList [0]))
    (∀ asked lookup, db.source.failure? asked lookup = none) ∧
      21000 + 4 * Evm.tokens request.data ≤ (executor.callCap request).toNat ∧
      21000 + 10 * Evm.tokens request.data ≤ (executor.callCap request).toNat ∧
      request.value.toNat ≤ (db.account request.caller).balance.toNat ∧
      ∀ outcome, (db.run (executor.call request)).1 ≠ .ok outcome := by
  intro executor request db
  refine ⟨fun _ _ => rfl, by decide +kernel, by decide +kernel, Nat.zero_le _, ?_⟩
  intro outcome houtcome
  have herror : (db.run (executor.call request)).1 =
      .error (.call (Evm.Failure.invalid .callerWithCode).message) := by decide +kernel
  rw [herror] at houtcome
  cases houtcome

end ForkReplay
