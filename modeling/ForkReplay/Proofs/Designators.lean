import ForkReplay.Proofs.CalledCode
import ForkReplay.Proofs.OwnState

/-!
# Written delegations as code

The code of an account that delegates is written as three bytes and the address of another
account. A fork whose node reports such bytes takes the account for one that delegates. A state of
its own keeps the same bytes as code that runs as it stands: its executor turns transactions of
the account down, and calls of the account halt.
-/

namespace ForkReplay

open Node (Query)

/-! ## The bytes -/

namespace Code

theorem size_delegation (target : Address) : (Code.delegation target).bytes.size = 23 := by
  rw [bytes, ByteArray.size_append, Address.toBytes, Bytes.size_ofNat]
  rfl

/-- A written delegation is read as what it is. -/
theorem ofStored?_delegation (target : Address) :
    ofStored? (Code.delegation target).bytes = some (.delegation target) := by
  have hsize : target.toBytes.size = 20 := Bytes.size_ofNat 20 target.toNat
  have hmark : (Code.delegation target).bytes.extract 0 3 = delegationMark :=
    ByteArray.extract_append_eq_left rfl
  have hstart : (Code.delegation target).bytes.extract 0 2 = Bytes.ofList [0xef, 0x01] := by
    have hinner := @ByteArray.extract_extract (Code.delegation target).bytes 0 3 0 2
    rw [hmark] at hinner
    exact hinner.symm.trans (by decide)
  have htarget : (Code.delegation target).bytes.extract 3 23 = target.toBytes :=
    ByteArray.extract_append_eq_right rfl (by rw [hsize]; rfl)
  have hvalue : Bytes.toNat target.toBytes = target.toNat := by
    rw [Address.toBytes, Bytes.toNat_ofNat, BitVec.toNat_ofNat]
    exact Nat.mod_eq_of_lt target.isLt
  rw [ofStored?, if_pos hstart, if_pos ⟨size_delegation target, hmark⟩, htarget, hvalue]
  exact congrArg (some ∘ Code.delegation) (BitVec.ofNat_toNat 160 target)

/-- A written delegation starts with a byte that is no instruction. -/
theorem ofByte?_delegation (target : Address) :
    Evm.Opcode.ofByte? ((Code.delegation target).bytes[0]?.getD 0) = none := by
  rw [← Bytes.getElem?_octets, bytes, Bytes.octets_append]
  rfl

end Code

/-! ## Transactions of an executor -/

namespace Executor

variable {executor : Executor} {computation : Replaying Outcome} {config : Evm.Config}
  {block : BlockEnv} {tx : Transaction} {blame : String → ReplayError} {db : Database}
  {account delegate : Address}

/-- A computation of an executor carries one transaction, as its target or as a call. -/
inductive Carries (executor : Executor) :
    Replaying Outcome → Evm.Config → BlockEnv → Transaction → (String → ReplayError) → Prop where
  | target {target : BlockTransaction} {tx : Transaction} (h : target.payload = .executable tx) :
      Carries executor (executor.executeTarget target) executor.config executor.block tx
        (.execution target.hash)
  | call (request : CallRequest) :
      Carries executor (executor.call request) executor.callConfig executor.callBlock
        (executor.callTransaction request) .call

theorem Carries.fork_eq (h : executor.Carries computation config block tx blame) :
    config.fork = executor.config.fork := by
  cases h with
  | target => rfl
  | call => rfl

/-- What carries a transaction comes to what the transaction comes to. -/
theorem Carries.run_eq (h : executor.Carries computation config block tx blame) (db : Database) :
    db.run computation =
      (((db.run (Evm.transact config block tx)).1.mapError (blamed blame)).map .ofResult,
        (db.run (Evm.transact config block tx)).2) := by
  cases h with
  | target h => rw [executeTarget, h, Database.run_map, run_commit]
  | call request =>
      rw [Executor.call, Database.run_map, run_commit]
      rfl

/-! ## Delegating accounts -/

/-- An executor takes an account for one that delegates. A valid transaction of the account comes
to an outcome as one of an account without code does, and a valid transaction that calls the
account comes to what the code of the delegate comes to, run for the account. -/
structure Delegates (executor : Executor) (db : Database) (account delegate : Address) : Prop where
  sends : ∀ {computation config block tx blame},
    executor.Carries computation config block tx blame → tx.caller = account →
    Evm.Passed config block tx { db.account account with code := default } →
    ∃ outcome, (db.run computation).1 = .ok outcome
  runs : ∀ {computation config block tx blame},
    executor.Carries computation config block tx blame → tx.callee = some account →
    Evm.Passed config block tx (db.account tx.caller) →
    (tx.caller ≠ account →
      (db.account account).balance.toNat + tx.value.toNat < Word.size) →
    account ∉ tx.signers → delegate ∉ tx.signers →
    ∃ final after, db.run computation = (.ok (.ofResult final), after) ∧
      Evm.Ran config block tx db account (db.account delegate).code.bytes final after

/-- The rules for callers do not tell a delegation from no code. -/
theorem passed_of_delegation {caller : Account} {target : Address}
    (hcode : caller.code = .delegation target)
    (hpassed : Evm.Passed config block tx { caller with code := default }) :
    Evm.Passed config block tx caller := by
  obtain ⟨hcomplete, hvalid, hcovered, haccepted⟩ := hpassed
  obtain ⟨-, hnonce, hfunds⟩ := Evm.checkCaller_eq_ok.mp haccepted
  -- Only the code is left: nonce and balance are those of the account without code.
  refine ⟨hcomplete, hvalid, hcovered, Evm.checkCaller_eq_ok.mpr ⟨?_, hnonce, hfunds⟩⟩
  rw [Account.ownsCode, hcode]
  exact Bool.false_ne_true

theorem delegates_of_delegation (hanswers : db.Answers)
    (hcode : (db.account account).code = .delegation delegate)
    (hordinary : account ∉ Evm.Precompile.addresses executor.config.fork) :
    executor.Delegates db account delegate where
  sends hcarries hcaller hpassed := by
    subst hcaller
    have hpassed := passed_of_delegation hcode hpassed
    obtain ⟨final, _, _, -, -, hrun⟩ := Evm.run_transact_of_attains hpassed
      (Evm.attains_runTransaction hanswers hpassed.accepted _)
    rw [hcarries.run_eq, hrun]
    exact ⟨_, rfl⟩
  runs {_ _ _ _ _} hcarries hcallee hpassed hroom haccount hdelegate := by
    obtain ⟨final, _, _, -, hran, hrun⟩ := Evm.run_transact_of_attains hpassed
      (Evm.attains_ran hanswers hpassed hcallee (hcarries.fork_eq ▸ hordinary) hroom
        fun world hworld =>
          congrArg Code.bytes (hworld.running_of_delegation hcode haccount hdelegate))
    rw [hcarries.run_eq, hrun]
    exact ⟨final, _, rfl, hran⟩

/-! ## Accounts with a code that is no instruction -/

/-- An executor takes an account for one whose own code is no instruction. A transaction of the
account is turned down for that code once the checks before it are passed. A valid transaction
that calls the account halts with all of its gas, unless authorizations are refunded, and changes
no slot, nor the code of the account. -/
structure Deadens (executor : Executor) (db : Database) (account : Address) : Prop where
  refuses : ∀ {computation config block tx blame},
    executor.Carries computation config block tx blame → tx.caller = account →
    Evm.checkBlock config.fork block = .ok () → Evm.checkTransaction config block tx = .ok () →
    Evm.checkIntrinsicGas (Evm.intrinsicGas config.fork tx) tx = .ok () →
    (db.run computation).1 = .error (blame (Evm.Failure.invalid .callerWithCode).message)
  halts : ∀ {computation config block tx blame},
    executor.Carries computation config block tx blame → tx.callee = some account →
    Evm.Passed config block tx (db.account tx.caller) →
    (db.account account).balance.toNat + tx.value.toNat < Word.size →
    ∃ gasUsed after,
      db.run computation = (.ok (.halt gasUsed Evm.Halt.opcodeNotFound.name), after) ∧
      (tx.kind ≠ 4 → gasUsed = tx.gasLimit) ∧
      (∀ other key, after.slot other key = db.slot other key) ∧
      (after.account account).code = (db.account account).code

theorem deadens_of_unknown (hsteady : db.Steady) {bytes : Bytes}
    (hcode : (db.account account).code = .plain bytes) (hsome : bytes.size ≠ 0)
    (hunknown : Evm.Opcode.ofByte? (bytes[0]?.getD 0) = none)
    (hordinary : account ∉ Evm.Precompile.addresses executor.config.fork) :
    executor.Deadens db account := by
  have hown : (db.account account).ownsCode := by
    rw [Account.ownsCode, hcode]
    simp [Code.isEmpty, Code.delegate?, hsome]
  -- The check of the caller's code comes before those of its nonce and its balance.
  refine ⟨?_, ?_⟩
  · intro _ config block tx blame hcarries hcaller hcomplete hvalid hcovered
    subst hcaller
    rw [hcarries.run_eq, Evm.run_transact_of_error hsteady.answers hcomplete hvalid hcovered
      (Evm.checkCaller_of_ownsCode hown)]
    rfl
  · intro _ config block tx blame hcarries hcallee hpassed hroom
    obtain ⟨final, _, _, -, hran, hrun⟩ := Evm.run_transact_of_attains hpassed
      (Evm.attains_ran hsteady.answers hpassed hcallee (hcarries.fork_eq ▸ hordinary)
        (fun _ => hroom) fun world hworld => congrArg Code.bytes (hworld.running_of_ownsCode hown))
    rw [hcode] at hran
    obtain ⟨gasUsed, rfl, hall, hslots, hcodes⟩ := hran.of_unknown hsteady hpassed hunknown
    rw [hcarries.run_eq, hrun]
    refine ⟨_, _, rfl, fun hkind => ?_, hslots, hcodes account fun _ => hown⟩
    rw [hall hkind, UInt64.ofNat_toNat]

end Executor

/-! ## The same bytes on a fork and in memory -/

/-- An account that is found has the code that its stored bytes stand for. -/
theorem Node.ofStored?_of_account {nonce : Except Failure UInt64} {balance : Except Failure Word}
    {code : Except Failure Bytes} {found : Account}
    (h : Node.account nonce balance code = .ok found) :
    ∃ bytes, code = .ok bytes ∧ Code.ofStored? bytes = some found.code := by
  unfold Node.account at h
  rcases balance with failure | balance
  · cases h
  · rcases code with failure | bytes
    · cases h
    · dsimp only at h
      split at h
      next => cases h
      next => cases h
      next hstored =>
        cases h
        exact ⟨bytes, rfl, hstored⟩

namespace Source

/-- An account for which a node reports a written delegation delegates. -/
theorem AnsweredBy.code_of_reported {source : Source} {number : UInt64}
    {answer : (query : Query) → query.Reply} (h : source.AnsweredBy number answer)
    {account delegate : Address}
    (hreported : answer (.state .code account number) = .ok (Code.delegation delegate).bytes) :
    (source.account account).code = .delegation delegate := by
  obtain ⟨bytes, hbytes, hstored⟩ := Node.ofStored?_of_account (h.lookup (.account account))
  cases hreported.symm.trans hbytes
  exact Option.some.inj (hstored.symm.trans (Code.ofStored?_delegation delegate))

end Source

namespace Overlay

/-- Bytes that are deployed at an account stay its code under whatever edits and reads, unless
other code is deployed. -/
theorem code_of_uses {overlay : Overlay} (hown : overlay.isFork = false) (source : Source)
    {account : Address} (bytes : Bytes) {uses : List Use}
    (huses : ∀ other, Use.edit (.code account other) ∉ uses) :
    let after := uses.foldl Use.apply (overlay.setCode account bytes)
    after.isFork = false ∧
      (({ overlay := after, source } : Database).account account).code = .plain bytes := by
  have hkept (start : Overlay) (hfork : start.isFork = false)
      (hcode : (start.shown account).account.code = .plain bytes) :
      (uses.foldl Use.apply start).isFork = false ∧
        ((uses.foldl Use.apply start).shown account).account.code = .plain bytes := by
    induction uses generalizing start with
    | nil => exact ⟨hfork, hcode⟩
    | cons use rest ih =>
        refine ih (fun other hmem => huses other (List.mem_cons_of_mem _ hmem)) _ ?_ ?_
        · rw [Use.isFork_apply, hfork]
        · rw [Use.code_shown_apply, hcode]
          rintro other rfl
          exact huses other List.mem_cons_self
  intro after
  obtain ⟨hfork, hcode⟩ := hkept (overlay.setCode account bytes)
    ((overlay.isFork_editAccount account _).trans hown)
    (by rw [setCode, shown_editAccount, if_pos rfl])
  exact ⟨hfork, (congrArg Account.code (account_eq_shown hfork account)).trans hcode⟩

end Overlay

/-- Where a node reports a written delegation as the code of an account, a fork of the node takes
the account for one that delegates, for as long as it reads so. A state of its own at which the
same bytes are deployed does not, whatever else is edited and read: transactions of the account
are turned down for its code, and calls of the account halt. -/
theorem Executor.designator_delegates_on_fork_alone (executor : Executor)
    {account : Address} (hordinary : account ∉ Evm.Precompile.addresses executor.config.fork)
    (delegate : Address) :
    (∀ {source : Source} {number : UInt64} {answer : (query : Query) → query.Reply},
      source.AnsweredBy number answer →
      answer (.state .code account number) = .ok (Code.delegation delegate).bytes →
      (∀ computation : Replaying Outcome,
        ((Node.onFork number .fork computation).run answer).1 =
          (source.forked.run computation).1) ∧
      executor.Delegates source.forked account delegate ∧
      ∀ later : Database, later.source = source →
        (later.account account).code = .delegation delegate →
        executor.Delegates later account delegate) ∧
    ∀ (overlay : Overlay) (source : Source) (uses : List Use), overlay.isFork = false →
      (∀ other, Use.edit (.code account other) ∉ uses) →
      executor.Deadens
        { overlay := uses.foldl Use.apply
            (overlay.setCode account (Code.delegation delegate).bytes)
          source } account := by
  refine ⟨fun {source number answer} hanswered hreported => ?_, ?_⟩
  · have hlater (later : Database) (hsource : later.source = source)
        (hcode : (later.account account).code = .delegation delegate) :
        executor.Delegates later account delegate :=
      delegates_of_delegation (fun _ => hsource ▸ hanswered.succeeds) hcode hordinary
    refine ⟨fun computation => ?_, hlater _ rfl (hanswered.code_of_reported hreported), hlater⟩
    rw [hanswered.run_onFork]
  · intro overlay source uses hown huses
    obtain ⟨hstillOwn, hcode⟩ :=
      Overlay.code_of_uses hown source (Code.delegation delegate).bytes huses
    refine deadens_of_unknown (.of_own hstillOwn) hcode ?_ (Code.ofByte?_delegation delegate)
      hordinary
    rw [Code.size_delegation]
    exact Nat.succ_ne_zero _

namespace Sample

/-- Code that returns the first slot of the account that it runs for. -/
def firstSlot : Bytes :=
  Bytes.ofList [0x60, 0x00, 0x54, 0x60, 0x00, 0x52, 0x60, 0x20, 0x60, 0x00, 0xf3]

/-- A state in which one account delegates to another. Their first slots differ. -/
def delegation : Source where
  account address :=
    if address = 0xabc then { code := .delegation 0xdef }
    else if address = 0xdef then { code := .plain firstSlot }
    else {}
  slot address key :=
    if address = 0xabc ∧ key = 0 then 7 else if address = 0xdef ∧ key = 0 then 9 else 0
  blockHash _ := 0

/-- A node that gives this state after every block. -/
def delegationNode : (query : Query) → query.Reply
  | .chainId => .ok (1 : UInt64)
  | .transaction _ => .ok none
  | .block .latest _ => .ok none
  | .block (.number _) _ => .ok (some { hash := 0, header := default, listing := .hashes [] })
  | .state .nonce address _ => .ok (delegation.account address).nonce
  | .state .balance address _ => .ok (delegation.account address).balance
  | .state .code address _ => .ok (delegation.account address).code.bytes
  | .state (.slot key) address _ => .ok (delegation.slot address key)

theorem delegation_answeredBy (number : UInt64) :
    delegation.AnsweredBy number delegationNode where
  lookup lookup := by
    cases lookup with
    | account address =>
        have hstored : Code.ofStored? (delegation.account address).code.bytes =
            some (delegation.account address).code := by
          simp only [delegation]
          split
          next => exact Code.ofStored?_delegation _
          next =>
            split
            next => decide
            next => decide
        simp only [Node.lookup, Dialogue.run, delegationNode, Node.account, hstored]
        rfl
    | slot address key => rfl
    | blockHash block => rfl
  succeeds _ _ := rfl

/-- The same state in memory, piece by piece. -/
def deployed : Database where
  overlay :=
    [Use.edit (.slot 0xabc 0 7), .edit (.slot 0xdef 0 9)].foldl Use.apply
      ((Overlay.empty.setCode 0xdef firstSlot).setCode 0xabc (Code.delegation 0xdef).bytes)
  source := delegation

/-- A free transaction without data between two accounts. -/
def plainTransaction (caller callee : Address) : BlockTransaction where
  hash := 1
  sender := caller
  payload := .executable (transaction caller 0 (some callee) (Bytes.ofList []) 0)

/-- Any account without code of its own can send it first. -/
theorem passed_plainTransaction {caller callee : Address} {account : Account}
    (hcode : ¬ account.ownsCode) (hnonce : account.nonce = 0) :
    Evm.Passed config (block 1) (transaction caller 0 (some callee) (Bytes.ofList []) 0)
      account where
  complete := by decide +kernel
  valid := by
    have hlimit : (1000000 : UInt64) ≤ 30000000 := by decide
    exact Evm.checkTransaction_eq_ok.mpr ⟨rfl, rfl, hlimit, fun _ => nofun⟩
  covered := by
    have htokens : Evm.tokens (Bytes.ofList []) = 0 := rfl
    have hprague : config.fork.has .prague = true := rfl
    have hgas : Evm.intrinsicGas config.fork
        (transaction caller 0 (some callee) (Bytes.ofList []) 0) =
          { initial := 21000, floor := 21000 } := by
      simp [Evm.intrinsicGas, transaction, htokens, hprague, Evm.keyCount]
    have hlimit : 21000 ≤ (1000000 : UInt64).toNat := by decide
    rw [hgas]
    exact Evm.checkIntrinsicGas_eq_ok.mpr ⟨hlimit, hlimit⟩
  accepted := Evm.checkCaller_eq_ok.mpr ⟨hcode, fun _ => hnonce.symm, 0, rfl, Nat.zero_le _⟩

end Sample

/-- An account that delegates sends transactions on the fork alone, and calls of it run the code of
the other account on the fork alone. -/
theorem Executor.designator_delegates_on_fork_of_sample :
    let executor : Executor := { config := Sample.config, block := Sample.block 1 }
    let called := executor.executeTarget (Sample.plainTransaction 0x51 0xabc)
    let sent := executor.executeTarget (Sample.plainTransaction 0xabc 0x51)
    (0xabc : Address) ∉ Evm.Precompile.addresses executor.config.fork ∧
      Sample.delegation.AnsweredBy 4 Sample.delegationNode ∧
      Sample.delegationNode (.state .code 0xabc 4) = .ok (Code.delegation 0xdef).bytes ∧
      (∃ final after, Sample.delegation.forked.run called = (.ok (.ofResult final), after) ∧
        Evm.Ran executor.config executor.block
          (Sample.transaction 0x51 0 (some 0xabc) (Bytes.ofList []) 0) Sample.delegation.forked
          0xabc Sample.firstSlot final after) ∧
      (∃ outcome, (Sample.delegation.forked.run sent).1 = .ok outcome) ∧
      (∃ gasUsed, (Sample.deployed.run called).1 = .ok (.halt gasUsed "OpcodeNotFound")) ∧
      (Sample.deployed.run sent).1 = .error (.execution 1
        "transaction validation error: reject transactions from senders with deployed code") := by
  intro executor called sent
  have hordinary : (0xabc : Address) ∉ Evm.Precompile.addresses executor.config.fork := by
    decide +kernel
  have hanswered := Sample.delegation_answeredBy 4
  obtain ⟨hfork, hmemory⟩ := executor.designator_delegates_on_fork_alone hordinary 0xdef
  obtain ⟨-, hdelegates, -⟩ := hfork hanswered rfl
  have hdeadens : executor.Deadens Sample.deployed 0xabc :=
    hmemory (Overlay.empty.setCode 0xdef Sample.firstSlot) Sample.delegation
      [.edit (.slot 0xabc 0 7), .edit (.slot 0xdef 0 9)] rfl (by simp)
  have hcall : executor.Carries called executor.config executor.block _ _ := .target rfl
  have hsend : executor.Carries sent executor.config executor.block _ _ := .target rfl
  refine ⟨hordinary, hanswered, rfl, ?_, ?_, ?_, ?_⟩
  · exact hdelegates.runs hcall rfl (Sample.passed_plainTransaction (by decide +kernel) rfl)
      (fun _ => by decide +kernel) (List.not_mem_nil) (List.not_mem_nil)
  · exact hdelegates.sends hsend rfl (Sample.passed_plainTransaction (by decide +kernel) rfl)
  · obtain ⟨gasUsed, _, hrun, -⟩ := hdeadens.halts hcall rfl
      (Sample.passed_plainTransaction (by decide +kernel) (by decide +kernel)) (by decide +kernel)
    exact ⟨gasUsed, congrArg Prod.fst hrun⟩
  · exact hdeadens.refuses hsend rfl (by decide +kernel) rfl rfl

/-- The state in memory holds the same bytes as the node's, and its executor still does not take
the account for one that delegates. -/
theorem Executor.designator_dead_in_memory :
    let executor : Executor := { config := Sample.config, block := Sample.block 1 }
    let called := executor.executeTarget (Sample.plainTransaction 0x51 0xabc)
    let sent := executor.executeTarget (Sample.plainTransaction 0xabc 0x51)
    Sample.delegation.AnsweredBy 4 Sample.delegationNode ∧
      Sample.delegationNode (.state .code 0xabc 4) =
        .ok (Sample.deployed.account 0xabc).code.bytes ∧
      ((Node.onFork 4 .fork called).run Sample.delegationNode).1 =
        .ok (.success 23118 0 (Bytes.ofList (List.replicate 31 0 ++ [7])) none) ∧
      (Sample.deployed.run called).1 = .ok (.halt 1000000 "OpcodeNotFound") ∧
      ((Node.onFork 4 .fork sent).run Sample.delegationNode).1 =
        .ok (.success 21000 0 (Bytes.ofList []) none) ∧
      (Sample.deployed.run sent).1 = .error (.execution 1
        "transaction validation error: reject transactions from senders with deployed code") ∧
      ¬ executor.Delegates Sample.deployed 0xabc 0xdef := by
  intro executor called sent
  have hsent : (Sample.deployed.run sent).1 = .error (.execution 1
      "transaction validation error: reject transactions from senders with deployed code") := by
    decide +kernel
  have hsame : (Sample.delegation.account 0xabc).code.bytes =
      (Sample.deployed.account 0xabc).code.bytes := by
    decide +kernel
  refine ⟨Sample.delegation_answeredBy 4, congrArg Except.ok hsame, by decide +kernel,
    by decide +kernel, by decide +kernel, hsent, fun hdelegates => ?_⟩
  have hsend : executor.Carries sent executor.config executor.block _ _ := .target rfl
  obtain ⟨outcome, hrun⟩ := hdelegates.sends hsend rfl
    (Sample.passed_plainTransaction (by decide +kernel) (by decide +kernel))
  cases hsent.symm.trans hrun

end ForkReplay
