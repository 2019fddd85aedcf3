import ForkReplay.Proofs.Checks
import ForkReplay.Proofs.SeenState

/-!
# Stages of a call

On a database that answers, a transaction that passes its checks gets through all of its stages.
Here is what each stage of one that calls a contract without value leaves to the next: what is
seen of the accounts, and the frame that is opened.
-/

namespace ForkReplay

open Evm Evm.Stage

namespace Database

variable {α β : Type} {db after : Database} {post : α → Database → Prop}

/-- A stage comes to a value as wanted, and has only looked things up. -/
def Attains (db : Database) (x : Stage α) (post : α → Database → Prop) : Prop :=
  ∃ value after, after.Extends db ∧ db.run x = (.ok value, after) ∧ post value after

namespace Attains

theorem pure {value : α} (h : post value db) : db.Attains (Pure.pure value) post :=
  ⟨value, db, .refl db, rfl, h⟩

theorem bind {x : Stage α} {f : α → Stage β} {mid : α → Database → Prop}
    {post : β → Database → Prop} (hx : db.Attains x mid)
    (hf : ∀ value after, after.Extends db → mid value after → after.Attains (f value) post) :
    db.Attains (x >>= f) post := by
  obtain ⟨value, middle, hmiddle, hrun, hmid⟩ := hx
  obtain ⟨result, last, hlast, hrest, hpost⟩ := hf value middle hmiddle hmid
  refine ⟨result, last, hlast.trans hmiddle, ?_, hpost⟩
  rw [run_bind, hrun]
  exact hrest

theorem get_bind {f : Overlay → Stage α} (h : db.Attains (f db.overlay) post) :
    db.Attains (MonadState.get >>= f) post := h

theorem mono {x : Stage α} {post' : α → Database → Prop} (hx : db.Attains x post)
    (h : ∀ value after, after.Extends db → post value after → post' value after) :
    db.Attains x post' := by
  obtain ⟨value, after, hafter, hrun, hpost⟩ := hx
  exact ⟨value, after, hafter, hrun, h value after hafter hpost⟩

/-- The value is the one that the stage comes to. -/
theorem run_eq {x : Stage α} (hx : db.Attains x post) :
    db.Attains x fun value after => db.run x = (.ok value, after) ∧ post value after := by
  obtain ⟨value, after, hafter, hrun, hpost⟩ := hx
  exact ⟨value, after, hafter, hrun, hrun, hpost⟩

theorem keeping {lookups : Overlay → Lookups (Except LookupFailure α × Overlay)} {value : α}
    (hafter : after.Extends db) (hrun : db.resume (lookups db.overlay) = (.ok value, after))
    (h : post value after) : db.Attains (Stage.keeping lookups) post :=
  ⟨value, after, hafter, run_keeping_of_ok hrun, h⟩

theorem check {result : Except Invalid Unit} (h : result = .ok ()) :
    db.Attains (Stage.check result) fun _ after => after = db := by
  subst h
  exact .pure rfl

end Attains

theorem Answers.attains_obtain (h : db.Answers) {missing : Overlay → Option Lookup}
    (hmissing : ∀ {overlay lookup}, missing overlay = some lookup → overlay.Lacks lookup)
    {rounds : Nat} (hsettles : Settles missing rounds db) :
    db.Attains (obtain missing rounds) fun _ after => missing after.overlay = none := by
  obtain ⟨after, hafter, hnone, hsupply⟩ := h.resume_supply hmissing rounds
  exact .keeping hafter hsupply (hnone hsettles)

/-- On a database that answers every run ends. -/
theorem Answers.resume_run (h : db.Answers) (env : Env) (fuel : Nat) (first : Step) :
    ∃ value after, after.Extends db ∧
      db.resume (Evm.run env fuel db.overlay first) = (.ok value, after) := by
  -- The state that an access needs is looked up first, so the database is general.
  induction fuel generalizing db first with
  | zero =>
      cases first with
      | next m => exact ⟨_, db, .refl db, rfl⟩
      | access what m => exact ⟨_, db, .refl db, rfl⟩
      | done result last => exact ⟨_, db, .refl db, rfl⟩
  | succ fuel ih =>
      cases first with
      | next m => exact ih h _
      | access what m =>
          obtain ⟨middle, hmiddle, -, hsupply⟩ :=
            @Answers.resume_supply db (fun overlay => what.missing? overlay m) h
              Access.lacks_of_missing? 2
          obtain ⟨value, after, hafter, hrun⟩ := ih (h.of_extends hmiddle) _
          rw [run_access, resume_bind, hsupply]
          exact ⟨value, after, hafter.trans hmiddle, hrun⟩
      | done result last => exact ⟨_, db, .refl db, rfl⟩

theorem Answers.attains_runMachine (h : db.Answers) (env : Env) (fuel : Nat) (first : Step) :
    db.Attains (runMachine env fuel first) fun value after =>
      db.resume (Evm.run env fuel db.overlay first) = (.ok value, after) := by
  obtain ⟨value, after, hafter, hrun⟩ := h.resume_run env fuel first
  exact .keeping hafter hrun hrun

theorem Answers.attains_obtainAccount (h : db.Answers) (world : World) (address : Address) :
    db.Attains (obtainAccount world address)
      fun _ after => world.missingAccount? after.overlay address = none :=
  h.attains_obtain World.lacks_of_missingAccount? (settles_missingAccount 0)

end Database

/-- No authorization applies to an account that has code of its own. -/
theorem Authorization.applies_eq_false (authorization : Authorization) {account : Account}
    (h : account.ownsCode) : authorization.applies account = false := by
  unfold Account.ownsCode at h
  unfold Authorization.applies
  obtain ⟨hcode, hdelegate⟩ := Bool.and_eq_true_iff.mp h
  rw [Bool.not_eq_true'] at hcode
  rw [hcode, Option.isSome_eq_false_iff.mpr hdelegate]
  rfl

/-- The accounts whose nonces and codes the authorizations of a transaction may change. Only
kind 4 has some. -/
def Transaction.signers (tx : Transaction) : List Address :=
  if tx.kind = 4 then tx.authorizations.filterMap Authorization.authority else []

namespace World

/-- One world follows another if both show the same, but for nonces and codes of signers without
code of their own. -/
structure Follows (db : Database) (signers : List Address) (after before : World) : Prop where
  account : ∀ address, (address ∈ signers → (before.seen db address).account.ownsCode) →
    (after.seen db address).account = (before.seen db address).account
  balance : ∀ address, (after.seen db address).account.balance =
    (before.seen db address).account.balance
  destroyed : ∀ address, (after.seen db address).destroyed = (before.seen db address).destroyed
  slot : ∀ address key, after.seenSlot db address key = before.seenSlot db address key

namespace Follows

variable {db later : Database} {signers : List Address} {first second third world : World}
  {address : Address} {key : Word}

theorem of_seen (h : ∀ address, second.seen db address = first.seen db address) :
    second.Follows db signers first where
  account address _ := by rw [h]
  balance address := by rw [h]
  destroyed address := by rw [h]
  slot address key := by rw [seenSlot, seenSlot, h]

theorem refl (world : World) : world.Follows db signers world := .of_seen fun _ => rfl

theorem trans (h' : third.Follows db signers second) (h : second.Follows db signers first) :
    third.Follows db signers first where
  account address hsigner := by
    have hsame := h.account address hsigner
    rw [h'.account address (hsame ▸ hsigner), hsame]
  balance address := (h'.balance address).trans (h.balance address)
  destroyed address := (h'.destroyed address).trans (h.destroyed address)
  slot address key := (h'.slot address key).trans (h.slot address key)

theorem mono {more : List Address} (h : second.Follows db signers first)
    (hmore : ∀ address ∈ signers, address ∈ more) : second.Follows db more first where
  account address hsigner := h.account address fun hmem => hsigner (hmore address hmem)
  balance := h.balance
  destroyed := h.destroyed
  slot := h.slot

/-- It does not matter what has been looked up. -/
theorem of_extends (h : second.Follows later signers first) (hlater : later.Extends db) :
    second.Follows db signers first where
  account address := by simpa only [seen_of_extends hlater] using h.account address
  balance address := by simpa only [seen_of_extends hlater] using h.balance address
  destroyed address := by simpa only [seen_of_extends hlater] using h.destroyed address
  slot address key := by simpa only [seenSlot_of_extends hlater] using h.slot address key

theorem load (h : world.missingAccount? db.overlay address = none) :
    (world.load db.overlay address).Follows db signers world :=
  .of_seen (seen_load h)

theorem putSlot (h : world.missingSlot? db.overlay address key = none)
    (hstays : (world.seen db address).destroyed = false) :
    (world.putSlot db.overlay address key (world.slot db.overlay address key)).Follows db signers
      world := by
  have hmissing := missingAccount?_of_missingSlot? h
  have hentry (other : Address) : ∃ slots,
      (world.putSlot db.overlay address key (world.slot db.overlay address key)).seen db other =
        { world.seen db other with slots } := by
    rw [World.putSlot, seen_modify hmissing]
    split
    next => exact ⟨_, rfl⟩
    next => exact ⟨_, rfl⟩
  refine ⟨fun other _ => ?_, fun other => ?_, fun other => ?_, fun other otherKey => ?_⟩
  · obtain ⟨slots, hslots⟩ := hentry other
    rw [hslots]
  · obtain ⟨slots, hslots⟩ := hentry other
    rw [hslots]
  · obtain ⟨slots, hslots⟩ := hentry other
    rw [hslots]
  · rw [seenSlot_putSlot hmissing hstays, slot_eq_seenSlot h hstays]
    split
    next hsame => rw [hsame.1, hsame.2]
    next => rfl

/-- An authorization that applies changes the nonce and the code of its signer, who has no code
of its own. -/
theorem authorized {authorization : Authorization} (hsigner : address ∈ signers)
    (happlies : authorization.applies (world.seen db address).account) :
    (world.put address { world.seen db address with
      account := { (world.seen db address).account with
        nonce := (world.seen db address).account.nonce + 1
        code := authorization.code }
      touched := true }).Follows db signers world := by
  refine ⟨fun other hother => ?_, fun other => ?_, fun other => ?_, fun other key => ?_⟩
  · rw [seen_put]
    split
    next hsame =>
      subst hsame
      rw [authorization.applies_eq_false (hother hsigner)] at happlies
      cases happlies
    next => rfl
  · rw [seen_put]
    split
    next hsame => rw [← hsame]
    next => rfl
  · rw [seen_put]
    split
    next hsame => rw [← hsame]
    next => rfl
  · rw [seenSlot, seen_put]
    split
    next hsame =>
      subst hsame
      rfl
    next => rfl

end Follows

end World

namespace Evm

variable {config : Config} {block : BlockEnv} {tx : Transaction} {db : Database} {world : World}
  {address callee : Address} {account : Account}

/-! ## The payment -/

/-- The account of a caller that has paid. -/
def paid (block : BlockEnv) (tx : Transaction) (caller : Account) : Account :=
  { caller with
    balance := BitVec.ofNat 256 (caller.balance.toNat - prepayment block tx)
    nonce :=
      if tx.callee.isSome ∧ caller.nonce ≠ Account.lastNonce then caller.nonce + 1
      else caller.nonce }

theorem seen_openingWorld (fork : HardFork) (block : BlockEnv) (db : Database)
    (address : Address) : (openingWorld fork block).seen db address =
      { account := db.account address } := rfl

/-- The caller pays, and nothing else is accessed. -/
theorem attains_payUp (h : db.Answers)
    (hcaller : checkCaller config tx (db.account tx.caller) = .ok ()) :
    db.Attains (payUp config block tx (openingWorld config.fork block)) fun world after =>
      world.Writes ∧ after.overlay.Holds (.account tx.caller) ∧
        ∀ address, world.seen after address =
          if tx.caller = address then
            { account := paid block tx (db.account address), touched := true }
          else { account := db.account address } := by
  refine (h.attains_obtainAccount _ _).bind fun _ middle hmiddle hnone => .get_bind ?_
  have hseen := World.accessed_eq_seen hnone
  have haccount : (openingWorld config.fork block).account middle.overlay tx.caller =
      db.account tx.caller := by
    rw [World.account, hseen, seen_openingWorld, hmiddle.state.account]
  rw [haccount]
  refine (Database.Attains.check hcaller).bind ?_
  rintro _ _ - rfl
  refine .pure ⟨?_, ?_, ?_⟩
  · apply World.Writes.modify
    · intro other entry _ hentry
      cases hentry
    · exact ⟨rfl, by rw [hseen]; rfl⟩
  · unfold World.missingAccount? at hnone
    split at hnone
    next hknown => exact (Bool.or_eq_true_iff.mp hknown).resolve_left (by simp [openingWorld])
    next => cases hnone
  · intro address
    rw [takePayment, World.seen_modify hnone, haccount, seen_openingWorld, hmiddle.state.account]
    split
    next hsame =>
      subst hsame
      rfl
    next => rfl

/-- Where only the caller has been accessed to pay, only its nonce is seen to change. -/
theorem view_of_paid {after : Database} (hafter : after.Extends db)
    (h : ∀ address, world.seen after address =
      if tx.caller = address then
        { account := paid block tx (db.account address), touched := true }
      else { account := db.account address }) :
    world.view after =
      db.view.withNonce tx.caller (paid block tx (db.account tx.caller)).nonce := by
  apply View.ext
  · funext address
    change (world.seen after address).account.nonce = if tx.caller = address then _ else _
    rw [h]
    split
    next hsame => rw [hsame]
    next => rfl
  · funext address
    change (world.seen after address).account.code = _
    rw [h]
    split
    next => rfl
    next => rfl
  · funext address key
    change (world.seen after address).lastValue key (after.slot address key) = db.slot address key
    rw [h, hafter.state.slot]
    split
    next => simp [AccessedAccount.lastValue]
    next => simp [AccessedAccount.lastValue]

/-! ## Access lists and authorizations -/

/-- Accessing slots changes nothing that is seen. -/
theorem attains_loadKeys (h : db.Answers) (keys : List Word)
    (hstays : ∀ other, (world.seen db other).destroyed = false) :
    db.Attains (loadKeys address keys world) fun listed _ => listed.Follows db [] world := by
  -- A slot is recorded as it reads, but one of a destroyed account is seen as zero all the same.
  induction keys generalizing db world with
  | nil => exact .pure (.refl world)
  | cons key keys ih =>
      refine (h.attains_obtain World.lacks_of_missingSlot? (Database.settles_missingSlot key)).bind
        fun _ middle hmiddle hnone => .get_bind ?_
      have hstays' (other : Address) : (world.seen middle other).destroyed = false := by
        rw [World.seen_of_extends hmiddle, hstays]
      have hput : (world.putSlot middle.overlay address key
          (world.slot middle.overlay address key)).Follows middle [] world :=
        .putSlot hnone (hstays' address)
      refine (ih (h.of_extends hmiddle) fun other => ?_).mono fun listed _ _ hlisted => ?_
      · rw [hput.destroyed, hstays']
      · exact (hlisted.trans hput).of_extends hmiddle

theorem attains_loadAccessList (h : db.Answers) (entries : List AccessEntry)
    (hstays : ∀ other, (world.seen db other).destroyed = false) :
    db.Attains (loadAccessList entries world) fun listed _ => listed.Follows db [] world := by
  induction entries generalizing db world with
  | nil => exact .pure (.refl world)
  | cons entry entries ih =>
      refine (h.attains_obtainAccount _ _).bind fun _ middle hmiddle hnone => .get_bind ?_
      have hload : (world.load middle.overlay entry.address).Follows middle [] world :=
        .load hnone
      have hloadStays (other : Address) :
          ((world.load middle.overlay entry.address).seen middle other).destroyed = false := by
        rw [hload.destroyed, World.seen_of_extends hmiddle, hstays]
      refine (attains_loadKeys (h.of_extends hmiddle) entry.keys hloadStays).bind
        fun keyed last hlast hkeyed => ?_
      refine (ih ((h.of_extends hmiddle).of_extends hlast) fun other => ?_).mono
        fun listed _ _ hlisted => ?_
      · rw [World.seen_of_extends hlast, hkeyed.destroyed, hloadStays]
      · exact ((hlisted.of_extends hlast).trans (hkeyed.trans hload)).of_extends hmiddle

theorem attains_accessListed (h : db.Answers) (tx : Transaction)
    (hstays : ∀ other, (world.seen db other).destroyed = false) :
    db.Attains (accessListed tx world) fun listed _ => listed.Follows db [] world := by
  unfold accessListed
  split
  next => exact .pure (.refl world)
  next => exact attains_loadAccessList h _ hstays

/-- Authorizations change nonces and codes of signers without code of their own. -/
theorem attains_applyAuthorizations (h : db.Answers) {signers : List Address}
    (authorizations : List Authorization) (existing : Nat)
    (hsigners : ∀ authorization ∈ authorizations, ∀ signer,
      authorization.authority = some signer → signer ∈ signers) :
    db.Attains (applyAuthorizations config authorizations world existing) fun value _ =>
      value.1.Follows db signers world := by
  induction authorizations generalizing db world existing with
  | nil => exact .pure (.refl world)
  | cons authorization rest ih =>
      have hrest := fun other hmem => hsigners other (List.mem_cons_of_mem authorization hmem)
      unfold applyAuthorizations
      dsimp only
      split
      next => exact ih h existing hrest
      next authority hauthority =>
        split
        next => exact ih h existing hrest
        next =>
          refine (h.attains_obtainAccount _ _).bind fun _ middle hmiddle hnone => .get_bind ?_
          have hload : (world.load middle.overlay authority).Follows middle signers world :=
            .load hnone
          have hmiddleAnswers := h.of_extends hmiddle
          split
          next =>
            exact (ih hmiddleAnswers existing hrest).mono fun _ _ _ happlied =>
              (happlied.trans hload).of_extends hmiddle
          next happlies =>
            refine (ih hmiddleAnswers _ hrest).mono fun _ _ _ happlied =>
              (happlied.trans (.trans ?_ hload)).of_extends hmiddle
            rw [World.accessed_eq_seen (World.missingAccount?_load hnone _)] at happlies ⊢
            exact .authorized (hsigners _ List.mem_cons_self _ hauthority) (by simpa using happlies)

theorem attains_authorize (h : db.Answers) (config : Config) (tx : Transaction) (world : World) :
    db.Attains (authorize config tx world) fun value _ =>
      value.1.Follows db tx.signers world ∧ (tx.kind ≠ 4 → value.2 = 0) := by
  unfold authorize
  split
  next hkind =>
    refine (attains_applyAuthorizations h tx.authorizations 0
      fun authorization hmem signer hsigner => ?_).mono
        fun _ _ _ hfollows => ⟨hfollows, fun hother => absurd hkind hother⟩
    rw [Transaction.signers, if_pos hkind]
    exact List.mem_filterMap.mpr ⟨authorization, hmem, hsigner⟩
  next => exact .pure ⟨.refl world, fun _ => rfl⟩

/-! ## Before the first frame -/

/-- What is seen on a database once the caller has paid and authorizations are applied. -/
structure Prepared (block : BlockEnv) (tx : Transaction) (db : Database) (world : World) :
    Prop where
  account : ∀ address, tx.caller ≠ address →
    (address ∈ tx.signers → (db.account address).ownsCode) →
    (world.seen db address).account = db.account address
  code : ∀ address, (address ∈ tx.signers → (db.account address).ownsCode) →
    (world.seen db address).account.code = (db.account address).code
  balance : ∀ address, (world.seen db address).account.balance =
    if tx.caller = address then (paid block tx (db.account address)).balance
    else (db.account address).balance
  destroyed : ∀ address, (world.seen db address).destroyed = false
  slot : ∀ address key, world.seenSlot db address key = db.slot address key

theorem Prepared.of_follows {before : World}
    (hpaid : ∀ address, before.seen db address =
      if tx.caller = address then
        { account := paid block tx (db.account address), touched := true }
      else { account := db.account address })
    (hfollows : world.Follows db tx.signers before) : Prepared block tx db world where
  account other hother hsigner := by
    have hbefore : (before.seen db other).account = db.account other := by
      rw [hpaid, if_neg hother]
    rw [hfollows.account other (hbefore ▸ hsigner), hbefore]
  code other hsigner := by
    have hbefore : (before.seen db other).account.code = (db.account other).code := by
      rw [hpaid]
      split
      next => rfl
      next => rfl
    rw [hfollows.account other fun hmem => ?_, hbefore]
    have hown := hsigner hmem
    unfold Account.ownsCode at hown ⊢
    rwa [hbefore]
  balance other := by
    rw [hfollows.balance, hpaid]
    split
    next => rfl
    next => rfl
  destroyed other := by
    rw [hfollows.destroyed, hpaid]
    split
    next => rfl
    next => rfl
  slot other key := by
    rw [hfollows.slot, World.seenSlot, hpaid]
    split
    next => simp [AccessedAccount.lastValue]
    next => simp [AccessedAccount.lastValue]

/-- The stages of a transaction before its first frame. They leave the number of signers whose
accounts exist. -/
def prepare (config : Config) (block : BlockEnv) (tx : Transaction) : Stage (World × Nat) := do
  let world ← payUp config block tx (openingWorld config.fork block)
  let world ← accessListed tx world
  authorize config tx world

/-- The stages of a transaction from its first frame on. -/
def runPrepared (config : Config) (block : BlockEnv) (tx : Transaction) (gas : IntrinsicGas)
    (world : World) (existing : Nat) : Stage (ExecutionResult × World) := do
  let limit := tx.gasLimit.toNat
  let env := environment config block tx
  let first ← openFirst env tx (limit - gas.initial) world
  let (result, world) ← runMachine env (fuelFor limit) first
  let settlement := settle config.fork limit gas.floor result (12500 * existing)
  let world ← payOut config block tx settlement world
  return (.ofResult result settlement, world)

theorem runTransaction_eq (config : Config) (block : BlockEnv) (tx : Transaction)
    (gas : IntrinsicGas) :
    runTransaction config block tx gas =
      prepare config block tx >>= fun value =>
        runPrepared config block tx gas value.1 value.2 := by
  simp only [prepare, bind_assoc]
  rfl

/-- The stages before the first frame come to a world in which the caller has paid. -/
theorem attains_prepare (h : db.Answers)
    (hcaller : checkCaller config tx (db.account tx.caller) = .ok ()) :
    db.Attains (prepare config block tx) fun value after =>
      Prepared block tx db value.1 ∧ after.overlay.Holds (.account tx.caller) ∧
        (tx.kind ≠ 4 → value.2 = 0) := by
  refine (attains_payUp h hcaller).bind ?_
  rintro payed afterPayment hpayment ⟨-, hheld, hseen⟩
  have hpaid := h.of_extends hpayment
  have hstays (address : Address) : (payed.seen afterPayment address).destroyed = false := by
    rw [hseen]
    split
    next => rfl
    next => rfl
  refine (attains_accessListed hpaid tx hstays).bind ?_
  intro listed afterList hlist hlisted
  refine (attains_authorize (hpaid.of_extends hlist) config tx listed).mono ?_
  rintro value after hafter ⟨hauthorized, hexisting⟩
  have hfirst : listed.Follows afterPayment tx.signers payed := hlisted.mono nofun
  refine ⟨.of_follows ?_ (((hauthorized.of_extends hlist).trans hfirst).of_extends hpayment),
    hafter.grows _ (hlist.grows _ hheld), hexisting⟩
  intro address
  rw [← World.seen_of_extends hpayment, hseen]

/-! ## The first frame -/

/-- The frame of a transaction that calls a contract. -/
def Frame.ofCall (tx : Transaction) (callee : Address) (code : Bytes) (gas : Nat) (saved : World) :
    Frame where
  address := callee
  caller := tx.caller
  value := tx.value
  input := tx.data
  code
  jumpTable := Evm.jumpTable code
  isStatic := false
  depth := 0
  purpose := .call 0 0
  saved
  gas

/-- A call that has moved its value: a frame for its code, or its end if there is none. -/
def Step.ofCall (tx : Transaction) (callee : Address) (code : Code) (gas : Nat)
    (saved moved : World) : Step :=
  if code.isEmpty then .done { exit := .ok, gas } moved
  else .next ⟨.ofCall tx callee code.bytes gas saved, [], moved⟩

theorem runningCode_of_code_eq {overlay : Overlay} {other : World}
    (h : ∀ address, (other.account overlay address).code = (world.account overlay address).code) :
    runningCode other overlay callee = runningCode world overlay callee := by
  unfold runningCode
  dsimp only
  rw [h]
  cases (world.account overlay callee).code.delegate? with
  | none => rfl
  | some target => exact h target

/-- A call that can move its value goes on with the code that runs for the account. -/
theorem enter_openCall {env : Env} {overlay : Overlay} {moved : World} (gas : Nat)
    (hordinary : callee ∉ Precompile.addresses env.fork)
    (hmoved : (loadCallee world overlay callee).transfer overlay tx.caller callee tx.value =
      .ok moved) :
    (openCall env overlay
        { caller := tx.caller, address := callee, codeAddress := callee, value := tx.value,
          moves := true, input := tx.data, gas, isStatic := false, depth := 0 } world).enter [] =
      .ofCall tx callee (runningCode world overlay callee) gas (loadCallee world overlay callee)
        moved := by
  have hrunning : runningCode moved overlay callee = runningCode world overlay callee :=
    runningCode_of_code_eq fun address => by
      rw [World.code_transfer hmoved, account_loadCallee]
  have hnone : env.precompiles.at? env.fork callee = none :=
    if_neg (by simpa using hordinary)
  unfold openCall
  simp only [if_true, hmoved, hnone, hrunning]
  rw [if_neg (Nat.not_lt_zero _), Step.ofCall]
  split
  next => rfl
  next => rfl

/-- A call that can move its value looks up its account and the one that it delegates to, and
goes on with the code that runs. -/
theorem attains_openFirst {env : Env} (h : db.Answers) (gas : Nat)
    (hcallee : tx.callee = some callee) (hordinary : callee ∉ Precompile.addresses env.fork)
    (hmoves : ∀ after : Database, after.Extends db →
      missingCallee? world after.overlay callee = none →
      ∃ moved, (loadCallee world after.overlay callee).transfer after.overlay tx.caller callee
        tx.value = .ok moved) :
    db.Attains (openFirst env tx gas world) fun first after => ∃ moved,
      missingCallee? world after.overlay callee = none ∧
        (loadCallee world after.overlay callee).transfer after.overlay tx.caller callee tx.value =
          .ok moved ∧
        first = .ofCall tx callee (runningCode world after.overlay callee) gas
          (loadCallee world after.overlay callee) moved := by
  unfold openFirst
  rw [hcallee]
  refine (h.attains_obtain lacks_of_missingCallee? Database.settles_missingCallee).bind
    fun _ after hafter hnone => .get_bind ?_
  obtain ⟨moved, hmoved⟩ := hmoves after hafter hnone
  exact .pure ⟨moved, hnone, hmoved, enter_openCall gas hordinary hmoved⟩

theorem missingAccount?_of_missingCallee? {overlay : Overlay}
    (h : missingCallee? world overlay callee = none) :
    world.missingAccount? overlay callee = none := by
  unfold missingCallee? at h
  split at h
  next => cases h
  next hfound => exact hfound

/-- A call without value of an account with code opens a frame for it and touches it, which
changes nothing that is seen of the accounts. -/
theorem attains_openFirst_of_code {env : Env} (h : db.Answers) {code : Bytes} (gas : Nat)
    (hcallee : tx.callee = some callee) (hvalue : tx.value = 0)
    (hordinary : callee ∉ Precompile.addresses env.fork)
    (hcode : (world.seen db callee).account.code = .plain code) (hsome : code.size ≠ 0) :
    db.Attains (openFirst env tx gas world) fun first after => ∃ saved moved,
      first = .next ⟨.ofCall tx callee code gas saved, [], moved⟩ ∧
        (world.Writes → moved.Writes) ∧ (moved.seen after callee).touched = true ∧
        moved.view after = world.view after := by
  have htransfer (loaded : World) (overlay : Overlay) :
      loaded.transfer overlay tx.caller callee tx.value = .ok (loaded.touch overlay callee) := by
    rw [hvalue]
    exact if_pos rfl
  refine (attains_openFirst h gas hcallee hordinary fun after _ _ =>
    ⟨_, htransfer _ after.overlay⟩).mono ?_
  rintro first after hafter ⟨moved, hnone, hmoved, rfl⟩
  rw [htransfer] at hmoved
  cases hmoved
  have hmissing := missingAccount?_of_missingCallee? hnone
  have hcode : (world.account after.overlay callee).code = .plain code := by
    rw [World.account_eq_seen hmissing, World.seen_of_extends hafter, hcode]
  have hload : loadCallee world after.overlay callee = world.load after.overlay callee := by
    unfold loadCallee
    dsimp only
    rw [World.account_load, hcode]
    rfl
  have hrunning : runningCode world after.overlay callee = .plain code := by
    unfold runningCode
    dsimp only
    rw [hcode]
    rfl
  have hempty : ¬ (Code.plain code).isEmpty := by simpa [Code.isEmpty] using hsome
  have hloaded := World.missingAccount?_load hmissing callee
  rw [hload, hrunning]
  refine ⟨_, _, if_neg hempty, ?_, ?_, ?_⟩
  · intro hwrites
    apply World.Writes.modify
    · intro other entry hother hentry
      refine hwrites other entry ?_
      rwa [World.getElem?_load_of_ne _ _ hother] at hentry
    · rw [World.accessed_load, World.accessed_eq_seen hmissing]
      exact ⟨rfl, hwrites.destroyed after callee⟩
  · rw [World.touch, World.seen_modify hloaded, if_pos rfl]
  · exact (World.view_touch hloaded).trans (World.view_load hmissing)

/-! ## The settlement -/

theorem view_credit (h : world.missingAccount? db.overlay address = none) (amount : Nat) :
    (world.credit db.overlay address amount).view db = world.view db :=
  World.view_modify h (fun _ => rfl) (fun _ => rfl) fun _ _ _ => rfl

theorem writes_credit (h : world.missingAccount? db.overlay address = none)
    (hwrites : world.Writes) (amount : Nat) :
    (world.credit db.overlay address amount).Writes := by
  apply World.Writes.modify
  · intro other entry _ hentry
    exact hwrites other entry hentry
  · rw [World.accessed_eq_seen h]
    exact ⟨rfl, hwrites.destroyed db address⟩

theorem destroyed_credit (h : world.missingAccount? db.overlay address = none) (amount : Nat)
    (other : Address) :
    ((world.credit db.overlay address amount).seen db other).destroyed =
      (world.seen db other).destroyed := by
  rw [World.credit, World.seen_modify h]
  split
  next => rfl
  next => rfl

/-- The caller and the beneficiary are paid, and nothing else changes. -/
theorem attains_payOut (h : db.Answers) (config : Config) (block : BlockEnv) (tx : Transaction)
    (settlement : Settlement) (world : World) :
    db.Attains (payOut config block tx settlement world) fun settled after =>
      db.overlay.Holds (.account tx.caller) →
        settled.view after = world.view after ∧ (world.Writes → settled.Writes) ∧
          ∀ address, (settled.seen after address).destroyed =
            (world.seen after address).destroyed := by
  refine .get_bind ?_
  refine (h.attains_obtainAccount _ _).bind fun _ after hafter hnone => .get_bind (.pure ?_)
  intro hheld
  have hcaller : world.missingAccount? db.overlay tx.caller = none :=
    Database.missingAccount?_of_holds hheld
  refine ⟨?_, fun hwrites => ?_, fun address => ?_⟩
  · rw [view_credit hnone, World.view_of_extends hafter, view_credit hcaller,
      World.view_of_extends hafter]
  · exact writes_credit hnone (writes_credit hcaller hwrites _) _
  · rw [destroyed_credit hnone, World.seen_of_extends hafter, destroyed_credit hcaller,
      World.seen_of_extends hafter]

/-! ## Whole transactions -/

/-- On a database that answers, nothing but a check keeps a transaction from its settlement. -/
theorem Stage.closed_attains :
    Closed fun {α} (x : Stage α) => ∀ db : Database, db.Answers → db.Attains x fun _ _ => True where
  pure _ _ _ := .pure trivial
  get db _ := ⟨db.overlay, db, .refl db, rfl, trivial⟩
  bind hx hf db h := (hx db h).bind fun value _ hafter _ => hf value _ (h.of_extends hafter)
  obtain hmissing rounds db h := by
    obtain ⟨after, hafter, -, hsupply⟩ := h.resume_supply hmissing rounds
    exact .keeping hafter hsupply trivial
  runMachine env fuel first db h :=
    (h.attains_runMachine env fuel first).mono fun _ _ _ _ => trivial

theorem attains_runTransaction (h : db.Answers)
    (hcaller : checkCaller config tx (db.account tx.caller) = .ok ()) (gas : IntrinsicGas) :
    db.Attains (runTransaction config block tx gas) fun _ _ => True := by
  rw [runTransaction_eq]
  refine (attains_prepare h hcaller).bind fun (world, existing) after hafter _ => ?_
  refine Stage.closed_attains.bind (Stage.closed_attains.openFirst _ tx _ world) (fun first => ?_)
    after (h.of_extends hafter)
  refine Stage.closed_attains.bind (Stage.closed_attains.runMachine _ _ first) fun ending => ?_
  exact Stage.closed_attains.bind (Stage.closed_attains.payOut config block tx _ _) fun _ =>
    Stage.closed_attains.pure _

/-- A transaction that fails the check on its caller fails with that. -/
theorem run_runTransaction_of_error (h : db.Answers) {cause : Invalid}
    (hcaller : checkCaller config tx (db.account tx.caller) = .error cause) (gas : IntrinsicGas) :
    (db.run (runTransaction config block tx gas)).1 = .error (.invalid cause) := by
  obtain ⟨_, middle, hmiddle, hobtain, hnone⟩ :=
    h.attains_obtainAccount (openingWorld config.fork block) tx.caller
  have haccount := @account_openingWorld block middle config.fork tx.caller hnone
  rw [hmiddle.state.account] at haccount
  have hpayUp : db.run (payUp config block tx (openingWorld config.fork block)) =
      (.error (.invalid cause), middle) := by
    rw [payUp, Database.run_bind, hobtain]
    change middle.run (check (checkCaller config tx
      ((openingWorld config.fork block).account middle.overlay tx.caller)) >>= _) = _
    rw [haccount, run_check_bind, hcaller]
  rw [runTransaction, Database.run_bind, hpayUp]

/-- A transaction that passes its checks but the one on its caller goes on to that one. -/
theorem run_checkAndRun (hcomplete : checkBlock config.fork block = .ok ())
    (hvalid : checkTransaction config block tx = .ok ())
    (hcovered : checkIntrinsicGas (intrinsicGas config.fork tx) tx = .ok ()) (db : Database) :
    db.run (checkAndRun config block tx) =
      db.run (runTransaction config block tx (intrinsicGas config.fork tx)) := by
  rw [checkAndRun, hcomplete]
  dsimp only
  rw [run_check_bind, hvalid]
  dsimp only
  rw [run_check_bind, hcovered]

/-- Where all its other checks pass, a transaction fails with the one on its caller. -/
theorem run_transact_of_error (h : db.Answers) (hcomplete : checkBlock config.fork block = .ok ())
    (hvalid : checkTransaction config block tx = .ok ())
    (hcovered : checkIntrinsicGas (intrinsicGas config.fork tx) tx = .ok ()) {cause : Invalid}
    (hcaller : checkCaller config tx (db.account tx.caller) = .error cause) :
    (db.run (transact config block tx)).1 = .error (.invalid cause) := by
  have hrun := @run_runTransaction_of_error config block tx db h cause hcaller
    (intrinsicGas config.fork tx)
  rw [transact, Database.run_bind, run_checkAndRun hcomplete hvalid hcovered]
  generalize db.run (runTransaction config block tx (intrinsicGas config.fork tx)) = ending at hrun
  obtain ⟨result, after⟩ := ending
  cases hrun
  rfl

/-- A transaction that runs to its settlement is committed. -/
theorem run_transact_of_attains (hpassed : Passed config block tx account)
    {post : ExecutionResult × World → Database → Prop}
    (h : db.Attains (runTransaction config block tx (intrinsicGas config.fork tx)) post) :
    ∃ result world after, after.Extends db ∧ post (result, world) after ∧
      db.run (transact config block tx) = (.ok result, after.commit world) := by
  obtain ⟨⟨result, world⟩, after, hafter, hrun, hpost⟩ := h
  refine ⟨result, world, after, hafter, hpost, ?_⟩
  rw [transact, Database.run_bind,
    run_checkAndRun hpassed.complete hpassed.valid hpassed.covered, hrun]
  rfl

end Evm

end ForkReplay
