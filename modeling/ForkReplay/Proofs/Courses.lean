import ForkReplay.Proofs.GasFlow
import ForkReplay.Proofs.TwinStages

/-!
# Courses of transactions

A transaction is turned down by one of its checks, or a lookup fails on its way, or it runs
to its end and its gas is settled. Whether it is turned down depends on its block, itself and
the account of its caller, and on nothing else. The gas it ends with is part of the gas it
started with.
-/

namespace ForkReplay

/-- What a failed lookup makes of a transaction. -/
def LookupFailure.blame : LookupFailure → Evm.Failure
  | .failed message => .database message
  | .crashed => .crashed

namespace Database

/-- A run ends with no more gas than it has at its start, unless a lookup fails. -/
theorem ends_run (env : Evm.Env) (fuel : Nat) (db : Database) (first : Evm.Step) :
    db.Ends id (fun ending _ => ending.1.gas ≤ first.gas)
      (db.resume (Evm.run env fuel db.overlay first)) := by
  -- No step makes gas, whatever has been looked up before it, so the database is general.
  induction fuel generalizing db first with
  | zero =>
      cases first with
      | next m => exact .well (.refl db) (Nat.zero_le _)
      | access what m => exact .well (.refl db) (Nat.zero_le _)
      | done result world => exact .well (.refl db) (Nat.le_refl _)
  | succ fuel ih =>
      cases first with
      | next m =>
          exact (ih db _).mono fun _ _ _ h =>
            Nat.le_trans h (Evm.spends_step env db.overlay m).gas
      | access what m =>
          have hsupply := @ends_supply (fun overlay => what.missing? overlay m)
            Evm.Access.lacks_of_missing? db 2
          rw [Evm.run_access, resume_bind]
          generalize db.resume (db.overlay.supply _ 2) = supplied at hsupply ⊢
          cases hsupply with
          | @well _ middle hmiddle _ =>
              refine ((ih middle _).mono fun _ _ _ h => ?_).of_extends hmiddle
              exact Nat.le_trans h (Evm.spends_perform env middle.overlay what m).gas
          | failed failure hmiddle hfails => exact .failed failure hmiddle hfails
      | done result world => exact .well (.refl db) (Nat.le_refl _)

end Database

namespace Evm

variable {α β : Type} {config : Config} {block : BlockEnv} {tx : Transaction}

namespace Stage

/-- On every database a stage ends well, with a value as wanted, unless a lookup fails. -/
def Comes (x : Stage α) (wanted : α → Prop) : Prop :=
  ∀ db : Database, db.Ends LookupFailure.blame (fun value _ => wanted value) (db.run x)

namespace Comes

variable {wanted : β → Prop}

theorem pure {value : α} {wanted : α → Prop} (h : wanted value) :
    Comes (Pure.pure value) wanted :=
  fun db => .well (.refl db) h

theorem bind {mid : α → Prop} {x : Stage α} {f : α → Stage β} (hx : Comes x mid)
    (hf : ∀ value, mid value → Comes (f value) wanted) : Comes (x >>= f) wanted := by
  intro db
  have hfirst := hx db
  rw [Database.run_bind]
  generalize db.run x = ending at hfirst ⊢
  cases hfirst with
  | well hmiddle hvalue => exact (hf _ hvalue _).of_extends hmiddle
  | failed failure hmiddle hfails => exact .failed failure hmiddle hfails

theorem get_bind {f : Overlay → Stage β} (hf : ∀ overlay, Comes (f overlay) wanted) :
    Comes (MonadState.get >>= f) wanted :=
  fun db => hf db.overlay db

end Comes

/-- Lookups that end well or fail do so as a stage. -/
theorem ends_keeping {db : Database} {wanted : α → Database → Prop}
    {lookups : Overlay → Lookups (Except LookupFailure α × Overlay)}
    (h : db.Ends id wanted (db.resume (lookups db.overlay))) :
    db.Ends LookupFailure.blame wanted (db.run (keeping lookups)) := by
  rw [Database.run, run_keeping, Database.resume_bind]
  generalize db.resume (lookups db.overlay) = ending at h ⊢
  cases h with
  | well hafter hvalue => exact .well hafter hvalue
  | failed failure hafter hfails =>
      cases failure with
      | failed message => exact .failed (.failed message) hafter hfails
      | crashed => exact .failed .crashed hafter hfails

theorem comes_obtain {missing : Overlay → Option Lookup}
    (hmissing : ∀ {overlay lookup}, missing overlay = some lookup → overlay.Lacks lookup)
    (rounds : Nat) : Comes (obtain missing rounds) fun _ => True :=
  fun db => (ends_keeping (Database.ends_supply hmissing db rounds)).mono fun _ _ _ _ => trivial

theorem comes_obtainAccount (world : World) (address : Address) :
    Comes (obtainAccount world address) fun _ => True :=
  comes_obtain World.lacks_of_missingAccount? 1

end Stage

open Stage

/-! ## Stages after the payment -/

theorem comes_runMachine (env : Env) (fuel : Nat) (first : Step) :
    Comes (runMachine env fuel first) fun ending => ending.1.gas ≤ first.gas :=
  fun db => ends_keeping (db.ends_run env fuel first)

theorem Stage.closed_comes : Closed fun {α} (x : Stage α) => Comes x fun _ => True where
  pure _ := .pure trivial
  get db := .well (.refl db) trivial
  bind hx hf := hx.bind fun value _ => hf value
  obtain := comes_obtain
  runMachine env fuel first db := (comes_runMachine env fuel first db).mono fun _ _ _ _ => trivial

/-- Only transactions of kind 4 can have signers. -/
theorem comes_authorize (config : Config) (tx : Transaction) (world : World) :
    Comes (authorize config tx world) fun value => tx.kind ≠ 4 → value.2 = 0 := by
  unfold authorize
  split
  next hkind =>
    refine fun db => (closed_comes.applyAuthorizations config tx.authorizations world 0 db).mono ?_
    exact fun _ _ _ _ hother => absurd hkind hother
  next => exact .pure fun _ => rfl

theorem comes_openFirst (env : Env) (tx : Transaction) (gas : Nat) (world : World) :
    Comes (openFirst env tx gas world) fun first => first.gas ≤ gas := by
  unfold openFirst
  split
  next callee _ =>
    refine (comes_obtain lacks_of_missingCallee? 2).bind fun _ _ => .get_bind fun overlay => ?_
    exact .pure (Nat.le_trans (Nat.le_of_eq (gas_enter _)) (gas_openCall ..))
  next =>
    refine .get_bind fun overlay => ?_
    generalize hbegun : beginCreate overlay tx.caller 0 _ world = begun
    rcases begun with result | ⟨address, counted⟩
    · exact .pure (Nat.le_of_eq (gas_of_beginCreate_error hbegun))
    · refine (comes_obtainAccount _ _).bind fun _ _ => .get_bind fun overlay => ?_
      exact .pure (Nat.le_trans (Nat.le_of_eq (gas_enter _)) (gas_openCreate ..))

/-! ## Whole transactions -/

/-- What a transaction comes to whose machine has ended with some part of the gas that its
intrinsic gas has left it. -/
def Settled (config : Config) (tx : Transaction) (final : ExecutionResult) : Prop :=
  ∃ result existing,
    result.gas ≤ tx.gasLimit.toNat - (intrinsicGas config.fork tx).initial ∧
    (tx.kind ≠ 4 → existing = 0) ∧
    final = .ofResult result (settle config.fork tx.gasLimit.toNat
      (intrinsicGas config.fork tx).floor result (12500 * existing))

/-- A transaction has passed all its checks, the one on its caller's account at last. -/
structure Passed (config : Config) (block : BlockEnv) (tx : Transaction) (caller : Account) :
    Prop where
  complete : checkBlock config.fork block = .ok ()
  valid : checkTransaction config block tx = .ok ()
  covered : checkIntrinsicGas (intrinsicGas config.fork tx) tx = .ok ()
  accepted : checkCaller config tx caller = .ok ()

/-- How a transaction goes on a database. -/
inductive Course (config : Config) (block : BlockEnv) (tx : Transaction) (db : Database) :
    Except Failure ExecutionResult → Prop where
  | incompleteBlock {lack : IncompleteBlock} (h : checkBlock config.fork block = .error lack) :
      Course config block tx db (.error (.incompleteBlock lack))
  | invalid {cause : Invalid} (h : checkTransaction config block tx = .error cause) :
      Course config block tx db (.error (.invalid cause))
  | tooLittleGas {cause : Invalid}
      (h : checkIntrinsicGas (intrinsicGas config.fork tx) tx = .error cause) :
      Course config block tx db (.error (.invalid cause))
  | turnedDown {cause : Invalid} (h : checkCaller config tx (db.account tx.caller) = .error cause) :
      Course config block tx db (.error (.invalid cause))
  | interrupted (failure : LookupFailure) (hfails : db.Fails) :
      Course config block tx db (.error failure.blame)
  | ran {final : ExecutionResult} (hpassed : Passed config block tx (db.account tx.caller))
      (hsettled : Settled config tx final) : Course config block tx db (.ok final)

theorem run_check_bind (db : Database) (result : Except Invalid Unit) (f : Unit → Stage α) :
    db.run (check result >>= f) =
      match result with
      | .ok () => db.run (f ())
      | .error cause => (.error (.invalid cause), db) := by
  rw [Database.run_bind]
  cases result with
  | error cause => rfl
  | ok value => rfl

/-- At the start of a transaction an account is as it is observed, once it is held. -/
theorem account_openingWorld {db : Database} {fork : HardFork} {address : Address}
    (h : (openingWorld fork block).missingAccount? db.overlay address = none) :
    (openingWorld fork block).account db.overlay address = db.account address := by
  have hempty : (openingWorld fork block).accounts[address]? = none := rfl
  have hheld : db.overlay.Holds (.account address) := by
    unfold World.missingAccount? at h
    split at h
    next hknown => exact (Bool.or_eq_true_iff.mp hknown).resolve_left (by simp [openingWorld])
    next => cases h
  rw [World.account, World.accessed, hempty, Database.account?_of_holds hheld]
  rfl

/-- The caller pays if its account passes the check, unless a lookup fails. -/
theorem run_payUp (config : Config) (block : BlockEnv) (tx : Transaction) (db : Database) :
    (∃ cause after, checkCaller config tx (db.account tx.caller) = .error cause ∧
      db.run (payUp config block tx (openingWorld config.fork block)) =
        (.error (.invalid cause), after)) ∨
    db.Ends LookupFailure.blame
      (fun _ _ => checkCaller config tx (db.account tx.caller) = .ok ())
      (db.run (payUp config block tx (openingWorld config.fork block))) := by
  have hobtain := ends_keeping (@Database.ends_supply
    (fun overlay => (openingWorld config.fork block).missingAccount? overlay tx.caller)
    World.lacks_of_missingAccount? db 1)
  change db.Ends _ _ (db.run (obtainAccount _ _)) at hobtain
  rw [payUp, Database.run_bind]
  generalize db.run (obtainAccount _ _) = obtained at hobtain ⊢
  cases hobtain with
  | @well _ middle hmiddle hnone =>
      have haccount := account_openingWorld (hnone (Database.settles_missingAccount 0))
      rw [hmiddle.state.account] at haccount
      change (∃ cause after, _ ∧ middle.run (check (checkCaller config tx
        ((openingWorld config.fork block).account middle.overlay tx.caller)) >>= _) = _) ∨
          db.Ends _ _ (middle.run (check _ >>= _))
      rw [haccount, run_check_bind]
      cases hcaller : checkCaller config tx (db.account tx.caller) with
      | error cause => exact .inl ⟨cause, middle, rfl, rfl⟩
      | ok => exact .inr (.well hmiddle rfl)
  | failed failure hmiddle hfails => exact .inr (.failed failure hmiddle hfails)

/-- A transaction whose caller has paid is settled, unless a lookup fails. -/
theorem ends_runTransaction {db after : Database} {world : World}
    (hpaid : db.run (payUp config block tx (openingWorld config.fork block)) = (.ok world, after)) :
    after.Ends LookupFailure.blame (fun ending _ => Settled config tx ending.1)
      (db.run (runTransaction config block tx (intrinsicGas config.fork tx))) := by
  rw [runTransaction, Database.run_bind, hpaid]
  refine ((closed_comes.accessListed tx world).bind fun world _ => ?_) after
  refine (comes_authorize config tx world).bind fun (world, existing) hexisting => ?_
  refine (comes_openFirst _ tx _ world).bind fun first hfirst => ?_
  refine (comes_runMachine _ _ first).bind fun (result, world) hresult => ?_
  refine (closed_comes.payOut config block tx _ world).bind fun world _ => ?_
  exact .pure ⟨result, existing, Nat.le_trans hresult hfirst, hexisting, rfl⟩

/-- Up to its commit a transaction takes one of its courses. -/
theorem course_checkAndRun (config : Config) (block : BlockEnv) (tx : Transaction)
    (db : Database) : Course config block tx db
      ((db.run (checkAndRun config block tx)).1.map Prod.fst) := by
  unfold checkAndRun
  split
  next lack hblock => exact .incompleteBlock hblock
  next hblock =>
    rw [run_check_bind]
    cases hvalid : checkTransaction config block tx with
    | error cause => exact .invalid hvalid
    | ok =>
      dsimp only
      rw [run_check_bind]
      cases hcovered : checkIntrinsicGas (intrinsicGas config.fork tx) tx with
      | error cause => exact .tooLittleGas hcovered
      | ok =>
        have hpayUp := run_payUp config block tx db
        have hrest := @ends_runTransaction config block tx db
        dsimp only
        generalize hrun : db.run (runTransaction config block tx _) = ending at hrest ⊢
        rw [runTransaction, Database.run_bind] at hrun
        generalize db.run (payUp _ _ _ _) = paid at hpayUp hrest hrun
        rcases hpayUp with ⟨cause, after, hcaller, rfl⟩ | hpaid
        · subst hrun
          exact .turnedDown hcaller
        · cases hpaid with
          | failed failure hmiddle hfails =>
              subst hrun
              exact .interrupted failure hfails
          | well hmiddle hcaller =>
              cases hrest rfl with
              | well hafter hsettled => exact .ran ⟨hblock, hvalid, hcovered, hcaller⟩ hsettled
              | failed failure hafter hfails => exact .interrupted failure (hmiddle.fails hfails)

/-- Every transaction takes one of these courses. -/
theorem course_transact (config : Config) (block : BlockEnv) (tx : Transaction) (db : Database) :
    Course config block tx db (db.run (transact config block tx)).1 := by
  have hcourse := course_checkAndRun config block tx db
  rw [transact, Database.run_bind]
  generalize db.run (checkAndRun config block tx) = ending at hcourse ⊢
  rcases ending with ⟨failure | ⟨result, world⟩, after⟩
  · exact hcourse
  · exact hcourse

end Evm

end ForkReplay
