import ForkReplay.Evm.Transact

/-!
# What a transaction looks up

Until it is committed, a transaction changes an overlay only by looking up what the
overlay does not hold. This module says so of every stage, for every answer that a
lookup may get, so that what a lookup preserves is preserved by the whole transaction.
-/

namespace ForkReplay

namespace Overlay

/-- What is looked up next is not held. A slot is looked up only once its account is
held. -/
def Lacks (overlay : Overlay) : Lookup → Prop
  | .account address => overlay.account? address = none
  | .slot address key => (overlay.account? address).isSome ∧ overlay.slot? address key = none
  | .blockHash number => overlay.blockHash? number = none

end Overlay

/-- A dialogue that starts with `overlay`, changes it only by looking up what it lacks,
and ends at once when a lookup fails. `Final` tells what it may do with the overlay
at its end; an error leaves the overlay as it is. -/
inductive Looking {ε α : Type} (Final : Overlay → α → Overlay → Prop) :
    Overlay → Lookups (Except ε α × Overlay) → Prop where
  | failed (overlay : Overlay) (error : ε) : Looking Final overlay (.done (.error error, overlay))
  | done {overlay after : Overlay} {value : α} (hfinal : Final overlay value after) :
      Looking Final overlay (.done (.ok value, after))
  | asked {overlay : Overlay} {lookup : Lookup}
      {next : lookup.Reply → Lookups (Except ε α × Overlay)} (hfork : overlay.isFork = true)
      (hlacks : overlay.Lacks lookup)
      (hfound : ∀ found, Looking Final (overlay.learn lookup found) (next (.ok found)))
      (hfailed : ∀ failure, ∃ error, next (.error failure) = .done (.error error, overlay)) :
      Looking Final overlay (.ask lookup next)
  | assumed {overlay : Overlay} {lookup : Lookup} {dialogue : Lookups (Except ε α × Overlay)}
      (hfork : overlay.isFork = false) (hlacks : overlay.Lacks lookup)
      (hrest : Looking Final (overlay.assume lookup) dialogue) : Looking Final overlay dialogue

/-- A computation that keeps state in an overlay, looks up more, and may fail. -/
abbrev Overlaid (ε : Type) := ExceptT ε (StateT Overlay Lookups)

/-- A computation that looks up what it needs before it changes the overlay as `Final`
tells. -/
def LooksUntil {ε α : Type} (Final : Overlay → α → Overlay → Prop)
    (computation : Overlaid ε α) : Prop :=
  ∀ overlay, Looking Final overlay (computation.run.run overlay)

/-- A computation that does nothing to the overlay but look up. -/
abbrev Looks {ε α : Type} (computation : Overlaid ε α) : Prop :=
  LooksUntil (fun before _ after => after = before) computation

variable {ε ε' α β : Type} {Final : Overlay → β → Overlay → Prop}

/-- What goes on after a looking dialogue goes on from the overlay that it leaves. -/
theorem Looking.bind {overlay : Overlay} {dialogue : Lookups (Except ε α × Overlay)}
    (hdialogue : Looking (fun before _ after => after = before) overlay dialogue)
    {next : Except ε α × Overlay → Lookups (Except ε' β × Overlay)}
    (hok : ∀ value after, Looking Final after (next (.ok value, after)))
    (herror : ∀ error after, ∃ error', next (.error error, after) = .done (.error error', after)) :
    Looking Final overlay (dialogue.bind next) := by
  induction hdialogue with
  | failed overlay error =>
      obtain ⟨error', hnext⟩ := herror error overlay
      rw [Dialogue.done_bind, hnext]
      exact .failed overlay error'
  | done hfinal =>
      subst hfinal
      exact hok _ _
  | @asked overlay _ _ hfork hlacks _ hfailed ih =>
      refine .asked hfork hlacks ih ?_
      intro failure
      obtain ⟨error, hnext⟩ := hfailed failure
      rw [hnext]
      exact herror error overlay
  | assumed hfork hlacks _ ih => exact .assumed hfork hlacks ih

namespace LooksUntil

theorem bind {x : Overlaid ε α} {f : α → Overlaid ε β} (hx : Looks x)
    (hf : ∀ value, LooksUntil Final (f value)) : LooksUntil Final (x >>= f) := by
  intro overlay
  exact (hx overlay).bind (fun value after => hf value after) (fun error _ => ⟨error, rfl⟩)

theorem throw (error : ε) : LooksUntil Final (MonadExcept.throw error : Overlaid ε β) :=
  fun overlay => .failed overlay error

end LooksUntil

namespace Looks

theorem pure (value : α) : Looks (Pure.pure value : Overlaid ε α) := fun _ => .done rfl

theorem get : Looks (MonadState.get : Overlaid ε Overlay) := fun _ => .done rfl

end Looks

/-! ## What has to be looked up is not held -/

section Missing

variable {world : World} {overlay : Overlay} {lookup : Lookup}

theorem World.lacks_of_missingAccount? {address : Address}
    (h : world.missingAccount? overlay address = some lookup) : overlay.Lacks lookup := by
  unfold World.missingAccount? at h
  split at h
  next => cases h
  next hneither =>
    cases h
    cases haccount : overlay.account? address with
    | none => exact haccount
    | some account => simp [haccount] at hneither

theorem World.lacks_of_missingSlot? {address : Address} {key : Word}
    (h : world.missingSlot? overlay address key = some lookup) : overlay.Lacks lookup := by
  unfold World.missingSlot? at h
  dsimp only at h
  split at h
  next => cases h
  next hneither =>
    split at h
    next hheld =>
      cases h
      refine ⟨hheld, ?_⟩
      cases hslot : overlay.slot? address key with
      | none => rfl
      | some value => simp [hslot] at hneither
    next hnot =>
      cases h
      exact Option.not_isSome_iff_eq_none.mp hnot

namespace Evm

theorem lacks_of_missingCallee? {address : Address}
    (h : missingCallee? world overlay address = some lookup) : overlay.Lacks lookup := by
  unfold missingCallee? at h
  split at h
  next hmissing =>
    cases h
    exact World.lacks_of_missingAccount? hmissing
  next =>
    split at h
    next => exact World.lacks_of_missingAccount? h
    next => cases h

theorem Access.lacks_of_missing? {access : Access} {m : Machine}
    (h : access.missing? overlay m = some lookup) : overlay.Lacks lookup := by
  cases access with
  | blockHash number =>
      simp only [Access.missing?] at h
      split at h
      next => cases h
      next hnot =>
        cases h
        exact Option.not_isSome_iff_eq_none.mp hnot
  | load _ | store _ _ => exact World.lacks_of_missingSlot? h
  | call _ => exact lacks_of_missingCallee? h
  | selfBalance | loadTransient _ | storeTransient _ _ | create _ => cases h
  | balance _ | codeSize _ | codeHash _ | codeCopy _ _ _ _ | destroy _ | deploy _ _ =>
      exact World.lacks_of_missingAccount? h

end Evm

end Missing

/-! ## The stages of a transaction -/

/-- Looking up what the overlay lacks, and going on with what was found. -/
theorem Looking.fetch {overlay : Overlay} {lookup : Lookup} (hlacks : overlay.Lacks lookup)
    {next : Except LookupFailure Overlay → Lookups (Except ε β × Overlay)}
    (hok : ∀ after, Looking Final after (next (.ok after)))
    (herror : ∀ failure, ∃ error, next (.error failure) = .done (.error error, overlay)) :
    Looking Final overlay ((overlay.fetch lookup).bind next) := by
  unfold Overlay.fetch
  split
  next hfork => exact .asked hfork hlacks (fun _ => hok _) herror
  next hown => exact .assumed (by simpa using hown) hlacks (hok _)

/-- Any number of rounds looks up no more than what is lacking. -/
theorem looking_supply {missing : Overlay → Option Lookup}
    (hmissing : ∀ {overlay lookup}, missing overlay = some lookup → overlay.Lacks lookup)
    (rounds : Nat) (overlay : Overlay) :
    Looking (fun before _ after => after = before) overlay (overlay.supply missing rounds) := by
  -- Each round goes on from the overlay with what the one before it has found.
  induction rounds generalizing overlay with
  | zero => exact .done rfl
  | succ rounds ih =>
      rw [Overlay.supply]
      cases hlookup : missing overlay with
      | none => exact .done rfl
      | some lookup =>
          exact Looking.fetch (hmissing hlookup) (fun after => ih after)
            (fun failure => ⟨failure, rfl⟩)

namespace Evm

namespace Stage

theorem looks_check (result : Except Invalid Unit) : Looks (check result) := by
  cases result with
  | error cause => exact LooksUntil.throw _
  | ok => exact Looks.pure _

theorem run_get_bind (overlay : Overlay) (f : Overlay → Stage β) :
    (MonadState.get >>= f).run.run overlay = (f overlay).run.run overlay := rfl

theorem run_ofLookups_bind (dialogue : Lookups α) (overlay : Overlay) (f : α → Stage β) :
    (ofLookups dialogue >>= f).run.run overlay =
      dialogue.bind fun value => (f value).run.run overlay := by
  simp only [ofLookups, ExceptT.run_bind, ExceptT.run_lift, StateT.run_bind, bind_map_left]
  change (dialogue.bind fun value => .done (value, overlay)).bind _ = _
  rw [Dialogue.bind_assoc]
  rfl

theorem run_keeping (lookups : Overlay → Lookups (Except LookupFailure α × Overlay))
    (overlay : Overlay) :
    (keeping lookups).run.run overlay =
      (lookups overlay).bind fun ending => (accept ending.1).run.run ending.2 := by
  rw [keeping, run_get_bind, run_ofLookups_bind]
  rfl

/-- Lookups that only look do so as a stage. -/
theorem looks_keeping {lookups : Overlay → Lookups (Except LookupFailure α × Overlay)}
    (hlookups : ∀ overlay,
      Looking (fun before _ after => after = before) overlay (lookups overlay)) :
    Looks (keeping lookups) := by
  intro overlay
  rw [run_keeping]
  refine (hlookups overlay).bind ?_ ?_
  · intro value after
    exact .done rfl
  · intro failure after
    cases failure with
    | failed message => exact ⟨_, rfl⟩
    | crashed => exact ⟨_, rfl⟩

theorem looks_obtain {missing : Overlay → Option Lookup}
    (hmissing : ∀ {overlay lookup}, missing overlay = some lookup → overlay.Lacks lookup)
    (rounds : Nat) : Looks (obtain missing rounds) :=
  looks_keeping (looking_supply hmissing rounds)

end Stage

/-- An access is performed when what it needs was looked up, if anything. -/
theorem run_access (env : Env) (fuel : Nat) (overlay : Overlay) (access : Access) (m : Machine) :
    run env (fuel + 1) overlay (.access access m) =
      (overlay.supply (fun overlay => access.missing? overlay m) 2).bind fun
        | (.ok (), overlay) => run env fuel overlay (perform env overlay access m)
        | (.error failure, overlay) => .done (.error failure, overlay) := by
  rw [run]
  cases hmissing : access.missing? overlay m with
  | none =>
      rw [Overlay.supply, hmissing]
      rfl
  | some lookup => rfl

/-- A run of the machine leaves the overlay with what it has looked up. -/
theorem looking_run (env : Env) (fuel : Nat) (overlay : Overlay) (first : Step) :
    Looking (fun before _ after => after = before) overlay (run env fuel overlay first) := by
  -- Only an access can look up; the machine then goes on with the overlay some entries richer.
  induction fuel generalizing overlay first with
  | zero =>
      cases first with
      | next m => exact .done rfl
      | access access m => exact .done rfl
      | done result world => exact .done rfl
  | succ fuel ih =>
      cases first with
      | next m => exact ih overlay _
      | done result world => exact .done rfl
      | access access m =>
          rw [run_access]
          refine (looking_supply Access.lacks_of_missing? 2 overlay).bind ?_ ?_
          · intro value after
            exact ih after _
          · intro failure after
            exact ⟨failure, rfl⟩

theorem looks_runMachine (env : Env) (fuel : Nat) (first : Step) :
    Looks (runMachine env fuel first) :=
  Stage.looks_keeping fun overlay => looking_run env fuel overlay first

/-- A property of stages that lookups have, and that is kept when one stage follows another. -/
structure Stage.Closed (P : {α : Type} → Stage α → Prop) : Prop where
  pure {α : Type} (value : α) : P (Pure.pure value)
  get : P MonadState.get
  bind {α β : Type} {x : Stage α} {f : α → Stage β} (hx : P x) (hf : ∀ value, P (f value)) :
    P (x >>= f)
  obtain {missing : Overlay → Option Lookup}
    (hmissing : ∀ {overlay lookup}, missing overlay = some lookup → overlay.Lacks lookup)
    (rounds : Nat) : P (Stage.obtain missing rounds)
  runMachine (env : Env) (fuel : Nat) (first : Step) : P (Evm.runMachine env fuel first)

namespace Stage.Closed

variable {P : {α : Type} → Stage α → Prop}

theorem obtainAccount (h : Closed P) (world : World) (address : Address) :
    P (Stage.obtainAccount world address) :=
  h.obtain World.lacks_of_missingAccount? 1

theorem loadKeys (h : Closed P) (address : Address) (keys : List Word) (world : World) :
    P (Evm.loadKeys address keys world) := by
  induction keys generalizing world with
  | nil => exact h.pure world
  | cons key keys ih =>
      exact h.bind (h.obtain World.lacks_of_missingSlot? 2) fun _ =>
        h.bind h.get fun overlay => ih _

theorem loadAccessList (h : Closed P) (entries : List AccessEntry) (world : World) :
    P (Evm.loadAccessList entries world) := by
  induction entries generalizing world with
  | nil => exact h.pure world
  | cons entry entries ih =>
      refine h.bind (h.obtainAccount _ _) fun _ => h.bind h.get fun overlay => ?_
      exact h.bind (h.loadKeys _ _ _) fun world => ih world

theorem accessListed (h : Closed P) (tx : Transaction) (world : World) :
    P (Evm.accessListed tx world) := by
  unfold Evm.accessListed
  split
  next => exact h.pure world
  next => exact h.loadAccessList _ world

theorem applyAuthorizations (h : Closed P) (config : Config)
    (authorizations : List Authorization) (world : World) (existing : Nat) :
    P (Evm.applyAuthorizations config authorizations world existing) := by
  induction authorizations generalizing world existing with
  | nil => exact h.pure (world, existing)
  | cons authorization rest ih =>
      unfold Evm.applyAuthorizations
      dsimp only
      split
      next => exact ih world existing
      next authority _ =>
        split
        next => exact ih world existing
        next =>
          refine h.bind (h.obtainAccount _ _) fun _ => h.bind h.get fun overlay => ?_
          split
          next => exact ih _ existing
          next => exact ih _ _

theorem authorize (h : Closed P) (config : Config) (tx : Transaction) (world : World) :
    P (Evm.authorize config tx world) := by
  unfold Evm.authorize
  split
  next => exact h.applyAuthorizations config _ world 0
  next => exact h.pure (world, 0)

theorem openBegun (h : Closed P) (caller : Address) (operands : CreateOperands) (world : World)
    (begun : Except Result (Address × World)) :
    P (Evm.openBegun caller operands world begun) := by
  rcases begun with result | ⟨address, world⟩
  · exact h.pure _
  · exact h.bind (h.obtainAccount _ _) fun _ => h.bind h.get fun overlay => h.pure _

theorem openFirst (h : Closed P) (env : Env) (tx : Transaction) (gas : Nat) (world : World) :
    P (Evm.openFirst env tx gas world) := by
  unfold Evm.openFirst
  split
  next callee _ =>
    refine h.bind (h.obtain lacks_of_missingCallee? 2) fun _ => ?_
    exact h.bind h.get fun overlay => h.pure _
  next => exact h.bind h.get fun overlay => h.openBegun _ _ _ _

theorem payOut (h : Closed P) (config : Config) (block : BlockEnv) (tx : Transaction)
    (settlement : Settlement) (world : World) :
    P (Evm.payOut config block tx settlement world) := by
  refine h.bind h.get fun overlay => h.bind (h.obtainAccount _ _) fun _ => ?_
  exact h.bind h.get fun overlay => h.pure _

section Checked

variable (hcheck : ∀ result, P (Stage.check result))
include hcheck

theorem payUp (h : Closed P) (config : Config) (block : BlockEnv) (tx : Transaction)
    (world : World) : P (Evm.payUp config block tx world) := by
  refine h.bind (h.obtainAccount _ _) fun _ => h.bind h.get fun overlay => ?_
  exact h.bind (hcheck _) fun _ => h.pure _

theorem runTransaction (h : Closed P) (config : Config) (block : BlockEnv) (tx : Transaction)
    (gas : IntrinsicGas) : P (Evm.runTransaction config block tx gas) := by
  refine h.bind (h.payUp hcheck config block tx _) fun world => ?_
  refine h.bind (h.accessListed tx world) fun world => ?_
  refine h.bind (h.authorize config tx world) fun (world, existing) => ?_
  refine h.bind (h.openFirst _ tx _ world) fun first => ?_
  refine h.bind (h.runMachine _ _ first) fun (result, world) => ?_
  exact h.bind (h.payOut config block tx _ world) fun world => h.pure _

/-- What is closed holds of a transaction, if it holds of its checks and where the block lacks
something. -/
theorem checkAndRun (h : Closed P) {config : Config} {block : BlockEnv} (tx : Transaction)
    (hlack : ∀ lack, checkBlock config.fork block = .error lack →
      P (throw (.incompleteBlock lack) : Stage (ExecutionResult × World))) :
    P (Evm.checkAndRun config block tx) := by
  unfold Evm.checkAndRun
  split
  next lack hblock => exact hlack lack hblock
  next =>
    refine h.bind (hcheck _) fun _ => h.bind (hcheck _) fun _ => ?_
    exact h.runTransaction hcheck config block tx _

end Checked

end Stage.Closed

theorem closed_looks : Stage.Closed fun {α} (x : Stage α) => Looks x where
  pure := Looks.pure
  get := Looks.get
  bind hx hf := hx.bind hf
  obtain := Stage.looks_obtain
  runMachine := looks_runMachine

theorem looks_checkAndRun (config : Config) (block : BlockEnv) (tx : Transaction) :
    Looks (checkAndRun config block tx) :=
  closed_looks.checkAndRun Stage.looks_check tx fun _ _ => LooksUntil.throw _

/-- A transaction looks up what it needs, and then either fails or commits a world. -/
theorem transact_looksUntil_commit (config : Config) (block : BlockEnv) (tx : Transaction) :
    LooksUntil (fun before _ after => ∃ world, after = before.commit world)
      (transact config block tx) := by
  refine (looks_checkAndRun config block tx).bind fun ⟨result, world⟩ => ?_
  exact fun overlay => .done ⟨world, rfl⟩

end Evm

end ForkReplay
