import ForkReplay.Proofs.Backing

/-!
# Overlays that agree

Two overlays may hold different parts of one state. Where both hold an account, a slot or
a block hash, they hold the same. Then a machine that both of them back takes the same
step over either.
-/

namespace ForkReplay

/-- What both overlays hold is the same. -/
structure Overlay.Agree (overlay other : Overlay) : Prop where
  account : ∀ address, overlay.Holds (.account address) → other.Holds (.account address) →
    overlay.account? address = other.account? address
  slot : ∀ address key, overlay.Holds (.slot address key) → other.Holds (.slot address key) →
    overlay.slot? address key = other.slot? address key
  blockHash : ∀ number < UInt64.size, overlay.Holds (.blockHash number) →
    other.Holds (.blockHash number) → overlay.blockHash? number = other.blockHash? number

/-! ## Worlds -/

namespace World

variable {overlay other : Overlay} {address : Address}

theorem accessed_congr (h : overlay.account? address = other.account? address) (world : World) :
    world.accessed overlay address = world.accessed other address := by
  rw [accessed, accessed, h]

theorem account_congr (h : overlay.account? address = other.account? address) (world : World) :
    world.account overlay address = world.account other address :=
  congrArg AccessedAccount.account (accessed_congr h world)

theorem load_congr (h : overlay.account? address = other.account? address) (world : World) :
    world.load overlay address = world.load other address := by
  rw [load, load, accessed_congr h]

theorem modify_congr (h : overlay.account? address = other.account? address) (world : World)
    (change : AccessedAccount → AccessedAccount) :
    world.modify overlay address change = world.modify other address change := by
  rw [modify, modify, accessed_congr h]

theorem transfer_congr {payer payee : Address}
    (hpayer : overlay.account? payer = other.account? payer)
    (hpayee : overlay.account? payee = other.account? payee) (world : World) (value : Word) :
    world.transfer overlay payer payee value = world.transfer other payer payee value := by
  unfold transfer touch setBalance
  simp only [modify_congr hpayer, modify_congr hpayee, account_congr hpayer, account_congr hpayee]

theorem accessed_modify (world : World) (overlay : Overlay) (address other : Address)
    (change : AccessedAccount → AccessedAccount) :
    (world.modify overlay address change).accessed overlay other =
      if address = other then change (world.accessed overlay address)
      else world.accessed overlay other :=
  accessed_put ..

/-- A change that leaves the code of an account leaves those of all. -/
theorem code_modify (world : World) (overlay : Overlay) (address other : Address)
    {change : AccessedAccount → AccessedAccount}
    (hchange : ∀ entry, (change entry).account.code = entry.account.code) :
    ((world.modify overlay address change).account overlay other).code =
      (world.account overlay other).code := by
  unfold account
  rw [accessed_modify]
  split
  next haddress => rw [hchange, haddress]
  next => rfl

theorem code_transfer {world moved : World} {payer payee : Address} {value : Word}
    (h : world.transfer overlay payer payee value = .ok moved) (address : Address) :
    (moved.account overlay address).code = (world.account overlay address).code := by
  unfold transfer touch setBalance at h
  dsimp only at h
  split at h
  next =>
    cases h
    exact code_modify _ _ _ _ fun _ => rfl
  next =>
    split at h
    next => cases h
    next =>
      split at h
      next =>
        cases h
        rw [code_modify, code_modify, code_modify, code_modify]
        all_goals exact fun _ => rfl
      next => cases h

/-- A slot that was neither accessed nor created is held before it is accessed. -/
theorem holds_of_missingSlot? {world : World} {key : Word}
    (hmissing : world.missingSlot? overlay address key = none)
    (hslot : (world.accessed overlay address).slots[key]? = none)
    (hcreated : (world.accessed overlay address).created = false) :
    overlay.Holds (.slot address key) := by
  unfold missingSlot? at hmissing
  dsimp only at hmissing
  split at hmissing
  next hknown =>
    rw [Std.ExtTreeMap.contains_eq_isSome_getElem?, hslot, hcreated] at hknown
    exact hknown
  next =>
    split at hmissing
    next => cases hmissing
    next => cases hmissing

theorem slot_congr {key : Word} (h : overlay.account? address = other.account? address)
    (hagree : overlay.Agree other) (world : World)
    (hmissing : world.missingSlot? overlay address key = none)
    (hmissing' : world.missingSlot? other address key = none) :
    world.slot overlay address key = world.slot other address key := by
  unfold slot
  rw [← accessed_congr h]
  dsimp only
  cases hslot : (world.accessed overlay address).slots[key]? with
  | some slot => rfl
  | none =>
      cases hcreated : (world.accessed overlay address).created with
      | true => rfl
      | false =>
          have hsame := accessed_congr h world
          simp only [hagree.slot address key (holds_of_missingSlot? hmissing hslot hcreated)
            (holds_of_missingSlot? hmissing' (hsame ▸ hslot) (hsame ▸ hcreated))]

end World

namespace Evm

open World (accessed_congr account_congr load_congr modify_congr transfer_congr slot_congr)

variable {overlay other : Overlay}

/-! ## The machine -/

theorem closeFinished_congr {f : Frame} (hagree : overlay.Agree other) (hf : f.Backed overlay)
    (hf' : f.Backed other) (env : Env) (output : Bytes) (world : World) :
    closeFinished env overlay f output world = closeFinished env other f output world := by
  unfold closeFinished
  split
  next => rfl
  next address hpurpose =>
    have haddress := hagree.account address (hf.created address hpurpose)
      (hf'.created address hpurpose)
    unfold deploy World.setCode
    simp only [modify_congr haddress]

/-- Carrying out an instruction comes to the same over overlays that agree. -/
theorem step_congr {m : Machine} (hagree : overlay.Agree other) (h : m.Backed overlay)
    (h' : m.Backed other) (env : Env) : step env overlay m = step env other m := by
  rcases m with ⟨f, waiting, world⟩
  unfold step
  dsimp only
  split
  next => rfl
  next op _ =>
    split
    next => rfl
    next =>
      split
      next => rfl
      next =>
        have hyields := execute_yields env op
          { f with gas := f.gas - op.staticGas env.fork, pc := f.pc + 1 }
        split
        next => rfl
        next => rfl
        next => rfl
        next frame output heffect =>
          have hfits : Frame.Continues _ frame := hyields _ heffect
          have hsame : f.SameActivation frame := ⟨hfits.address, hfits.purpose, hfits.saved⟩
          rw [closeFinished_congr hagree (hsame.backed h.frame) (hsame.backed h'.frame)]
        next => rfl

/-! ## Accesses -/

section Access

variable {m : Machine} {world : World}

theorem performCodeCopy_congr (env : Env) {address : Address}
    (haddress : overlay.account? address = other.account? address) (target start count : Word) :
    performCodeCopy env overlay address target start count m =
      performCodeCopy env other address target start count m := by
  unfold performCodeCopy
  simp only [load_congr haddress, account_congr haddress]

theorem performStore_congr (env : Env) {key value : Word}
    (hself : overlay.account? m.frame.address = other.account? m.frame.address)
    (hslot : m.world.slot overlay m.frame.address key = m.world.slot other m.frame.address key) :
    performStore env overlay key value m = performStore env other key value m := by
  unfold performStore World.putSlot World.isWarmSlot
  simp only [hslot, modify_congr hself, accessed_congr hself]

theorem destroyAccount_congr (fork : HardFork) {address beneficiary : Address}
    (haddress : overlay.account? address = other.account? address)
    (hbeneficiary : overlay.account? beneficiary = other.account? beneficiary) (world : World) :
    destroyAccount fork overlay address beneficiary world =
      destroyAccount fork other address beneficiary world := by
  unfold destroyAccount World.touch World.setBalance
  simp only [accessed_congr haddress, account_congr hbeneficiary, modify_congr haddress,
    modify_congr hbeneficiary]

theorem performDestroy_congr (env : Env) {beneficiary : Address} (hagree : overlay.Agree other)
    (h : m.Backed overlay) (h' : m.Backed other)
    (hbeneficiary : overlay.account? beneficiary = other.account? beneficiary) :
    performDestroy env overlay beneficiary m = performDestroy env other beneficiary m := by
  rcases m with ⟨f, waiting, world⟩
  have hself := hagree.account f.address h.frame.address h'.frame.address
  unfold performDestroy
  simp only [load_congr hbeneficiary, account_congr hbeneficiary, accessed_congr hself,
    destroyAccount_congr env.fork hself hbeneficiary]
  split
  next => rfl
  next =>
    rw [closeFinished_congr hagree]
    · exact ⟨h.frame.address, h.frame.created, h.frame.saved⟩
    · exact ⟨h'.frame.address, h'.frame.created, h'.frame.saved⟩

/-- The overlays agree on an account and on the one that it delegates to. -/
def CalleeAgrees (world : World) (overlay other : Overlay) (address : Address) : Prop :=
  overlay.account? address = other.account? address ∧
    ∀ target, (world.account overlay address).code.delegate? = some target →
      overlay.account? target = other.account? target

theorem CalleeHeld.agrees {address : Address} (h : CalleeHeld world overlay address)
    (h' : CalleeHeld world other address) (hagree : overlay.Agree other) :
    CalleeAgrees world overlay other address := by
  have haddress := hagree.account address h.1 h'.1
  refine ⟨haddress, ?_⟩
  intro target htarget
  exact hagree.account target (h.2 target htarget)
    (h'.2 target (account_congr haddress world ▸ htarget))

theorem loadCallee_congr {address : Address} (h : CalleeAgrees world overlay other address) :
    loadCallee world overlay address = loadCallee world other address := by
  unfold loadCallee
  simp only [← load_congr h.1, ← account_congr h.1]
  split
  next target htarget =>
    rw [World.account_load] at htarget
    exact load_congr (h.2 target htarget) _
  next => rfl

theorem runningCode_congr {address : Address} (h : CalleeAgrees world overlay other address) :
    runningCode world overlay address = runningCode world other address := by
  unfold runningCode
  simp only [← account_congr h.1]
  split
  next target htarget => rw [account_congr (h.2 target htarget)]
  next => rfl

theorem openCall_congr (env : Env) {message : Message}
    (hcallee : CalleeAgrees world overlay other message.codeAddress)
    (haddress : overlay.account? message.address = other.account? message.address)
    (hcaller : message.moves → overlay.account? message.caller = other.account? message.caller) :
    openCall env overlay message world = openCall env other message world := by
  unfold openCall
  dsimp only
  rw [← loadCallee_congr hcallee]
  -- The transfer is part of a condition, so its two forms are proved equal as a whole.
  have hmoved : (if message.moves then (loadCallee world overlay message.codeAddress).transfer
        overlay message.caller message.address message.value
      else .ok (loadCallee world overlay message.codeAddress)) =
      if message.moves then (loadCallee world overlay message.codeAddress).transfer
        other message.caller message.address message.value
      else .ok (loadCallee world overlay message.codeAddress) := by
    split
    next hmoves => exact transfer_congr (hcaller hmoves) haddress _ _
    next => rfl
  rw [← hmoved]
  split
  next => rfl
  next =>
    split
    next => rfl
    next hfailed =>
      split at hfailed
      next hmoves =>
        unfold World.setBalance
        simp only [account_congr (hcaller hmoves), modify_congr (hcaller hmoves)]
      next => cases hfailed
    next moved hdone =>
      -- A transfer moves no code, so the code that runs is that of the callee before it.
      have hcode : (moved.account overlay message.codeAddress).code =
          (world.account overlay message.codeAddress).code := by
        rw [← account_loadCallee world overlay message.codeAddress]
        split at hdone
        next => exact World.code_transfer hdone _
        next =>
          cases hdone
          rfl
      rw [runningCode_congr ⟨hcallee.1, fun target htarget => hcallee.2 target (hcode ▸ htarget)⟩]

theorem performCall_congr (env : Env) {operands : CallOperands} (hagree : overlay.Agree other)
    (h : m.Backed overlay) (h' : m.Backed other)
    (hcallee : CalleeAgrees m.world overlay other operands.codeAddress) :
    performCall env overlay operands m = performCall env other operands m := by
  rcases m with ⟨f, waiting, world⟩
  have hself := hagree.account f.address h.frame.address h'.frame.address
  have hloaded : CalleeAgrees (world.load overlay operands.codeAddress) overlay other
      operands.codeAddress := by
    rwa [CalleeAgrees, World.account_load]
  unfold performCall
  simp only [← load_congr hcallee.1, ← account_congr hcallee.1, ← loadCallee_congr hloaded]
  split
  next => rfl
  next =>
    rw [openCall_congr]
    · rw [CalleeAgrees, account_loadCallee]
      exact hloaded
    · dsimp only
      split
      next => exact hcallee.1
      next => exact hcallee.1
      next => exact hself
      next => exact hself
    · intro hmoves
      have hkind : operands.kind ≠ .delegateCall := by simpa using hmoves
      dsimp only
      rw [if_neg hkind]
      exact hself

theorem beginCreate_congr {creator : Address} (depth : Nat) (operands : CreateOperands)
    (hcreator : overlay.account? creator = other.account? creator) (world : World) :
    beginCreate overlay creator depth operands world =
      beginCreate other creator depth operands world := by
  unfold beginCreate
  simp only [account_congr hcreator, modify_congr hcreator]

theorem openCreate_congr {creator address : Address} (depth : Nat) (operands : CreateOperands)
    (hcreator : overlay.account? creator = other.account? creator)
    (haddress : overlay.account? address = other.account? address) (world : World) :
    openCreate overlay creator address depth operands world =
      openCreate other creator address depth operands world := by
  unfold openCreate World.setBalance
  simp only [load_congr haddress, account_congr haddress, modify_congr haddress,
    account_congr hcreator, modify_congr hcreator]

/-- An access for which nothing is missing comes to the same over overlays that agree. -/
theorem perform_congr (env : Env) {what : Access} (hagree : overlay.Agree other)
    (h : m.Backed overlay) (h' : m.Backed other) (hrange : what.InRange)
    (hmissing : what.missing? overlay m = none) (hmissing' : what.missing? other m = none) :
    perform env overlay what m = perform env other what m := by
  have hself := hagree.account m.frame.address h.frame.address h'.frame.address
  have haccount {address : Address} (hmissing : m.world.missingAccount? overlay address = none)
      (hmissing' : m.world.missingAccount? other address = none) :
      overlay.account? address = other.account? address :=
    hagree.account address (h.world.holds_of_missingAccount? hmissing)
      (h'.world.holds_of_missingAccount? hmissing')
  cases what with
  | balance address | codeSize address | codeHash address =>
      unfold perform
      simp only [load_congr (haccount hmissing hmissing'),
        account_congr (haccount hmissing hmissing')]
  | selfBalance =>
      unfold perform
      simp only [account_congr hself]
  | codeCopy address target start count =>
      exact performCodeCopy_congr env (haccount hmissing hmissing') target start count
  | blockHash number =>
      have hheld {overlay : Overlay}
          (hmissing : (Access.blockHash number).missing? overlay m = none) :
          overlay.Holds (.blockHash number) := by
        unfold Access.missing? at hmissing
        dsimp only at hmissing
        split at hmissing
        next hheld => exact hheld
        next => cases hmissing
      unfold perform
      simp only [hagree.blockHash number hrange (hheld hmissing) (hheld hmissing')]
  | load key =>
      have hslot := slot_congr hself hagree m.world hmissing hmissing'
      unfold perform World.putSlot World.isWarmSlot
      simp only [hslot, modify_congr hself, accessed_congr hself]
  | store key value =>
      exact performStore_congr env hself (slot_congr hself hagree m.world hmissing hmissing')
  | loadTransient key | storeTransient key value => rfl
  | destroy beneficiary =>
      exact performDestroy_congr env hagree h h' (haccount hmissing hmissing')
  | call operands =>
      exact performCall_congr env hagree h h'
        ((calleeHeld_of_missingCallee? h.world hmissing).agrees
          (calleeHeld_of_missingCallee? h'.world hmissing') hagree)
  | create operands =>
      unfold perform performCreate
      simp only [beginCreate_congr _ operands hself]
  | deploy operands address =>
      unfold perform
      simp only [openCreate_congr _ operands hself (haccount hmissing hmissing')]

end Access

end Evm

end ForkReplay
