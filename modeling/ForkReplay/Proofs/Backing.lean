import ForkReplay.Proofs.Activations
import ForkReplay.Proofs.HeldState

/-!
# Worlds backed by an overlay

A transaction accesses an account only after the overlay holds it. So the overlay holds
all accounts of the running world, those of the worlds that failing frames go back to, and
those that the frames act for. Every step of the machine keeps it so.
-/

namespace ForkReplay

/-- What holds the accounts of one overlay holds those of another. -/
def Overlay.Grows (before after : Overlay) : Prop :=
  ∀ address, before.Holds (.account address) → after.Holds (.account address)

namespace World

/-- The overlay holds every account that was accessed. -/
def Backed (world : World) (overlay : Overlay) : Prop :=
  ∀ address, world.accounts.contains address → overlay.Holds (.account address)

variable {world : World} {overlay after : Overlay} {address : Address}

theorem Backed.grows (h : world.Backed overlay) (hgrows : overlay.Grows after) :
    world.Backed after :=
  fun address hcontains => hgrows address (h address hcontains)

theorem Backed.put (h : world.Backed overlay) (hheld : overlay.Holds (.account address))
    (entry : AccessedAccount) : (world.put address entry).Backed overlay := by
  intro other hcontains
  simp only [World.put, Std.ExtTreeMap.contains_insert, Bool.or_eq_true,
    Std.LawfulEqCmp.compare_beq_iff_eq] at hcontains
  rcases hcontains with rfl | hcontains
  · exact hheld
  · exact h other hcontains

theorem Backed.modify (h : world.Backed overlay) (hheld : overlay.Holds (.account address))
    (change : AccessedAccount → AccessedAccount) :
    (world.modify overlay address change).Backed overlay :=
  h.put hheld _

theorem Backed.load (h : world.Backed overlay) (hheld : overlay.Holds (.account address)) :
    (world.load overlay address).Backed overlay := by
  unfold World.load
  split
  next => exact h
  next => exact h.put hheld _

theorem Backed.transfer (h : world.Backed overlay) {payer payee : Address} {value : Word}
    (hpayer : overlay.Holds (.account payer)) (hpayee : overlay.Holds (.account payee))
    {moved : World} (hmoved : world.transfer overlay payer payee value = .ok moved) :
    moved.Backed overlay := by
  unfold World.transfer at hmoved
  dsimp only at hmoved
  split at hmoved
  next =>
    cases hmoved
    exact h.modify hpayee _
  next =>
    split at hmoved
    next => cases hmoved
    next =>
      split at hmoved
      next =>
        cases hmoved
        exact (((h.modify hpayer _).modify hpayer _).modify hpayee _).modify hpayee _
      next => cases hmoved

theorem Backed.holds_of_missingAccount? (h : world.Backed overlay)
    (hmissing : world.missingAccount? overlay address = none) :
    overlay.Holds (.account address) := by
  unfold missingAccount? at hmissing
  split at hmissing
  next hknown =>
    rcases Bool.or_eq_true_iff.mp hknown with hcontains | hheld
    · exact h address hcontains
    · exact hheld
  next => cases hmissing

theorem accessed_put (world : World) (overlay : Overlay) (address other : Address)
    (entry : AccessedAccount) :
    (world.put address entry).accessed overlay other =
      if address = other then entry else world.accessed overlay other := by
  unfold accessed put
  by_cases haddress : address = other
  · rw [if_pos haddress, haddress, Std.ExtTreeMap.getElem?_insert_self]
  · simp only [Std.ExtTreeMap.getElem?_insert, Std.LawfulEqCmp.compare_eq_iff_eq, if_neg haddress]

/-- Accessing an account changes what the transaction sees of none. -/
theorem accessed_load (world : World) (overlay : Overlay) (address other : Address) :
    (world.load overlay address).accessed overlay other = world.accessed overlay other := by
  unfold load
  split
  next => rfl
  next =>
    rw [accessed_put]
    split
    next haddress => rw [haddress]
    next => rfl

theorem account_load (world : World) (overlay : Overlay) (address other : Address) :
    (world.load overlay address).account overlay other = world.account overlay other :=
  congrArg AccessedAccount.account (accessed_load ..)

end World

namespace Evm

open World (Backed)

variable {world : World} {overlay after : Overlay}

/-! ## Frames and machines -/

/-- The overlay holds the accounts that a frame acts for and creates, and those of the world
that comes back if it fails. -/
structure Frame.Backed (f : Frame) (overlay : Overlay) : Prop where
  address : overlay.Holds (.account f.address)
  created : ∀ address, f.purpose = .create address → overlay.Holds (.account address)
  saved : f.saved.Backed overlay

theorem Frame.Backed.grows {f : Frame} (h : f.Backed overlay) (hgrows : overlay.Grows after) :
    f.Backed after where
  address := hgrows _ h.address
  created address haddress := hgrows _ (h.created address haddress)
  saved := h.saved.grows hgrows

theorem Frame.SameActivation.backed {f g : Frame} (h : f.SameActivation g)
    (hf : f.Backed overlay) : g.Backed overlay where
  address := h.address ▸ hf.address
  created := h.purpose ▸ hf.created
  saved := h.saved ▸ hf.saved

structure Machine.Backed (m : Machine) (overlay : Overlay) : Prop where
  world : m.world.Backed overlay
  frame : m.frame.Backed overlay
  waiting : ∀ f ∈ m.waiting, f.Backed overlay

theorem Machine.Backed.grows {m : Machine} (h : m.Backed overlay) (hgrows : overlay.Grows after) :
    m.Backed after where
  world := h.world.grows hgrows
  frame := h.frame.grows hgrows
  waiting f hf := (h.waiting f hf).grows hgrows

theorem Machine.Backed.outermost {m : Machine} (h : m.Backed overlay) :
    (m.waiting.getLast?.getD m.frame).saved.Backed overlay := by
  cases hlast : m.waiting.getLast? with
  | none => exact h.frame.saved
  | some f => exact (h.waiting f (List.mem_of_getLast? hlast)).saved

def Step.Backed (overlay : Overlay) : Step → Prop
  | .next m => m.Backed overlay
  | .access what m => m.Backed overlay ∧ what.InRange
  | .done _ world => world.Backed overlay

theorem Step.Backed.grows {step : Step} (h : step.Backed overlay) (hgrows : overlay.Grows after) :
    step.Backed after := by
  cases step with
  | next m => exact Machine.Backed.grows h hgrows
  | access what m => exact ⟨h.1.grows hgrows, h.2⟩
  | done result world => exact World.Backed.grows h hgrows

/-- The frames that wait for the end of another one. -/
abbrev WaitingBacked (waiting : List Frame) (overlay : Overlay) : Prop :=
  ∀ f ∈ waiting, Frame.Backed f overlay

theorem backed_conclude {waiting : List Frame} (hwaiting : WaitingBacked waiting overlay)
    (hworld : world.Backed overlay) (purpose : Purpose) (result : Result) :
    (conclude waiting purpose result world).Backed overlay := by
  cases waiting with
  | nil => exact hworld
  | cons caller waiting =>
      exact
        { world := hworld
          frame := (caller.resume_same purpose result).backed (hwaiting caller List.mem_cons_self)
          waiting := fun f hf => hwaiting f (List.mem_cons_of_mem _ hf) }

theorem backed_haltFrame {f : Frame} {waiting : List Frame} (hf : f.Backed overlay)
    (hwaiting : WaitingBacked waiting overlay) (cause : Halt) :
    (haltFrame f waiting cause).Backed overlay :=
  backed_conclude hwaiting hf.saved _ _

/-! ## Opening and closing frames -/

/-- The overlay holds an account and the one that it delegates to. -/
def CalleeHeld (world : World) (overlay : Overlay) (address : Address) : Prop :=
  overlay.Holds (.account address) ∧
    ∀ target, (world.account overlay address).code.delegate? = some target →
      overlay.Holds (.account target)

theorem calleeHeld_of_missingCallee? {address : Address} (h : world.Backed overlay)
    (hmissing : missingCallee? world overlay address = none) :
    CalleeHeld world overlay address := by
  unfold missingCallee? at hmissing
  split at hmissing
  next => cases hmissing
  next hnone =>
    refine ⟨h.holds_of_missingAccount? hnone, ?_⟩
    intro target htarget
    rw [htarget] at hmissing
    exact h.holds_of_missingAccount? hmissing

theorem account_loadCallee (world : World) (overlay : Overlay) (address other : Address) :
    (loadCallee world overlay address).account overlay other = world.account overlay other := by
  unfold loadCallee
  dsimp only
  split
  next => rw [World.account_load, World.account_load]
  next => rw [World.account_load]

theorem backed_loadCallee {address : Address} (h : world.Backed overlay)
    (hcallee : CalleeHeld world overlay address) :
    (loadCallee world overlay address).Backed overlay := by
  unfold loadCallee
  dsimp only
  split
  next target htarget =>
    rw [World.account_load] at htarget
    exact (h.load hcallee.1).load (hcallee.2 target htarget)
  next => exact h.load hcallee.1

def Opening.Backed (overlay : Overlay) : Opening → Prop
  | .frame f world => f.Backed overlay ∧ world.Backed overlay
  | .over _ _ world => world.Backed overlay

theorem Opening.Backed.enter {opening : Opening} {waiting : List Frame}
    (h : opening.Backed overlay) (hwaiting : WaitingBacked waiting overlay) :
    (opening.enter waiting).Backed overlay := by
  match opening, h with
  | .frame f world, h => exact ⟨h.2, h.1, hwaiting⟩
  | .over purpose result world, h => exact backed_conclude hwaiting h purpose result

theorem backed_openCall (env : Env) {message : Message} (h : world.Backed overlay)
    (hcallee : CalleeHeld world overlay message.codeAddress)
    (haddress : overlay.Holds (.account message.address))
    (hcaller : message.moves → overlay.Holds (.account message.caller)) :
    (openCall env overlay message world).Backed overlay := by
  have hsaved := backed_loadCallee h hcallee
  unfold openCall
  dsimp only
  split
  next => exact h
  next =>
    split
    next => exact hsaved
    next hmoved =>
      split at hmoved
      next hmoves => exact hsaved.modify (hcaller hmoves) _
      next => cases hmoved
    next moved hmoved =>
      have hmovedBacked : moved.Backed overlay := by
        split at hmoved
        next hmoves => exact hsaved.transfer (hcaller hmoves) haddress hmoved
        next =>
          cases hmoved
          exact hsaved
      split
      next =>
        split
        next => exact hsaved
        next =>
          split
          next => exact hsaved
          next => exact hmovedBacked
      next =>
        split
        next => exact hmovedBacked
        next => exact ⟨⟨haddress, nofun, hsaved⟩, hmovedBacked⟩

theorem backed_beginCreate {creator address : Address} {depth : Nat} {operands : CreateOperands}
    {counted : World} (h : world.Backed overlay) (hcreator : overlay.Holds (.account creator))
    (hbegin : beginCreate overlay creator depth operands world = .ok (address, counted)) :
    counted.Backed overlay := by
  unfold beginCreate at hbegin
  dsimp only at hbegin
  split at hbegin
  next => cases hbegin
  next =>
    split at hbegin
    next => cases hbegin
    next =>
      split at hbegin
      next => cases hbegin
      next =>
        cases hbegin
        exact h.modify hcreator _

theorem backed_openCreate {creator address : Address} {depth : Nat} {operands : CreateOperands}
    (h : world.Backed overlay) (hcreator : overlay.Holds (.account creator))
    (haddress : overlay.Holds (.account address)) :
    (openCreate overlay creator address depth operands world).Backed overlay := by
  have hsaved := h.load haddress
  unfold openCreate
  dsimp only
  split
  next => exact hsaved
  next =>
    split
    next => exact hsaved
    next =>
      refine ⟨⟨haddress, ?_, hsaved⟩, (hsaved.modify haddress _).modify hcreator _⟩
      rintro _ ⟨⟩
      exact haddress

theorem backed_closeFinished {f : Frame} (hf : f.Backed overlay) (h : world.Backed overlay)
    (env : Env) (output : Bytes) :
    (closeFinished env overlay f output world).2.Backed overlay := by
  unfold closeFinished
  split
  next => exact h
  next address hpurpose =>
    unfold deploy
    split
    next => exact hf.saved
    next =>
      split
      next => exact hf.saved
      next =>
        split
        next => exact hf.saved
        next => exact h.modify (hf.created address hpurpose) _

/-! ## Steps of the machine -/

variable {m : Machine} {env : Env}

theorem backed_answer (h : m.Backed overlay) (hworld : world.Backed overlay) (cost : Nat)
    (word : Word) : (answer m cost world word).Backed overlay := by
  unfold answer
  split
  split
  next => exact backed_haltFrame h.frame h.waiting _
  next => exact ⟨hworld, ⟨h.frame.address, h.frame.created, h.frame.saved⟩, h.waiting⟩

theorem backed_performCodeCopy {address : Address} {target start count : Word}
    (h : m.Backed overlay) (hheld : overlay.Holds (.account address)) :
    (performCodeCopy env overlay address target start count m).Backed overlay := by
  rcases m with ⟨f, waiting, world⟩
  unfold performCodeCopy
  dsimp only
  generalize hcopied : (do
    let count ← Frame.offset count
    let f ← f.charge (Gas.coldAccount env.fork (world.isWarm address))
    f.copyIn target ((world.load overlay address).account overlay address).code.bytes
      start.clamp64 count : Except Halt Frame) = copied
  -- The copy is paid for in the middle of the computation, so it is taken as a whole.
  have hyields : Yields copied f.Continues := by
    rw [← hcopied]
    refine .after fun _ => (Frame.charge_yields (.refl f) _).bind fun _ hpaid => ?_
    exact Frame.copyIn_yields hpaid _ _ _ _
  cases copied with
  | error cause => exact backed_conclude h.waiting h.frame.saved _ _
  | ok frame => exact ⟨h.world.load hheld, (hyields frame rfl).backed h.frame, h.waiting⟩

theorem backed_performStore {key value : Word} (h : m.Backed overlay) :
    (performStore env overlay key value m).Backed overlay := by
  rcases m with ⟨f, waiting, world⟩
  unfold performStore
  dsimp only
  split
  next => exact backed_haltFrame h.frame h.waiting _
  next =>
    exact ⟨h.world.modify h.frame.address _,
      ⟨h.frame.address, h.frame.created, h.frame.saved⟩, h.waiting⟩

theorem backed_destroyAccount {fork : HardFork} {address beneficiary : Address}
    (h : world.Backed overlay) (hself : overlay.Holds (.account address))
    (hheld : overlay.Holds (.account beneficiary)) :
    (destroyAccount fork overlay address beneficiary world).Backed overlay := by
  have hpaid : World.Backed (if address = beneficiary then world else
      (world.touch overlay beneficiary).setBalance overlay beneficiary
        ((world.account overlay beneficiary).balance +
          (world.accessed overlay address).account.balance)) overlay := by
    split
    next => exact h
    next => exact (h.modify hheld _).modify hheld _
  unfold destroyAccount
  dsimp only
  split
  next => exact hpaid.modify hself _
  next =>
    split
    next hsame =>
      rw [if_pos hsame] at hpaid
      exact hpaid
    next hother =>
      rw [if_neg hother] at hpaid
      exact hpaid.modify hself _

theorem backed_performDestroy {beneficiary : Address} (h : m.Backed overlay)
    (hheld : overlay.Holds (.account beneficiary)) :
    (performDestroy env overlay beneficiary m).Backed overlay := by
  rcases m with ⟨f, waiting, world⟩
  unfold performDestroy
  dsimp only
  split
  next => exact backed_haltFrame h.frame h.waiting _
  next =>
    refine backed_conclude h.waiting (backed_closeFinished ?_ ?_ _ _) _ _
    · exact ⟨h.frame.address, h.frame.created, h.frame.saved⟩
    · exact backed_destroyAccount (h.world.load hheld) h.frame.address hheld

theorem backed_performCall {operands : CallOperands} (h : m.Backed overlay)
    (hcallee : CalleeHeld m.world overlay operands.codeAddress) :
    (performCall env overlay operands m).Backed overlay := by
  rcases m with ⟨f, waiting, world⟩
  have hself := h.frame.address
  have hloaded : CalleeHeld (world.load overlay operands.codeAddress) overlay
      operands.codeAddress := by
    rwa [CalleeHeld, World.account_load]
  have hentered := backed_loadCallee (h.world.load hcallee.1) hloaded
  unfold performCall
  dsimp only
  split
  next => exact backed_haltFrame h.frame h.waiting _
  next =>
    refine Opening.Backed.enter (backed_openCall _ hentered ?_ ?_ ?_) ?_
    · rw [CalleeHeld, account_loadCallee]
      exact hloaded
    · dsimp only
      split
      next => exact hcallee.1
      next => exact hcallee.1
      next => exact hself
      next => exact hself
    · intro hmoves
      have hkind : operands.kind ≠ .delegateCall := by simpa using hmoves
      dsimp only
      rw [if_neg hkind]
      exact hself
    · intro g hg
      rcases List.mem_cons.mp hg with rfl | hg
      · exact ⟨h.frame.address, h.frame.created, h.frame.saved⟩
      · exact h.waiting g hg

/-- Performing an access keeps the machine backed if nothing is missing for it. -/
theorem backed_perform (h : m.Backed overlay) {what : Access}
    (hmissing : what.missing? overlay m = none) :
    (perform env overlay what m).Backed overlay := by
  have hself := h.frame.address
  cases what with
  | balance address | codeSize address | codeHash address =>
      exact backed_answer h (h.world.load (h.world.holds_of_missingAccount? hmissing)) _ _
  | selfBalance | blockHash number | loadTransient key =>
      unfold perform
      exact backed_answer h h.world _ _
  | codeCopy address target start count =>
      exact backed_performCodeCopy h (h.world.holds_of_missingAccount? hmissing)
  | load key => exact backed_answer h (h.world.modify hself _) _ _
  | store key value => exact backed_performStore h
  | storeTransient key value => exact ⟨h.world, h.frame, h.waiting⟩
  | destroy beneficiary =>
      exact backed_performDestroy h (h.world.holds_of_missingAccount? hmissing)
  | call operands => exact backed_performCall h (calleeHeld_of_missingCallee? h.world hmissing)
  | create operands =>
      have hframes : WaitingBacked (m.frame :: m.waiting) overlay :=
        List.forall_mem_cons.mpr ⟨h.frame, h.waiting⟩
      unfold perform performCreate
      dsimp only
      split
      next => exact backed_conclude hframes h.world _ _
      next address world hbegin =>
        exact ⟨⟨backed_beginCreate h.world hself hbegin, h.frame, h.waiting⟩, trivial⟩
  | deploy operands address =>
      exact (backed_openCreate h.world hself (h.world.holds_of_missingAccount? hmissing)).enter
        (List.forall_mem_cons.mpr ⟨h.frame, h.waiting⟩)

/-- Carrying out an instruction keeps the machine backed. -/
theorem backed_step (h : m.Backed overlay) : (step env overlay m).Backed overlay := by
  rcases m with ⟨f, waiting, world⟩
  unfold step
  dsimp only
  split
  next => exact backed_haltFrame h.frame h.waiting _
  next op _ =>
    split
    next => exact backed_haltFrame h.frame h.waiting _
    next =>
      split
      next => exact backed_haltFrame h.frame h.waiting _
      next =>
        -- Gas and place aside, an instruction leaves the activation of its frame as it is, and what
        -- the overlay has to hold for a frame depends on the activation alone.
        have hpaid : Frame.Backed { f with gas := f.gas - op.staticGas env.fork, pc := f.pc + 1 }
            overlay :=
          ⟨h.frame.address, h.frame.created, h.frame.saved⟩
        have hyields := execute_yields env op
          { f with gas := f.gas - op.staticGas env.fork, pc := f.pc + 1 }
        split
        next => exact backed_conclude h.waiting h.frame.saved _ _
        next frame heffect => exact ⟨h.world, (hyields _ heffect).backed hpaid, h.waiting⟩
        next what frame heffect =>
          obtain ⟨hsame, hrange, -⟩ := hyields _ heffect
          exact ⟨⟨h.world, hsame.backed hpaid, h.waiting⟩, hrange⟩
        next frame output heffect =>
          exact backed_conclude h.waiting
            (backed_closeFinished ((hyields _ heffect).backed hpaid) h.world env output) _ _
        next frame output heffect =>
          exact backed_conclude h.waiting ((hyields _ heffect).backed hpaid).saved _ _

end Evm

end ForkReplay
