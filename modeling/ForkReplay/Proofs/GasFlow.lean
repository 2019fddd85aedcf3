import ForkReplay.Proofs.Activations
import ForkReplay.Proofs.Lookups

/-!
# The flow of gas

Gas moves between frames and is spent, but no step of the machine makes any. Almost every
instruction has a price; the few without one end their frame or leave an access that has.
So the gas at the start of a run bounds the number of its steps, and the fuel of a
transaction is never used up.
-/

namespace ForkReplay.Evm

/-- The gas that an access keeps for the frame that it opens. -/
def Access.gas : Access → Nat
  | .create operands | .deploy operands _ => operands.gas
  | _ => 0

/-- How far an access is from the next instruction. The write of a slot counts for nothing,
since its instruction is free and the write itself is not. -/
def Access.weight : Access → Nat
  | .store _ _ => 0
  | .create _ => 5
  | _ => 4

/-- The gas of the frames that wait. -/
def gasOf : List Frame → Nat
  | [] => 0
  | f :: frames => f.gas + gasOf frames

namespace Step

/-- The gas of all frames, and what an access keeps for one more. -/
def gas : Step → Nat
  | .next m => m.frame.gas + gasOf m.waiting
  | .access what m => m.frame.gas + gasOf m.waiting + what.gas
  | .done result _ => result.gas

/-- How many steps may follow at no cost: each frame has to be ended. -/
def weight : Step → Nat
  | .next m => 2 * m.waiting.length + 3
  | .access what m => 2 * m.waiting.length + 2 + what.weight
  | .done _ _ => 0

/-- A bound on the number of steps that follow. -/
def rounds (s : Step) : Nat := 8 * s.gas + s.weight

/-- From one step to a later one no gas is made, and fewer steps may follow. -/
structure Spends (s t : Step) : Prop where
  gas : t.gas ≤ s.gas
  rounds : t.rounds < s.rounds

theorem Spends.of_weight {s t : Step} (hgas : t.gas ≤ s.gas) (hweight : t.weight < s.weight) :
    s.Spends t where
  gas := hgas
  rounds := by
    unfold Step.rounds
    omega

end Step

open Step (Spends)

variable {s : Step} {m : Machine} {world : World} {overlay : Overlay} {env : Env}
  {waiting : List Frame}

/-! ## Opening and closing frames -/

/-- A frame gets no more back than what is left of the gas that it gave away. -/
theorem gas_resume (f : Frame) (purpose : Purpose) (result : Result) :
    (f.resume purpose result).gas ≤ f.gas + result.gas := by
  unfold Frame.resume
  cases result.exit with
  | halt cause =>
      cases purpose with
      | create address => exact Nat.le_add_right _ _
      | call offset size => exact Nat.le_add_right _ _
  | ok | revert =>
      cases purpose with
      | create address => exact Nat.le_refl _
      | call offset size =>
          dsimp only
          split
          next => exact Nat.le_refl _
          next => exact Nat.le_refl _

theorem gas_conclude (waiting : List Frame) (purpose : Purpose) (result : Result) (world : World) :
    (conclude waiting purpose result world).gas ≤ result.gas + gasOf waiting := by
  cases waiting with
  | nil => exact Nat.le_add_right _ _
  | cons caller waiting =>
      have hresume := gas_resume caller purpose result
      rw [gasOf]
      change (caller.resume purpose result).gas + gasOf waiting ≤ _
      omega

theorem weight_conclude (waiting : List Frame) (purpose : Purpose) (result : Result)
    (world : World) : (conclude waiting purpose result world).weight ≤ 2 * waiting.length + 1 := by
  cases waiting with
  | nil => exact Nat.zero_le _
  | cons caller waiting =>
      rw [List.length_cons]
      exact Nat.le_refl _

theorem spends_conclude {purpose : Purpose} {result : Result}
    (hgas : result.gas + gasOf waiting ≤ s.gas) (hweight : 2 * waiting.length + 1 < s.weight) :
    s.Spends (conclude waiting purpose result world) :=
  .of_weight (Nat.le_trans (gas_conclude ..) hgas) (Nat.lt_of_le_of_lt (weight_conclude ..) hweight)

theorem spends_haltFrame {f : Frame} {cause : Halt} (hgas : gasOf waiting ≤ s.gas)
    (hweight : 2 * waiting.length + 1 < s.weight) : s.Spends (haltFrame f waiting cause) :=
  spends_conclude (Nat.le_trans (Nat.le_of_eq (Nat.zero_add _)) hgas) hweight

/-- The gas of a frame that was opened, or of the result that came instead. -/
def Opening.gas : Opening → Nat
  | .frame f _ => f.gas
  | .over _ result _ => result.gas

theorem spends_enter {opening : Opening} (hgas : opening.gas + gasOf waiting ≤ s.gas)
    (hweight : 2 * waiting.length + 3 < s.weight) : s.Spends (opening.enter waiting) := by
  rcases opening with ⟨f, world⟩ | ⟨purpose, result, world⟩
  · exact .of_weight hgas hweight
  · exact spends_conclude hgas (by omega)

/-- The first step of a run has the gas of its opening. -/
theorem gas_enter (opening : Opening) : (opening.enter []).gas = opening.gas := by
  rcases opening with ⟨f, world⟩ | ⟨purpose, result, world⟩
  · rfl
  · rfl

theorem gas_openCall (env : Env) (overlay : Overlay) (message : Message) (world : World) :
    (openCall env overlay message world).gas ≤ message.gas := by
  unfold openCall
  dsimp only
  split
  next => exact Nat.le_refl _
  next =>
    split
    next => exact Nat.le_refl _
    next => exact Nat.zero_le _
    next =>
      split
      next =>
        split
        next => exact Nat.zero_le _
        next =>
          split
          next => exact Nat.zero_le _
          next => exact Nat.sub_le _ _
      next =>
        split
        next => exact Nat.le_refl _
        next => exact Nat.le_refl _

theorem gas_openCreate (overlay : Overlay) (creator address : Address) (depth : Nat)
    (operands : CreateOperands) (world : World) :
    (openCreate overlay creator address depth operands world).gas ≤ operands.gas := by
  unfold openCreate
  dsimp only
  split
  next => exact Nat.zero_le _
  next =>
    split
    next => exact Nat.zero_le _
    next => exact Nat.le_refl _

theorem gas_of_beginCreate_error {creator : Address} {depth : Nat} {operands : CreateOperands}
    {result : Result} (h : beginCreate overlay creator depth operands world = .error result) :
    result.gas = operands.gas := by
  unfold beginCreate at h
  dsimp only at h
  split at h
  next =>
    cases h
    rfl
  next =>
    split at h
    next =>
      cases h
      rfl
    next =>
      split at h
      next =>
        cases h
        rfl
      next => cases h

theorem gas_closeFinished (env : Env) (overlay : Overlay) (f : Frame) (output : Bytes)
    (world : World) : (closeFinished env overlay f output world).1.gas ≤ f.gas := by
  unfold closeFinished
  split
  next => exact Nat.le_refl _
  next =>
    unfold deploy
    split
    next => exact Nat.zero_le _
    next =>
      split
      next => exact Nat.zero_le _
      next =>
        split
        next => exact Nat.zero_le _
        next => exact Nat.sub_le _ _

theorem spends_closeFinished {f : Frame} {purpose : Purpose} {output : Bytes} {after : World}
    (hgas : f.gas + gasOf waiting ≤ s.gas) (hweight : 2 * waiting.length + 1 < s.weight) :
    s.Spends (conclude waiting purpose (closeFinished env overlay f output world).1 after) := by
  have hclosed := gas_closeFinished env overlay f output world
  exact spends_conclude (by omega) hweight

/-! ## Accesses -/

theorem slotWrite_pos (fork : HardFork) (slot : Slot) (new : Word) (warm : Bool) :
    0 < Gas.slotWrite fork slot new warm := by
  have hwarm : 0 < Gas.warmSlot fork := by
    unfold Gas.warmSlot
    split
    next => decide
    next => decide
  have hreset : 0 < Gas.slotReset fork := by
    unfold Gas.slotReset
    split
    next => decide
    next => decide
  unfold Gas.slotWrite
  apply Nat.add_pos_right
  split
  next => exact hwarm
  next =>
    split
    next =>
      split
      next => decide
      next => exact hreset
    next => exact hwarm

/-- A call that moves value costs more than the stipend that its frame gets. -/
theorem stipend_le_call (fork : HardFork) (warm : Bool) (delegate : Option Bool) (isNew : Bool)
    (value : Word) : (if value ≠ 0 then Gas.callStipend else 0) ≤
      Gas.call fork warm delegate (value ≠ 0) isNew := by
  unfold Gas.call Gas.callStipend
  dsimp only
  split
  next hvalue =>
    rw [if_pos (decide_eq_true hvalue)]
    omega
  next => exact Nat.zero_le _

/-- A frame that halts on its access gives up its gas. -/
theorem spends_haltAccess {what : Access} {cause : Halt} :
    (Step.access what m).Spends (haltFrame m.frame m.waiting cause) := by
  apply spends_haltFrame
  · simp only [Step.gas]
    omega
  · simp only [Step.weight]
    omega

theorem spends_answer {what : Access} {cost : Nat} {word : Word} (hweight : 1 < what.weight) :
    (Step.access what m).Spends (answer m cost world word) := by
  rcases m with ⟨f, waiting, _⟩
  unfold answer
  dsimp only
  split
  next => exact spends_haltAccess
  next =>
    apply Spends.of_weight
    · simp only [Step.gas]
      omega
    · simp only [Step.weight]
      omega

theorem spends_performCodeCopy {address : Address} {target start count : Word} :
    (Step.access (.codeCopy address target start count) m).Spends
      (performCodeCopy env overlay address target start count m) := by
  rcases m with ⟨f, waiting, world⟩
  unfold performCodeCopy
  dsimp only
  generalize hcopied : (do
    let count ← Frame.offset count
    let f ← f.charge (Gas.coldAccount env.fork (world.isWarm address))
    f.copyIn target ((world.load overlay address).account overlay address).code.bytes
      start.clamp64 count : Except Halt Frame) = copied
  have hyields : Yields copied f.Continues := by
    rw [← hcopied]
    refine .after fun _ => (Frame.charge_yields (.refl f) _).bind fun _ hpaid => ?_
    exact Frame.copyIn_yields hpaid _ _ _ _
  cases copied with
  | error cause => exact spends_haltAccess
  | ok frame =>
      have hgas := (hyields frame rfl).gas
      apply Spends.of_weight
      · simp only [Step.gas]
        omega
      · simp only [Step.weight, Access.weight]
        omega

theorem spends_performStore {key value : Word} :
    (Step.access (.store key value) m).Spends (performStore env overlay key value m) := by
  rcases m with ⟨f, waiting, world⟩
  unfold performStore
  dsimp only
  split
  next => exact spends_haltAccess
  next =>
    have hcost := slotWrite_pos env.fork (world.slot overlay f.address key) value
      (world.isWarmSlot overlay f.address key)
    refine ⟨?_, ?_⟩
    · simp only [Step.gas, Access.gas]
      omega
    · simp only [Step.rounds, Step.gas, Access.gas, Step.weight, Access.weight]
      omega

theorem spends_performDestroy {beneficiary : Address} :
    (Step.access (.destroy beneficiary) m).Spends (performDestroy env overlay beneficiary m) := by
  rcases m with ⟨f, waiting, world⟩
  unfold performDestroy
  dsimp only
  split
  next => exact spends_haltAccess
  next =>
    apply spends_closeFinished
    · simp only [Step.gas]
      omega
    · simp only [Step.weight]
      omega

theorem spends_performCall {operands : CallOperands} :
    (Step.access (.call operands) m).Spends (performCall env overlay operands m) := by
  rcases m with ⟨f, waiting, world⟩
  unfold performCall
  dsimp only
  split
  next => exact spends_haltAccess
  next hcovered =>
    refine spends_enter (Nat.le_trans (Nat.add_le_add_right (gas_openCall ..) _) ?_) ?_
    · -- The stipend is paid by the price of the call, which the calling frame has lost.
      generalize hcost : Gas.call env.fork _ _ _ _ = cost at hcovered ⊢
      have hstipend : (if operands.value ≠ 0 then Gas.callStipend else 0) ≤ cost :=
        hcost ▸ stipend_le_call ..
      have hgiven : Gas.allButOne64th (f.gas - cost) ≤ f.gas - cost := Nat.sub_le _ _
      simp only [Step.gas, Access.gas, gasOf]
      split at hstipend
      next hvalue =>
        rw [if_pos hvalue]
        omega
      next hvalue =>
        rw [if_neg hvalue]
        omega
    · simp only [Step.weight, Access.weight, List.length_cons]
      omega

theorem spends_performCreate {operands : CreateOperands} :
    (Step.access (.create operands) m).Spends (performCreate overlay operands m) := by
  unfold performCreate
  split
  next result hbegin =>
    have hgas := gas_of_beginCreate_error hbegin
    apply spends_conclude
    · simp only [Step.gas, Access.gas, gasOf]
      omega
    · simp only [Step.weight, Access.weight, List.length_cons]
      omega
  next => exact .of_weight (Nat.le_refl _) (Nat.add_lt_add_left (by decide : 4 < 5) _)

/-- Performing an access spends. -/
theorem spends_perform (env : Env) (overlay : Overlay) (what : Access) (m : Machine) :
    (Step.access what m).Spends (perform env overlay what m) := by
  cases what with
  | balance address | codeSize address | codeHash address | load key =>
      exact spends_answer (by decide : 1 < 4)
  | selfBalance | blockHash number | loadTransient key =>
      unfold perform
      exact spends_answer (by decide : 1 < 4)
  | codeCopy address target start count => exact spends_performCodeCopy
  | store key value => exact spends_performStore
  | storeTransient key value =>
      exact .of_weight (Nat.le_refl _) (Nat.add_lt_add_left (by decide : 3 < 6) _)
  | destroy beneficiary => exact spends_performDestroy
  | call operands => exact spends_performCall
  | create operands => exact spends_performCreate
  | deploy operands address =>
      refine spends_enter (Nat.le_trans (Nat.add_le_add_right (gas_openCreate ..) _) ?_) ?_
      · simp only [Step.gas, Access.gas, gasOf]
        omega
      · simp only [Step.weight, Access.weight, List.length_cons]
        omega

/-! ## Instructions -/

theorem Access.PaidBy.gas_le {what : Access} {f g : Frame} (hpaid : what.PaidBy f g)
    (hgas : g.gas ≤ f.gas) : g.gas + what.gas ≤ f.gas := by
  cases what with
  | create operands | deploy operands address => exact Nat.le_of_lt hpaid
  | _ => exact hgas

theorem Access.weight_le (what : Access) : what.weight ≤ 5 := by
  unfold Access.weight
  split
  next => decide
  next => decide
  next => decide

/-- The instructions without a price end their frame, write a slot or create an account. -/
theorem opcode_of_free {fork : HardFork} {op : Opcode} (h : op.staticGas fork = 0) :
    op ∈ [.stop, .sstore, .create, .create2, .return, .revert, .invalid] := by
  have haccess : ∀ before warm, 0 < before → 0 < warm → Opcode.accessGas fork before warm ≠ 0 := by
    intro before warm hbefore hwarm
    unfold Opcode.accessGas
    split
    next => exact Nat.ne_of_gt hwarm
    next => exact Nat.ne_of_gt hbefore
  cases op with
  | stop | sstore | create | create2 | «return» | revert | invalid => simp
  | balance | extCodeHash | extCodeSize | extCodeCopy | call kind | sload =>
      exact absurd h (haccess _ _ (by decide) (by decide))
  | binary op => cases op <;> cases h
  | push count =>
      simp only [Opcode.staticGas] at h
      split at h
      next => cases h
      next => cases h
  | _ => cases h

/-- What an instruction without a price may do: go on is not among it. -/
def Effect.Free : Effect → Prop
  | .next _ => False
  | .access (.store _ _) _ | .access (.create _) _ => True
  | .access _ _ => False
  | .finish _ _ | .revert _ _ => True

theorem execute_of_free {op : Opcode} (hfree : op.staticGas env.fork = 0) (f : Frame) :
    Yields (execute env op f) Effect.Free := by
  have hcreate (salted : Bool) : Yields (f.takeCreate env salted) Effect.Free :=
    .after fun _ => .after fun _ => .after fun _ => .after fun _ => .after fun _ => .after fun _ =>
      .after fun _ => .ok trivial
  have hop := opcode_of_free hfree
  simp only [List.mem_cons, List.not_mem_nil, or_false] at hop
  unfold execute
  rcases hop with rfl | rfl | rfl | rfl | rfl | rfl | rfl
  · exact .ok trivial
  · refine .after fun _ => .after fun _ => ?_
    dsimp only
    split
    next => exact .error _
    next => exact .ok trivial
  · exact hcreate false
  · exact hcreate true
  · exact .after fun _ => .ok trivial
  · exact .after fun _ => .ok trivial
  · exact .error _

/-- An instruction that leaves an access spends, if it has a price or the access is a write or
is paid for. -/
theorem spends_access {f g : Frame} {what : Access} {cost : Nat} (hcovered : cost ≤ f.gas)
    (hgas : g.gas + what.gas ≤ f.gas - cost)
    (hfree : cost = 0 → what.weight = 0 ∨ g.gas + what.gas < f.gas) :
    (Step.next ⟨f, waiting, world⟩).Spends (.access what ⟨g, waiting, world⟩) where
  gas := by
    simp only [Step.gas]
    omega
  rounds := by
    have hkept := what.weight_le
    simp only [Step.rounds, Step.gas, Step.weight]
    omega

/-- Carrying out an instruction spends. -/
theorem spends_step (env : Env) (overlay : Overlay) (m : Machine) :
    (Step.next m).Spends (step env overlay m) := by
  rcases m with ⟨f, waiting, world⟩
  have hweight : 2 * waiting.length + 1 < (Step.next ⟨f, waiting, world⟩).weight :=
    Nat.add_lt_add_left (by decide) _
  have hhalt (cause : Halt) :
      (Step.next ⟨f, waiting, world⟩).Spends (haltFrame f waiting cause) :=
    spends_haltFrame (Nat.le_add_left _ _) hweight
  unfold step
  dsimp only
  split
  next => exact hhalt _
  next op _ =>
    split
    next => exact hhalt _
    next hcovered =>
      split
      next => exact hhalt _
      next =>
        have hfits := execute_yields env op
          { f with gas := f.gas - op.staticGas env.fork, pc := f.pc + 1 }
        have hfree (h : op.staticGas env.fork = 0) := execute_of_free h
          { f with gas := f.gas - op.staticGas env.fork, pc := f.pc + 1 }
        generalize op.staticGas env.fork = cost at hcovered hfits hfree ⊢
        split
        next => exact hhalt _
        next frame heffect =>
          have hgas : frame.gas ≤ f.gas - cost := (hfits _ heffect).gas
          have hpriced : cost ≠ 0 := fun hzero => hfree hzero _ heffect
          refine ⟨?_, ?_⟩
          · simp only [Step.gas]
            omega
          · simp only [Step.rounds, Step.gas, Step.weight]
            omega
        next what frame heffect =>
          obtain ⟨hcontinues, -, hpaid⟩ := hfits _ heffect
          refine spends_access (by omega) (hpaid.gas_le hcontinues.gas) fun hzero => ?_
          have heffectFree := hfree hzero _ heffect
          cases what with
          | store key value => exact .inl rfl
          | create operands => exact .inr (Nat.lt_of_lt_of_le hpaid (Nat.sub_le _ _))
          | _ => exact heffectFree.elim
        next frame output heffect =>
          have hgas : frame.gas ≤ f.gas - cost := (hfits _ heffect).gas
          refine spends_closeFinished ?_ hweight
          simp only [Step.gas]
          omega
        next frame output heffect =>
          have hgas : frame.gas ≤ f.gas - cost := (hfits _ heffect).gas
          refine spends_conclude ?_ hweight
          simp only [Step.gas]
          omega

/-! ## Runs -/

theorem run_done (env : Env) (fuel : Nat) (overlay : Overlay) (result : Result) (world : World) :
    run env fuel overlay (.done result world) = .done (.ok (result, world), overlay) := by
  cases fuel with
  | zero => rfl
  | succ fuel => rfl

/-- A run that has fuel for all steps that may follow does not depend on it. -/
theorem run_of_enough_fuel {fuel : Nat} {first : Step} (h : first.rounds ≤ fuel) (more : Nat) :
    run env (fuel + more) overlay first = run env fuel overlay first := by
  induction fuel generalizing first overlay with
  | zero =>
      cases first with
      | next m =>
          simp only [Step.rounds, Step.weight] at h
          omega
      | access what m =>
          simp only [Step.rounds, Step.weight] at h
          omega
      | done result world => rw [run_done, run_done]
  | succ fuel ih =>
      rw [Nat.add_right_comm]
      cases first with
      | next m =>
          have hstep := (spends_step env overlay m).rounds
          exact ih (by omega)
      | access what m =>
          rw [run_access, run_access]
          refine congrArg _ ?_
          funext ending
          rcases ending with ⟨failure | _, overlay⟩
          · rfl
          · have hperform := (spends_perform env overlay what m).rounds
            exact ih (by omega)
      | done result world => rw [run_done, run_done]

/-- A transaction has enough fuel for all that its gas allows. -/
theorem run_fuelFor {gas : Nat} {opening : Opening} (h : opening.gas ≤ gas) (more : Nat) :
    run env (fuelFor gas + more) overlay (opening.enter []) =
      run env (fuelFor gas) overlay (opening.enter []) := by
  have hweight : (opening.enter []).weight ≤ 3 := by
    rcases opening with ⟨f, world⟩ | ⟨purpose, result, world⟩
    · exact Nat.le_refl _
    · exact Nat.zero_le _
  refine run_of_enough_fuel ?_ more
  rw [Step.rounds, gas_enter, fuelFor]
  omega

end ForkReplay.Evm
