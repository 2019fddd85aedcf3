import ForkReplay.Proofs.BlobSeries
import ForkReplay.Proofs.Calls
import ForkReplay.Proofs.Planning

/-!
# Blocks that lack nothing

The environment of a block has a blob price under all rules, and a random value from the merge
on. So a transaction of the block may be refused for many reasons, but never for what the block
lacks. Only the check of the block gives that reason: every other stage fails with what the
transaction does wrong or with what a lookup brings.
-/

namespace ForkReplay

namespace Dialogue

variable {Q : Type} {A : Q → Type} {α β σ : Type} {mid : α → Prop} {wanted : β → Prop}

/-- Whatever the answers are, the value at the end is as wanted. -/
def Always (wanted : α → Prop) : Dialogue Q A α → Prop
  | .done value => wanted value
  | .ask _ next => ∀ answer, (next answer).Always wanted

theorem always_bind {d : Dialogue Q A α} {f : α → Dialogue Q A β}
    (h : ∀ value, (f value).Always wanted) : (d.bind f).Always wanted := by
  induction d with
  | done value => exact h value
  | ask question next ih => exact ih

theorem Always.bind {d : Dialogue Q A α} {f : α → Dialogue Q A β} (hd : d.Always mid)
    (hf : ∀ value, mid value → (f value).Always wanted) : (d.bind f).Always wanted := by
  induction d with
  | done value => exact hf value hd
  | ask question next ih => exact fun answer => ih answer (hd answer)

theorem Always.interpret {Q' : Type} {A' : Q' → Type} {d : Dialogue Q A β} (hd : d.Always wanted)
    (meaning : (q : Q) → Dialogue Q' A' (A q)) : (d.interpret meaning).Always wanted := by
  induction d with
  | done value => exact hd
  | ask question next ih => exact always_bind fun answer => ih answer (hd answer)

theorem Always.runWith {d : Dialogue Q A β} (hd : d.Always wanted)
    (answer : σ → (q : Q) → A q × σ) (state : σ) : wanted (d.runWith answer state).1 := by
  induction d generalizing state with
  | done value => exact hd
  | ask question next ih => exact ih _ (hd _) _

end Dialogue

/-- A computation that fails for no reason but an allowed one, whatever its lookups bring. -/
def FailsOnly {ε α : Type} (Allowed : ε → Prop) (computation : Overlaid ε α) : Prop :=
  ∀ overlay, (computation.run.run overlay).Always fun ending =>
    ∀ error, ending.1 = .error error → Allowed error

namespace FailsOnly

variable {ε ε' α β : Type} {Allowed : ε → Prop} {Permitted : ε' → Prop}

theorem pure (value : α) : FailsOnly Allowed (Pure.pure value) := fun _ => nofun

theorem get : FailsOnly Allowed MonadState.get := fun _ => nofun

theorem modify (change : Overlay → Overlay) :
    FailsOnly Allowed (modify change : Overlaid ε Unit) := fun _ => nofun

theorem throw {error : ε} (h : Allowed error) :
    FailsOnly Allowed (MonadExcept.throw error : Overlaid ε α) := by
  rintro overlay _ ⟨⟩
  exact h

theorem bind {x : Overlaid ε α} {f : α → Overlaid ε β} (hx : FailsOnly Allowed x)
    (hf : ∀ value, FailsOnly Allowed (f value)) : FailsOnly Allowed (x >>= f) := by
  refine fun overlay => (hx overlay).bind fun ending hending => ?_
  rcases ending with ⟨error | value, after⟩
  · rintro _ ⟨⟩
    exact hending error rfl
  · exact hf value after

theorem map {x : Overlaid ε α} (hx : FailsOnly Allowed x) (f : α → β) :
    FailsOnly Allowed (f <$> x) := by
  rw [← bind_pure_comp]
  exact hx.bind fun value => pure _

theorem adapt {x : Overlaid ε α} (hx : FailsOnly Allowed x) {f : ε → ε'}
    (hf : ∀ error, Allowed error → Permitted (f error)) :
    FailsOnly Permitted (ExceptT.adapt f x) := by
  refine fun overlay => (hx overlay).bind fun ending hending => ?_
  rcases ending with ⟨error | value, after⟩
  · rintro _ ⟨⟩
    exact hf error (hending error rfl)
  · exact nofun

end FailsOnly

/-! ## Transactions of a complete block -/

namespace Evm

/-- A failure for something else than what the block lacks. -/
def Failure.SparesBlock (failure : Failure) : Prop := ∀ lack, failure ≠ .incompleteBlock lack

variable {α : Type} {config : Config} {block : BlockEnv}

namespace Stage

theorem failsOnly_check (result : Except Invalid Unit) :
    FailsOnly Failure.SparesBlock (check result) := by
  cases result with
  | error cause => exact .throw nofun
  | ok => exact .pure _

/-- A lookup that fails is blamed on the source of the state. -/
theorem failsOnly_keeping (lookups : Overlay → Lookups (Except LookupFailure α × Overlay)) :
    FailsOnly Failure.SparesBlock (keeping lookups) := by
  intro overlay
  rw [run_keeping]
  refine Dialogue.always_bind fun ending => ?_
  rcases ending with ⟨failure | value, after⟩
  · cases failure with
    | failed message =>
        rintro _ ⟨⟩
        exact nofun
    | crashed =>
        rintro _ ⟨⟩
        exact nofun
  · exact nofun

theorem closed_failsOnly :
    Closed fun {α} (x : Stage α) => FailsOnly Failure.SparesBlock x where
  pure := FailsOnly.pure
  get := FailsOnly.get
  bind hx hf := hx.bind hf
  obtain _ _ := failsOnly_keeping _
  runMachine _ _ _ := failsOnly_keeping _

end Stage

/-- A transaction of a complete block does not fail for what the block lacks. -/
theorem failsOnly_transact (hblock : checkBlock config.fork block = .ok ()) (tx : Transaction) :
    FailsOnly Failure.SparesBlock (transact config block tx) := by
  have hrun : FailsOnly Failure.SparesBlock (checkAndRun config block tx) := by
    refine Stage.closed_failsOnly.checkAndRun Stage.failsOnly_check tx fun lack hlack => ?_
    rw [hblock] at hlack
    cases hlack
  exact hrun.bind fun (result, world) => (FailsOnly.modify _).bind fun _ => .pure _

end Evm

/-! ## Replays and calls -/

/-- A reason that is not what the block of a transaction lacks. -/
def ReasonSparesBlock (reason : String) : Prop :=
  ∀ lack : Evm.IncompleteBlock, reason ≠ (Evm.Failure.incompleteBlock lack).message

/-- An error that does not say that the block of a transaction lacks something. -/
def ReplayError.SparesBlock : ReplayError → Prop
  | .precedingTransaction _ reason | .execution _ reason | .call reason => ReasonSparesBlock reason
  | _ => True

open Text (Begins)

/-- No other failure is worded like that of a block which lacks something. -/
theorem Evm.Failure.SparesBlock.message {failure : Evm.Failure} (h : failure.SparesBlock) :
    ReasonSparesBlock failure.message := by
  intro lack heq
  have hbegins {start : String} (hstart : Begins start failure.message) :
      Begins start (Evm.Failure.incompleteBlock lack).message := heq ▸ hstart
  cases failure with
  | incompleteBlock other => exact h other rfl
  | invalid cause =>
      have hstart := hbegins ((Begins.refl "transaction validation error: ").append _)
      cases lack <;> exact absurd hstart (by decide)
  | database message =>
      have hstart := hbegins ((Begins.refl "database error: ").append _)
      cases lack <;> exact absurd hstart (by decide)
  | crashed => cases lack <;> exact absurd heq (by decide)

namespace Executor

variable {config : Evm.Config} {block : BlockEnv} {executor : Executor}

theorem sparesBlock_blamed {failure : Evm.Failure} (h : failure.SparesBlock)
    {blame : String → ReplayError}
    (hblame : ∀ reason, ReasonSparesBlock reason → (blame reason).SparesBlock) :
    (blamed blame failure).SparesBlock := by
  have hreason := hblame failure.message h.message
  cases failure with
  | crashed => trivial
  | incompleteBlock _ | invalid _ | database _ => exact hreason

theorem failsOnly_commit (hblock : Evm.checkBlock config.fork block = .ok ()) (tx : Transaction)
    {blame : String → ReplayError}
    (hblame : ∀ reason, ReasonSparesBlock reason → (blame reason).SparesBlock) :
    FailsOnly ReplayError.SparesBlock (commit config block tx blame) :=
  (Evm.failsOnly_transact hblock tx).adapt fun _ hfailure => sparesBlock_blamed hfailure hblame

theorem failsOnly_applyPreceding
    (hblock : Evm.checkBlock executor.config.fork executor.block = .ok ())
    (txs : List BlockTransaction) :
    FailsOnly ReplayError.SparesBlock (executor.applyPreceding txs) := by
  induction txs with
  | nil => exact .pure 0
  | cons tx rest ih =>
      unfold applyPreceding
      split
      next => exact ih
      next inner _ =>
        split
        next => exact ih
        next =>
          refine (failsOnly_commit hblock inner ?_).bind fun _ => ih.bind fun _ => .pure _
          exact fun _ hreason => hreason

theorem failsOnly_executeTarget
    (hblock : Evm.checkBlock executor.config.fork executor.block = .ok ())
    (target : BlockTransaction) :
    FailsOnly ReplayError.SparesBlock (executor.executeTarget target) := by
  unfold executeTarget
  split
  next => exact .throw trivial
  next inner _ =>
    refine (failsOnly_commit hblock inner ?_).map _
    exact fun _ hreason => hreason

theorem failsOnly_replayInBlock
    (hblock : Evm.checkBlock executor.config.fork executor.block = .ok ())
    (txs : List BlockTransaction) (target : BlockTransaction) :
    FailsOnly ReplayError.SparesBlock (executor.replayInBlock txs target) :=
  (failsOnly_applyPreceding hblock _).bind fun _ => failsOnly_executeTarget hblock target

theorem failsOnly_call
    (hblock : Evm.checkBlock executor.config.fork executor.callBlock = .ok ())
    (request : CallRequest) : FailsOnly ReplayError.SparesBlock (executor.call request) :=
  (@failsOnly_commit executor.callConfig executor.callBlock hblock _ .call
    fun _ hreason => hreason).map _

end Executor

/-- The environment of a block has what the rules ask for. -/
theorem BlockContext.checkBlock_env (context : BlockContext) (fork : HardFork)
    (registers : BlobPrice.Registers) :
    Evm.checkBlock fork (context.env fork registers) = .ok () := by
  refine Evm.checkBlock_eq_ok.mpr ⟨fun hmerge => ?_, fun _ => rfl⟩
  rw [env, if_pos hmerge]
  rfl

/-- What follows an answered computation is told by its value, and by how the node answers
from there. -/
theorem Simulating.snd_talk_bind {α β σ : Type}
    (answer : σ → (query : Node.Query) → query.Reply × σ) (state : σ)
    (computation : Simulating α) (next : α → Simulating β) :
    (talk answer state (computation >>= next)).2 =
      match (talk answer state computation).2 with
      | .ok value => (talk answer (computation.run.runWith answer state).2 (next value)).2
      | .error error => .error error := by
  have hrun : (computation >>= next).run = computation.run.bind fun
      | .ok value => (next value).run
      | .error error => .done (.error error) := by
    refine congrArg (Dialogue.bind computation.run) (funext fun ending => ?_)
    cases ending with
    | error error => rfl
    | ok value => rfl
  rw [talk, hrun, Dialogue.runWith_bind, talk]
  rcases computation.run.runWith answer state with ⟨error | value, later⟩
  · rfl
  · rfl

namespace Simulator

open Simulating

variable {σ : Type} (answer : σ → (query : Node.Query) → query.Reply × σ) (state : σ)

theorem sparesBlock_onFork {α : Type} {computation : Replaying α} {number : UInt64}
    (h : FailsOnly ReplayError.SparesBlock computation) {error : ReplayError}
    (herror : (talk answer state (onFork number computation)).2 = .error error) :
    error.SparesBlock := by
  have hending : (onFork number computation).run.Always fun result =>
      ∀ error, result = .error error → error.SparesBlock :=
    ((h .fork).interpret (Node.lookup number)).bind fun ending hending => hending
  exact hending.runWith answer state error herror

theorem sparesBlock_execute (simulator : Simulator) (plan : Plan) {error : ReplayError}
    (herror : (talk answer state (simulator.execute plan)).2 = .error error) :
    error.SparesBlock := by
  unfold execute at herror
  split at herror
  next =>
    refine sparesBlock_onFork answer state ?_ herror
    exact Executor.failsOnly_replayInBlock (plan.block.checkBlock_env plan.fork _) _ _
  next =>
    cases herror
    trivial

/-- What keeps a node's answers from a plan is not a block that lacks something. -/
theorem Obstacle.sparesBlock {target : Hash} {exchanges : List Node.Exchange} {error : ReplayError}
    (h : Obstacle target exchanges error) : error.SparesBlock := by
  cases h <;> trivial

theorem sparesBlock_replay (simulator : Simulator) (target : Hash) {error : ReplayError}
    (herror : (talk answer state (simulator.replay target)).2 = .error error) :
    error.SparesBlock := by
  rw [replay, snd_talk_bind] at herror
  rcases talk_plan answer state simulator target with
    ⟨exchanges, obstacle, htalk, hobstacle⟩ | ⟨_, _, _, _, _, htalk, -⟩
  · rw [htalk] at herror
    cases herror
    exact hobstacle.sparesBlock
  · rw [htalk] at herror
    exact sparesBlock_execute answer _ simulator _ herror

theorem sparesBlock_call (simulator : Simulator) (request : CallRequest) (block : Option UInt64)
    {error : ReplayError}
    (herror : (talk answer state (simulator.call request block)).2 = .error error) :
    error.SparesBlock := by
  unfold call at herror
  rw [talk_ask_bind] at herror
  split at herror
  next report later _ =>
    cases report with
    | none =>
        cases herror
        trivial
    | some report =>
        dsimp only at herror
        rw [known_some_bind] at herror
        split at herror
        next =>
          refine sparesBlock_onFork answer later (Executor.failsOnly_call ?_ request) herror
          exact Executor.checkBlock_call (.inl ⟨_, rfl⟩)
        next =>
          cases herror
          trivial
  next =>
    cases herror
    trivial

end Simulator

/-! ## Prices -/

namespace BlockContext

open Simulating (talk)

/-- The excess of blob gas of a block, zero if its header tells none. -/
def excess (context : BlockContext) : UInt64 := context.excessBlobGas.getD 0

/-- The blob price of a block with exact arithmetic. -/
def exactPrice (context : BlockContext) (fork : HardFork) : Nat :=
  BlobPrice.price .unbounded context.excess.toNat fork.updateFraction fork.updateFraction_pos

variable (context : BlockContext) (fork : HardFork)

theorem blob_env_unbounded :
    (context.env fork .unbounded).blob = some ⟨context.excess, context.exactPrice fork⟩ :=
  congrArg (fun price => some (BlobGas.mk context.excess price)) (BlobGas.price_under ..)

theorem exactPrice_le (other : BlockContext) (h : context.excess ≤ other.excess) :
    context.exactPrice fork ≤ other.exactPrice fork :=
  BlobPrice.price_unbounded_le h (Nat.le_refl _) _ _

/-- Prague has made blobs cheaper. -/
theorem exactPrice_le_of_prague {early late : HardFork} (hearly : ¬ early.has .prague)
    (hlate : late.has .prague) : context.exactPrice late ≤ context.exactPrice early := by
  refine BlobPrice.price_unbounded_le (Nat.le_refl _) ?_ _ _
  rw [HardFork.updateFraction, if_neg hearly, HardFork.updateFraction, if_pos hlate]
  decide

/-- With exact arithmetic the blob price of a block is what the loop for the exponential comes
to, which ends for every excess. It is at least one, and one if the header tells no excess. It
grows with the excess, and is never greater from Prague on than before. With any arithmetic the
environment has a price under all rules and a random value from the merge on, and whatever a
node answers, no replay and no call fails because the block lacks one of them. -/
theorem env_priced_and_complete :
    (context.env fork .unbounded).blob = some ⟨context.excess, context.exactPrice fork⟩ ∧
      (∀ value, BlobPrice.FakeExponential 1 context.excess.toNat fork.updateFraction value ↔
        value = context.exactPrice fork) ∧
      1 ≤ context.exactPrice fork ∧
      (context.excessBlobGas = none → context.exactPrice fork = 1) ∧
      (∀ other : BlockContext, context.excess ≤ other.excess →
        context.exactPrice fork ≤ other.exactPrice fork) ∧
      (∀ early late : HardFork, ¬ early.has .prague → late.has .prague →
        context.exactPrice late ≤ context.exactPrice early) ∧
      (∀ registers, (context.env fork registers).blob.isSome ∧
        (fork.has .merge → (context.env fork registers).prevRandao.isSome)) ∧
      ∀ {σ : Type} (answer : σ → (query : Node.Query) → query.Reply × σ) (state : σ)
        (simulator : Simulator) (error : ReplayError),
        ((∃ plan, (talk answer state (simulator.execute plan)).2 = .error error) ∨
          (∃ target, (talk answer state (simulator.replay target)).2 = .error error) ∨
          ∃ request block, (talk answer state (simulator.call request block)).2 = .error error) →
        error.SparesBlock := by
  refine ⟨context.blob_env_unbounded fork, ?_, ?_, ?_, context.exactPrice_le fork,
    fun _ _ => context.exactPrice_le_of_prague, ?_, ?_⟩
  · exact fun value => BlobPrice.fakeExponential_iff _ fork.updateFraction_pos
  · rw [exactPrice, BlobPrice.price_unbounded_eq_succ]
    exact Nat.le_add_left _ _
  · intro hnone
    rw [exactPrice, excess, hnone]
    exact BlobPrice.price_unbounded_zero fork.updateFraction_pos
  · refine fun registers => ⟨rfl, fun hmerge => ?_⟩
    exact (Evm.checkBlock_eq_ok.mp (context.checkBlock_env fork registers)).1 hmerge
  · rintro σ answer state simulator error
      (⟨plan, herror⟩ | ⟨target, herror⟩ | ⟨request, block, herror⟩)
    · exact simulator.sparesBlock_execute answer state plan herror
    · exact simulator.sparesBlock_replay answer state target herror
    · exact simulator.sparesBlock_call answer state request block herror

end BlockContext

end ForkReplay
