import ForkReplay.Chain.Sample
import ForkReplay.Proofs.BlockReplay
import ForkReplay.Proofs.HeldState
import ForkReplay.Proofs.Planning

/-!
# What a fork asks its node

The transactions of a replay take turns on one fork, and each commits before the next one
starts. Every query for state names the block that is forked. None is made for what a turn
has found or written before, with one exception: an account that was destroyed and is then
touched without being created is forgotten, and its slots are asked for anew.
-/

namespace ForkReplay

open Node (Exchange Query StateField)

/-! ## Queries for lookups -/

/-- What has to be looked up to learn a piece of state. -/
def Node.StateField.lookup (field : StateField) (address : Address) : Lookup :=
  match field with
  | .nonce | .balance | .code => .account address
  | .slot key => .slot address key

namespace Node

variable {number : UInt64}

/-- The queries that a lookup takes. -/
def queries (number : UInt64) : Lookup → List Query
  | .account address =>
      [.state .nonce address number, .state .balance address number, .state .code address number]
  | .slot address key => [.state (.slot key) address number]
  | .blockHash block => [.block (.number (UInt64.ofNat block)) false]

theorem queries_eq {σ : Type} (answer : σ → (query : Query) → query.Reply × σ) (state : σ)
    (lookup : Lookup) :
    ((Node.lookup number lookup).exchanges answer state).map Sigma.fst = queries number lookup := by
  cases lookup with
  | account address => rfl
  | slot address key => rfl
  | blockHash block => rfl

theorem mem_queries {field : StateField} {address : Address} {block : UInt64} {lookup : Lookup} :
    Query.state field address block ∈ queries number lookup ↔
      block = number ∧ lookup = field.lookup address := by
  cases lookup <;> cases field <;> simp [queries, StateField.lookup] <;> grind

/-- A lookup asks for each piece of state once. -/
theorem count_queries (field : StateField) (address : Address) (lookup : Lookup) :
    (queries number lookup).count (.state field address number) =
      if lookup = field.lookup address then 1 else 0 := by
  cases lookup <;> cases field <;> simp [queries, StateField.lookup, List.count_cons, and_comm]

theorem count_flatMap_queries (field : StateField) (address : Address) (asked : List Lookup) :
    (asked.flatMap (queries number)).count (.state field address number) =
      asked.count (field.lookup address) := by
  induction asked with
  | nil => rfl
  | cons lookup rest ih =>
      rw [List.flatMap_cons, List.count_append, ih, count_queries, List.count_cons, Nat.add_comm]
      simp

end Node

/-! ## Computations on a fork -/

section Fork

variable {ε α β σ : Type} {number : UInt64}
  (answer : σ → (query : Query) → query.Reply × σ) (state : σ)

/-- A computation on a fork of the state after a block. -/
def Node.onFork (number : UInt64) (overlay : Overlay) (computation : Overlaid ε α) :
    Node.Asking (Except ε α × Overlay) :=
  Node.forkAt number (computation.run.run overlay)

namespace Node

variable {overlay : Overlay}

theorem onFork_bind (x : Overlaid ε α) (f : α → Overlaid ε β) :
    onFork number overlay (x >>= f) =
      (onFork number overlay x).bind fun ending =>
        match ending.1 with
        | .ok value => onFork number ending.2 (f value)
        | .error error => .done (.error error, ending.2) := by
  have hdialogue : (x >>= f).run.run overlay =
      (x.run.run overlay).bind fun ending =>
        match ending.1 with
        | .ok value => (f value).run.run ending.2
        | .error error => .done (.error error, ending.2) := by
    refine congrArg (Dialogue.bind (x.run.run overlay)) (funext fun ending => ?_)
    rcases ending with ⟨error | value, after⟩
    · rfl
    · rfl
  rw [onFork, forkAt, hdialogue, Dialogue.interpret_bind]
  refine congrArg (Dialogue.bind _) (funext fun ending => ?_)
  rcases ending with ⟨error | value, after⟩
  · rfl
  · rfl

theorem onFork_adapt {ε' : Type} (f : ε → ε') (x : Overlaid ε α) :
    onFork number overlay (ExceptT.adapt f x) =
      (onFork number overlay x).bind fun ending => .done (ending.1.mapError f, ending.2) := by
  have hdialogue : (ExceptT.adapt f x).run.run overlay =
      (x.run.run overlay).bind fun ending => .done (ending.1.mapError f, ending.2) := rfl
  rw [onFork, forkAt, hdialogue, Dialogue.interpret_bind]
  rfl

end Node

/-- The queries of a computation on a fork are those for what the overlay lacks, one lookup
after the other. What they find is learned; a lookup that fails comes last, and ends the
computation. -/
def AsksFor (number : UInt64) (overlay : Overlay) (queries : List Query)
    (ending : Except ε α × Overlay) : Prop :=
  ∃ (asked : List Lookup) (failing : Option Lookup),
    overlay.Learns asked ending.2 ∧
      (∀ lookup ∈ failing, ending.2.Lacks lookup ∧ ending.1.toOption = none) ∧
      queries = (asked ++ failing.toList).flatMap (Node.queries number)

theorem asksFor_of_looking (number : UInt64) {overlay : Overlay}
    {dialogue : Lookups (Except ε α × Overlay)}
    (h : Looking (fun before _ after => after = before) overlay dialogue)
    (hfork : overlay.isFork = true) :
    AsksFor number overlay (((Node.forkAt number dialogue).exchanges answer state).map Sigma.fst)
      ((Node.forkAt number dialogue).runWith answer state).1 := by
  -- The node's later answers may depend on earlier queries, so its state is general.
  induction h generalizing state with
  | failed overlay error => exact ⟨[], none, .nil overlay, nofun, rfl⟩
  | done hfinal =>
      subst hfinal
      exact ⟨[], none, .nil _, nofun, rfl⟩
  | @asked overlay lookup next _ hlacks hfound hfailed ih =>
      have hasked : Node.forkAt number (.ask lookup next) =
          (Node.lookup number lookup).bind fun reply => Node.forkAt number (next reply) := rfl
      rw [hasked, Dialogue.exchanges_bind, Dialogue.runWith_bind, List.map_append, Node.queries_eq]
      rcases (Node.lookup number lookup).runWith answer state with ⟨failure | found, later⟩
      · obtain ⟨error, hnext⟩ := hfailed failure
        dsimp only
        rw [hnext]
        refine ⟨[], some lookup, .nil overlay, ?_, ?_⟩
        · rintro _ ⟨⟩
          exact ⟨hlacks, rfl⟩
        · simp [Node.forkAt, Dialogue.interpret, Dialogue.exchanges]
      · have hlearned : (overlay.learn lookup found).isFork = true := by
          rw [(Overlay.Learns.cons hlacks found (.nil _)).isFork_eq, hfork]
        obtain ⟨asked, failing, hlearns, hfailing, hqueries⟩ := ih found later hlearned
        refine ⟨lookup :: asked, failing, .cons hlacks found hlearns, hfailing, ?_⟩
        rw [hqueries, List.cons_append, List.flatMap_cons]
  | assumed hown => simp [hfork] at hown

end Fork

/-! ## Turns -/

/-- What a transaction does on a fork. -/
structure Turn where
  exchanges : List Exchange
  /-- The overlay with what the transaction has looked up. -/
  learned : Overlay
  /-- What it commits if it runs. -/
  world : Option World

namespace Turn

/-- The overlay that the transaction leaves. -/
def finish (turn : Turn) : Overlay :=
  match turn.world with
  | none => turn.learned
  | some world => turn.learned.commit world

/-- The transaction asks for a piece of state, after some block. -/
def Asks (turn : Turn) (field : StateField) (address : Address) : Prop :=
  ∃ number, .state field address number ∈ turn.exchanges.map Sigma.fst

/-- The transaction writes a piece of state. One that creates or destroys an account writes
all of its slots. -/
def Writes (turn : Turn) (field : StateField) (address : Address) : Prop :=
  ∃ world entry, turn.world = some world ∧ world.accounts[address]? = some entry ∧
    entry.touched ∧ ∀ key, field = .slot key →
      entry.created ∨ entry.destroyed ∨ entry.slots.contains key

/-- The transaction touches an account that was destroyed before, without creating it. -/
def Forgets (turn : Turn) (address : Address) : Prop :=
  turn.learned.Forgets turn.finish address

section Take

variable {σ : Type} (answer : σ → (query : Query) → query.Reply × σ) (number : UInt64)
  (config : Evm.Config) (block : BlockEnv)

/-- The turn of a transaction on an overlay, and the node after it. -/
def take (overlay : Overlay) (state : σ) (tx : Transaction) : Turn × σ :=
  let dialogue := Node.onFork number overlay (Evm.checkAndRun config block tx)
  let ending := dialogue.runWith answer state
  ({ exchanges := dialogue.exchanges answer state
     learned := ending.1.2
     world := ending.1.1.toOption.map Prod.snd }, ending.2)

/-- The turns of transactions, one after the other. One that cannot be executed is the
last one. -/
def series (overlay : Overlay) (state : σ) : List Transaction → List Turn
  | [] => []
  | tx :: rest =>
      let (turn, later) := take answer number config block overlay state tx
      match turn.world with
      | none => [turn]
      | some _ => turn :: series turn.finish later rest

end Take

/-! ## One turn -/

variable {number : UInt64} {overlay : Overlay} {turn : Turn} {field : StateField}
  {address : Address}

/-- The turn starts from this overlay, and asks for what it lacks. -/
def StartsFrom (turn : Turn) (number : UInt64) (overlay : Overlay) : Prop :=
  ∃ (asked : List Lookup) (failing : Option Lookup),
    overlay.Learns asked turn.learned ∧
      (∀ lookup ∈ failing, turn.learned.Lacks lookup ∧ turn.world = none) ∧
      turn.exchanges.map Sigma.fst = (asked ++ failing.toList).flatMap (Node.queries number)

theorem startsFrom_take {σ : Type} (answer : σ → (query : Query) → query.Reply × σ)
    (number : UInt64) (config : Evm.Config) (block : BlockEnv) (state : σ) (tx : Transaction)
    (hfork : overlay.isFork = true) :
    (take answer number config block overlay state tx).1.StartsFrom number overlay := by
  obtain ⟨asked, failing, hlearns, hfailing, hqueries⟩ := asksFor_of_looking answer state number
    (Evm.looks_checkAndRun config block tx overlay) hfork
  refine ⟨asked, failing, hlearns, ?_, hqueries⟩
  intro lookup hlookup
  obtain ⟨hlacks, hnone⟩ := hfailing lookup hlookup
  exact ⟨hlacks, by simp [take, Node.onFork, hnone]⟩

namespace StartsFrom

theorem count_le_one (h : turn.StartsFrom number overlay) (field : StateField)
    (address : Address) :
    (turn.exchanges.map Sigma.fst).count (.state field address number) ≤ 1 := by
  obtain ⟨asked, failing, hlearns, hfailing, hqueries⟩ := h
  rw [hqueries, Node.count_flatMap_queries]
  refine List.nodup_iff_count.mp ?_ _
  cases failing with
  | none => simpa using hlearns.nodup
  | some lookup => exact hlearns.nodup_concat (hfailing lookup rfl).1

theorem block_eq (h : turn.StartsFrom number overlay) {block : UInt64}
    (hmem : .state field address block ∈ turn.exchanges.map Sigma.fst) : block = number := by
  obtain ⟨asked, failing, -, -, hqueries⟩ := h
  rw [hqueries, List.mem_flatMap] at hmem
  obtain ⟨lookup, -, hmem⟩ := hmem
  exact (Node.mem_queries.mp hmem).1

theorem holds_learned (h : turn.StartsFrom number overlay) {lookup : Lookup}
    (hheld : overlay.Holds lookup) : turn.learned.Holds lookup := by
  obtain ⟨asked, failing, hlearns, -, -⟩ := h
  exact hlearns.holds hheld

/-- A piece of state is asked for as one lookup, which is among those that were answered or
is the last one. -/
theorem asks_cases (h : turn.StartsFrom number overlay) (hasks : turn.Asks field address) :
    (∃ asked, overlay.Learns asked turn.learned ∧ field.lookup address ∈ asked) ∨
      turn.world = none ∧ turn.learned.Lacks (field.lookup address) := by
  obtain ⟨asked, failing, hlearns, hfailing, hqueries⟩ := h
  obtain ⟨block, hmem⟩ := hasks
  rw [hqueries, List.mem_flatMap] at hmem
  obtain ⟨lookup, hlookup, hmem⟩ := hmem
  obtain ⟨-, rfl⟩ := Node.mem_queries.mp hmem
  rcases List.mem_append.mp hlookup with hasked | hlast
  · exact .inl ⟨asked, hlearns, hasked⟩
  · obtain ⟨hlacks, hnone⟩ := hfailing _ (by simpa using hlast)
    exact .inr ⟨hnone, hlacks⟩

/-- What is asked for was not held. -/
theorem not_holds_of_asks (h : turn.StartsFrom number overlay) (hasks : turn.Asks field address) :
    ¬ overlay.Holds (field.lookup address) := by
  rcases h.asks_cases hasks with ⟨asked, hlearns, hmem⟩ | ⟨-, hlacks⟩
  · exact hlearns.not_holds_of_mem hmem
  · exact fun hheld => hlacks.not_holds (h.holds_learned hheld)

end StartsFrom

/-- What was looked up is held when the transaction is over, unless the transaction forgets
the account. -/
theorem holds_finish (h : turn.learned.Holds (field.lookup address)) :
    turn.finish.Holds (field.lookup address) ∨
      (∃ key, field = .slot key) ∧ turn.Forgets address := by
  unfold Forgets finish
  cases turn.world with
  | none => exact .inl h
  | some world =>
      cases field with
      | nonce => exact .inl (Overlay.holds_account_commit h)
      | balance => exact .inl (Overlay.holds_account_commit h)
      | code => exact .inl (Overlay.holds_account_commit h)
      | slot key =>
          exact (Overlay.holds_slot_commit h).imp_right fun hforgets => ⟨⟨key, rfl⟩, hforgets⟩

/-- What a transaction that runs has asked for is held when it is over. -/
theorem StartsFrom.holds_finish_of_asks (h : turn.StartsFrom number overlay)
    (hruns : turn.world ≠ none) (hasks : turn.Asks field address) :
    turn.finish.Holds (field.lookup address) := by
  rcases h.asks_cases hasks with ⟨asked, hlearns, hmem⟩ | ⟨hnone, -⟩
  · rcases holds_finish (hlearns.holds_of_mem hmem) with hheld | ⟨⟨key, rfl⟩, habsent, -⟩
    · exact hheld
    · -- A slot is asked for only where the account is known to exist.
      obtain ⟨held, hheld, hstanding⟩ := hlearns.isPresent_of_mem hmem
      simp [Overlay.isAbsent, hheld, hstanding] at habsent
  · exact absurd hnone hruns

/-- What a transaction has written is held when it is over. -/
theorem holds_finish_of_writes (h : turn.Writes field address) :
    turn.finish.Holds (field.lookup address) := by
  obtain ⟨world, entry, hworld, hentry, htouched, hslot⟩ := h
  have hcommitted := turn.learned.getElem?_commit world address
  rw [hentry] at hcommitted
  dsimp only at hcommitted
  rw [if_pos htouched] at hcommitted
  rw [finish, hworld]
  cases field with
  | nonce => exact Overlay.holds_account_iff.mpr ⟨_, hcommitted⟩
  | balance => exact Overlay.holds_account_iff.mpr ⟨_, hcommitted⟩
  | code => exact Overlay.holds_account_iff.mpr ⟨_, hcommitted⟩
  | slot key =>
      refine Overlay.holds_slot_iff.mpr ⟨_, hcommitted, fun hpresent => ?_⟩
      cases hdestroyed : entry.destroyed with
      | true => simp [AccessedAccount.written_of_destroyed hdestroyed] at hpresent
      | false =>
          rw [AccessedAccount.getElem?_storage_written hdestroyed]
          rw [AccessedAccount.standing_written hdestroyed] at hpresent
          rcases hslot key rfl with hcreated | hgone | hcontains
          · simp [hcreated] at hpresent
          · simp [hdestroyed] at hgone
          · cases hvalue : entry.slots[key]? with
            | some slot => rfl
            | none => simp [Std.ExtTreeMap.contains_eq_isSome_getElem?, hvalue] at hcontains

/-! ## One turn after the other -/

section Series

variable {σ : Type} {answer : σ → (query : Query) → query.Reply × σ} {config : Evm.Config}
  {block : BlockEnv} {state : σ} {txs : List Transaction} {earlier later : List Turn}

theorem isFork_finish (h : turn.StartsFrom number overlay) (hfork : overlay.isFork = true) :
    turn.finish.isFork = true := by
  obtain ⟨asked, failing, hlearns, -, -⟩ := h
  unfold finish
  cases turn.world with
  | none => rw [hlearns.isFork_eq, hfork]
  | some world => rw [turn.learned.isFork_commit world, hlearns.isFork_eq, hfork]

/-- The first turn starts from the overlay as it is. If others follow, it runs, and they
go on from the overlay that it leaves. -/
theorem series_eq_cons (h : series answer number config block overlay state txs = turn :: later)
    (hfork : overlay.isFork = true) :
    turn.StartsFrom number overlay ∧
      (later ≠ [] → turn.world ≠ none ∧ ∃ state' rest,
        later = series answer number config block turn.finish state' rest) := by
  cases txs with
  | nil => cases h
  | cons tx rest =>
      have hstarts := startsFrom_take answer number config block state tx hfork
      rw [series] at h
      dsimp only at h
      split at h
      next hnone =>
        cases h
        exact ⟨hstarts, fun hne => absurd rfl hne⟩
      next world hworld =>
        cases h
        exact ⟨hstarts, fun _ => ⟨by simp [hworld], _, rest, rfl⟩⟩

/-- Each turn starts from some overlay of the fork. -/
theorem exists_startsFrom_of_mem
    (hfork : overlay.isFork = true)
    (hmem : turn ∈ series answer number config block overlay state txs) :
    ∃ before, turn.StartsFrom number before := by
  generalize hall : series answer number config block overlay state txs = turns at hmem
  induction turns generalizing overlay state txs with
  | nil => cases hmem
  | cons first rest ih =>
      obtain ⟨hstarts, hrest⟩ := series_eq_cons hall hfork
      rcases List.mem_cons.mp hmem with rfl | hlater
      · exact ⟨overlay, hstarts⟩
      · obtain ⟨-, middle, txs', hlast⟩ := hrest (List.ne_nil_of_mem hlater)
        exact ih (isFork_finish hstarts hfork) hlast.symm hlater

/-- What is held at the start is asked for only once it was forgotten. -/
theorem forgotten_of_asks (hfork : overlay.isFork = true)
    (hall : series answer number config block overlay state txs = earlier ++ turn :: later)
    (hheld : overlay.Holds (field.lookup address)) (hasks : turn.Asks field address) :
    (∃ key, field = .slot key) ∧ ∃ forgetful ∈ earlier, forgetful.Forgets address := by
  induction earlier generalizing overlay state txs with
  | nil => exact absurd hheld ((series_eq_cons hall hfork).1.not_holds_of_asks hasks)
  | cons first rest ih =>
      obtain ⟨hstarts, hrest⟩ := series_eq_cons hall hfork
      obtain ⟨-, middle, txs', hlast⟩ := hrest (by simp)
      rcases holds_finish (hstarts.holds_learned hheld) with hheld' | ⟨hslot, hforgets⟩
      · obtain ⟨hslot, forgetful, hmem, hforgets⟩ :=
          ih (isFork_finish hstarts hfork) hlast.symm hheld'
        exact ⟨hslot, forgetful, List.mem_cons_of_mem _ hmem, hforgets⟩
      · exact ⟨hslot, first, List.mem_cons_self, hforgets⟩

/-- What a transaction has asked for or written is asked for later only once it was
forgotten in between. -/
theorem forgotten_between {middle : List Turn} {last : Turn} (hfork : overlay.isFork = true)
    (hall : series answer number config block overlay state txs =
      earlier ++ turn :: (middle ++ last :: later))
    (hknown : turn.Asks field address ∨ turn.Writes field address)
    (hasks : last.Asks field address) :
    (∃ key, field = .slot key) ∧ ∃ forgetful ∈ middle, forgetful.Forgets address := by
  induction earlier generalizing overlay state txs with
  | nil =>
      obtain ⟨hstarts, hrest⟩ := series_eq_cons hall hfork
      obtain ⟨hruns, middle', txs', hlast⟩ := hrest (by simp)
      refine forgotten_of_asks (isFork_finish hstarts hfork) hlast.symm ?_ hasks
      rcases hknown with hasked | hwritten
      · exact hstarts.holds_finish_of_asks hruns hasked
      · exact holds_finish_of_writes hwritten
  | cons first rest ih =>
      obtain ⟨hstarts, hrest⟩ := series_eq_cons hall hfork
      obtain ⟨-, middle', txs', hlast⟩ := hrest (by simp)
      exact ih (isFork_finish hstarts hfork) hlast.symm

/-- A query that each turn makes at most once, and never after another turn has made it, is
made at most once. -/
theorem count_flatMap_le_one {query : Query} {turns : List Turn}
    (heach : ∀ turn ∈ turns, (turn.exchanges.map Sigma.fst).count query ≤ 1)
    (hagain : ∀ earlier turn middle last later,
      turns = earlier ++ turn :: (middle ++ last :: later) →
      query ∈ turn.exchanges.map Sigma.fst → query ∉ last.exchanges.map Sigma.fst) :
    ((turns.flatMap Turn.exchanges).map Sigma.fst).count query ≤ 1 := by
  induction turns with
  | nil => simp
  | cons first rest ih =>
      rw [List.flatMap_cons, List.map_append, List.count_append]
      have hrest := ih (fun turn hturn => heach turn (List.mem_cons_of_mem _ hturn))
        (fun earlier turn middle last later hsplit =>
          hagain (first :: earlier) turn middle last later (by rw [hsplit, List.cons_append]))
      by_cases hfirst : query ∈ first.exchanges.map Sigma.fst
      · have hnone : query ∉ (rest.flatMap Turn.exchanges).map Sigma.fst := by
          rw [List.map_flatMap, List.mem_flatMap]
          rintro ⟨last, hlast, hquery⟩
          obtain ⟨middle, later, rfl⟩ := List.append_of_mem hlast
          exact hagain [] first middle last later rfl hfirst hquery
        rw [List.count_eq_zero_of_not_mem hnone]
        exact heach first List.mem_cons_self
      · rw [List.count_eq_zero_of_not_mem hfirst, Nat.zero_add]
        exact hrest

end Series

end Turn

/-! ## Replays and calls -/

namespace Executor

variable {σ : Type} (answer : σ → (query : Query) → query.Reply × σ) (number : UInt64)

/-- The transactions that a replay executes: those before the target, and the target. -/
def replayed (executor : Executor) (txs : List BlockTransaction) (target : BlockTransaction) :
    List Transaction :=
  (executor.members (before target.hash txs)).map Member.tx ++
    match target.payload with
    | .system _ => []
    | .executable tx => [tx]

/-- What goes on after a transaction on a fork goes on after its turn, if it runs. -/
theorem exchanges_commit_bind (config : Evm.Config) (block : BlockEnv) (tx : Transaction)
    (blame : String → ReplayError) (overlay : Overlay) (state : σ) {α : Type}
    (next : Evm.ExecutionResult → Replaying α) (exchanges : Overlay → σ → List Exchange)
    (hnext : ∀ result after later,
      (Node.onFork number after (next result)).exchanges answer later = exchanges after later) :
    let turn := Turn.take answer number config block overlay state tx
    (Node.onFork number overlay (commit config block tx blame >>= next)).exchanges answer state =
      turn.1.exchanges ++
        match turn.1.world with
        | none => []
        | some _ => exchanges turn.1.finish turn.2 := by
  dsimp only
  rw [Node.onFork_bind, commit, Node.onFork_adapt, Evm.transact, Node.onFork_bind,
    Dialogue.bind_assoc, Dialogue.bind_assoc, Dialogue.exchanges_bind, Turn.take]
  refine congrArg (_ ++ ·) ?_
  rcases (Node.onFork number overlay (Evm.checkAndRun config block tx)).runWith answer state with
    ⟨⟨failure | ⟨result, world⟩, after⟩, later⟩
  · rfl
  · exact hnext result (after.commit world) later

/-- The turns of transactions under the rules of an executor. -/
def turns (executor : Executor) (overlay : Overlay) (state : σ) (txs : List Transaction) :
    List Turn :=
  Turn.series answer number executor.config executor.block overlay state txs

theorem exchanges_turns_cons (executor : Executor) (overlay : Overlay) (state : σ)
    (tx : Transaction) (rest : List Transaction) :
    (executor.turns answer number overlay state (tx :: rest)).flatMap Turn.exchanges =
      let turn := Turn.take answer number executor.config executor.block overlay state tx
      turn.1.exchanges ++
        match turn.1.world with
        | none => []
        | some _ => (executor.turns answer number turn.1.finish turn.2 rest).flatMap
            Turn.exchanges := by
  rw [turns, Turn.series]
  dsimp only
  split
  next hnone => simp
  next => rfl

/-- What comes after the start of a block goes on from the turns of its members. -/
theorem exchanges_applyPreceding_bind (executor : Executor) {α : Type} (next : Replaying α)
    (last : List Transaction)
    (hnext : ∀ overlay state, (Node.onFork number overlay next).exchanges answer state =
      (executor.turns answer number overlay state last).flatMap Turn.exchanges)
    (txs : List BlockTransaction) (overlay : Overlay) (state : σ) :
    (Node.onFork number overlay (executor.applyPreceding txs >>= fun _ => next)).exchanges answer
        state =
      (executor.turns answer number overlay state
        ((executor.members txs).map Member.tx ++ last)).flatMap Turn.exchanges := by
  induction txs generalizing overlay state with
  | nil => exact hnext overlay state
  | cons tx rest ih =>
      cases hmember : executor.member? tx with
      | none =>
          rw [applyPreceding_cons_of_none hmember, members_cons_of_none hmember]
          exact ih overlay state
      | some member =>
          rw [applyPreceding_cons_of_some hmember, members_cons_of_some hmember, List.map_cons,
            List.cons_append, exchanges_turns_cons, bind_assoc]
          refine exchanges_commit_bind answer number _ _ _ _ overlay state _
            (fun overlay state => (executor.turns answer number overlay state
              ((executor.members rest).map Member.tx ++ last)).flatMap Turn.exchanges) ?_
          intro result after later
          rw [bind_assoc]
          exact ih after later

theorem exchanges_executeTarget (executor : Executor) (target : BlockTransaction)
    (overlay : Overlay) (state : σ) :
    (Node.onFork number overlay (executor.executeTarget target)).exchanges answer state =
      (executor.turns answer number overlay state
        (match target.payload with
        | .system _ => []
        | .executable tx => [tx])).flatMap Turn.exchanges := by
  rw [executeTarget]
  cases target.payload with
  | system kind => rfl
  | executable tx =>
      dsimp only
      rw [exchanges_turns_cons, ← bind_pure_comp]
      exact exchanges_commit_bind answer number _ _ _ _ overlay state _ (fun _ _ => [])
        fun _ _ _ => rfl

/-- A replay asks on a fork what the turns of its transactions ask. -/
theorem exchanges_replayInBlock (executor : Executor) (txs : List BlockTransaction)
    (target : BlockTransaction) (overlay : Overlay) (state : σ) :
    (Node.onFork number overlay (executor.replayInBlock txs target)).exchanges answer state =
      (executor.turns answer number overlay state
        (executor.replayed txs target)).flatMap Turn.exchanges :=
  exchanges_applyPreceding_bind answer number executor _ _
    (executor.exchanges_executeTarget answer number target) _ overlay state

/-- A call on a fork is one turn. -/
theorem exchanges_call (executor : Executor) (request : CallRequest) (overlay : Overlay)
    (state : σ) : ∃ config block,
    (Node.onFork number overlay (executor.call request)).exchanges answer state =
      (Turn.take answer number config block overlay state
        (executor.callTransaction request)).1.exchanges := by
  refine ⟨{ executor.config with checksNonce := false }, { executor.block with baseFee := 0 }, ?_⟩
  rw [call, ← bind_pure_comp]
  refine (exchanges_commit_bind answer number _ _ _ _ overlay state _ (fun _ _ => [])
    fun _ _ _ => rfl).trans ?_
  dsimp only
  split
  next => exact List.append_nil _
  next => exact List.append_nil _

end Executor

namespace Sample

/-- A node on which one account has code that reads its first slot and destroys it. -/
def perishing (_ : Unit) (query : Query) : query.Reply × Unit :=
  (match query with
    | .chainId => .ok (1 : UInt64)
    | .transaction _ | .block _ _ => .ok none
    | .state .nonce _ _ => .ok (0 : UInt64)
    | .state .balance _ _ => .ok (0 : Word)
    | .state (.slot _) _ _ => .ok (7 : Word)
    | .state .code address _ =>
        .ok (Bytes.ofList (if address = 0x777 then [0x60, 0x00, 0x54, 0x33, 0xff] else [])), ())

/-- A free transaction to that account. -/
def visit (hash : Hash) (nonce : UInt64) (kind : UInt8) (accessList : List AccessEntry) :
    BlockTransaction where
  hash := hash
  sender := 0x888
  payload := .executable
    { transaction 0x888 nonce (some 0x777) (Bytes.ofList []) 0 with kind, accessList }

end Sample

namespace Simulator

open Simulating

variable {σ : Type} (answer : σ → (query : Query) → query.Reply × σ) (state : σ)

/-- The turns that executing a plan takes. -/
def turns (simulator : Simulator) (plan : Plan) : List Turn :=
  if simulator.canFork then
    let executor := simulator.executor plan.fork plan.block simulator.skipSenders
    executor.turns answer plan.forkBlock .fork state (executor.replayed plan.preceding plan.target)
  else []

theorem talk_onFork {α : Type} (number : UInt64) (computation : Replaying α) :
    (talk answer state (onFork number computation)).1 =
      (Node.onFork number .fork computation).exchanges answer state := by
  change ((Node.onFork number .fork computation).bind fun ending => .done ending.1).exchanges
    answer state = _
  rw [Dialogue.exchanges_bind]
  exact List.append_nil _

theorem exchanges_execute (simulator : Simulator) (plan : Plan) :
    (talk answer state (simulator.execute plan)).1 =
      (simulator.turns answer state plan).flatMap Turn.exchanges := by
  rw [execute, turns]
  split
  next =>
    rw [talk_onFork]
    exact Executor.exchanges_replayInBlock ..
  next => rfl

theorem exists_startsFrom (simulator : Simulator) (plan : Plan) {turn : Turn}
    (hturn : turn ∈ simulator.turns answer state plan) :
    ∃ before, turn.StartsFrom plan.forkBlock before := by
  rw [turns] at hturn
  split at hturn
  next => exact Turn.exists_startsFrom_of_mem rfl hturn
  next => cases hturn

theorem forgotten_between (simulator : Simulator) (plan : Plan) (earlier : List Turn)
    (turn : Turn) (middle : List Turn) (last : Turn) (later : List Turn) (field : StateField)
    (address : Address)
    (hsplit : simulator.turns answer state plan = earlier ++ turn :: (middle ++ last :: later))
    (hknown : turn.Asks field address ∨ turn.Writes field address)
    (hasks : last.Asks field address) :
    (∃ key, field = .slot key) ∧ ∃ forgetful ∈ middle, forgetful.Forgets address := by
  rw [turns] at hsplit
  split at hsplit
  next => exact Turn.forgotten_between rfl hsplit hknown hasks
  next => simp at hsplit

/-- A call asks for the block, and then what one turn on a fork of its state asks. -/
theorem exchanges_call (simulator : Simulator) (request : CallRequest) (block : Option UInt64) :
    ∃ reply rest, (talk answer state (simulator.call request block)).1 =
        ⟨.block ((block.map Node.BlockTag.number).getD .latest) false, reply⟩ :: rest ∧
      (rest = [] ∨ ∃ report turn, reply = .ok (some report) ∧
        Turn.StartsFrom turn report.header.number .fork ∧ rest = turn.exchanges) := by
  have hcall : simulator.call request block = (do
      let report ← known (.blockNotFound (block.getD 0))
        (← ask (.block ((block.map Node.BlockTag.number).getD .latest) false))
      let context := BlockContext.ofHeader report.header
      if simulator.canFork then
        onFork context.number
          ((simulator.executor (simulator.forkFor context) context []).call request)
      else throw .forkUnavailable) := by
    cases block with
    | none => rfl
    | some number => rfl
  rw [hcall, talk_ask_bind]
  generalize (block.map Node.BlockTag.number).getD .latest = tag
  match answer state (.block tag false) with
  | (.error failure, _) => exact ⟨_, [], rfl, .inl rfl⟩
  | (.ok none, _) => exact ⟨_, [], rfl, .inl rfl⟩
  | (.ok (some report), later) =>
      dsimp only
      rw [known_some_bind]
      refine ⟨_, _, rfl, ?_⟩
      by_cases hfork : simulator.canFork
      · rw [if_pos hfork, talk_onFork]
        obtain ⟨config, env, hturn⟩ := Executor.exchanges_call answer report.header.number
          (simulator.executor (simulator.forkFor (.ofHeader report.header))
            (.ofHeader report.header) []) request .fork later
        exact .inr ⟨report, _, rfl, Turn.startsFrom_take answer _ config env later _ rfl, hturn⟩
      · rw [if_neg hfork]
        exact .inl rfl

/-- Whatever a node answers, executing a plan asks for state after the plan's own block
only, and a call for state after the block whose header it was given. No turn asks for a
piece of state twice, nor for what an earlier turn has asked for or written, but for the
slots of an account that was forgotten in between. -/
theorem asks_once (simulator : Simulator) :
    (∀ plan,
      let turns := simulator.turns answer state plan
      let exchanges := (talk answer state (simulator.execute plan)).1
      exchanges = turns.flatMap Turn.exchanges ∧
      (∀ field address number, .state field address number ∈ exchanges.map Sigma.fst →
        number = plan.forkBlock) ∧
      (∀ turn ∈ turns, ∀ field address,
        (turn.exchanges.map Sigma.fst).count (.state field address plan.forkBlock) ≤ 1) ∧
      (∀ field address,
        (∀ key, field = .slot key → ∀ turn ∈ turns, ¬ turn.Forgets address) →
        (exchanges.map Sigma.fst).count (.state field address plan.forkBlock) ≤ 1) ∧
      ∀ earlier turn middle last later field address,
        turns = earlier ++ turn :: (middle ++ last :: later) →
        turn.Asks field address ∨ turn.Writes field address → last.Asks field address →
        (∃ key, field = .slot key) ∧ ∃ forgetful ∈ middle, forgetful.Forgets address) ∧
    ∀ request block, ∃ reply rest,
      (talk answer state (simulator.call request block)).1 =
        ⟨.block ((block.map Node.BlockTag.number).getD .latest) false, reply⟩ :: rest ∧
      (∀ field address number, .state field address number ∈ rest.map Sigma.fst →
        ∃ report, reply = .ok (some report) ∧ number = report.header.number) ∧
      ∀ field address number, (rest.map Sigma.fst).count (.state field address number) ≤ 1 := by
  refine ⟨?_, ?_⟩
  · intro plan turns exchanges
    have hexchanges : exchanges = turns.flatMap Turn.exchanges :=
      simulator.exchanges_execute answer state plan
    have hstarts : ∀ turn ∈ turns, ∃ before, turn.StartsFrom plan.forkBlock before :=
      fun turn => simulator.exists_startsFrom answer state plan
    have hbetween := simulator.forgotten_between answer state plan
    have honce : ∀ turn ∈ turns, ∀ field address,
        (turn.exchanges.map Sigma.fst).count (.state field address plan.forkBlock) ≤ 1 := by
      intro turn hturn field address
      obtain ⟨before, hturn⟩ := hstarts turn hturn
      exact hturn.count_le_one field address
    refine ⟨hexchanges, ?_, honce, ?_, hbetween⟩
    · intro field address number hmem
      rw [hexchanges, List.map_flatMap, List.mem_flatMap] at hmem
      obtain ⟨turn, hturn, hmem⟩ := hmem
      obtain ⟨before, hturn⟩ := hstarts turn hturn
      exact hturn.block_eq hmem
    · intro field address hremembers
      rw [hexchanges]
      refine Turn.count_flatMap_le_one (fun turn hturn => honce turn hturn field address) ?_
      intro earlier turn middle last later hsplit hasked hagain
      obtain ⟨⟨key, hkey⟩, forgetful, hmem, hforgets⟩ :=
        hbetween earlier turn middle last later field address hsplit (.inl ⟨_, hasked⟩) ⟨_, hagain⟩
      refine hremembers key hkey forgetful ?_ hforgets
      rw [hsplit]
      simp [hmem]
  · intro request block
    obtain ⟨reply, rest, htalk, hrest⟩ := simulator.exchanges_call answer state request block
    refine ⟨reply, rest, htalk, ?_, ?_⟩
    · intro field address number hmem
      rcases hrest with rfl | ⟨report, turn, hreply, hstarts, rfl⟩
      · cases hmem
      · exact ⟨report, hreply, hstarts.block_eq hmem⟩
    · intro field address number
      rcases hrest with rfl | ⟨report, turn, hreply, hstarts, rfl⟩
      · exact Nat.zero_le 1
      · by_cases hnumber : number = report.header.number
        · rw [hnumber]
          exact hstarts.count_le_one field address
        · rw [List.count_eq_zero_of_not_mem fun hmem => hnumber (hstarts.block_eq hmem)]
          exact Nat.zero_le 1

/-- The account reads its slot and is destroyed, is touched by a transfer, and then has its
slot accessed, which was found and destroyed before. -/
theorem asks_again_of_destroyed :
    let simulator : Simulator := { settings := { url := "ws://localhost" }, chainId := 1 }
    let plan : Plan :=
      { target := Sample.visit 3 2 1 [{ address := 0x777, keys := [0] }]
        preceding := [Sample.visit 1 0 0 [], Sample.visit 2 1 0 []]
        forkBlock := 4
        fork := .shanghai
        block := { gasLimit := 30000000 } }
    ((talk Sample.perishing () (simulator.execute plan)).1.map Sigma.fst).count
      (.state (.slot 0) 0x777 4) = 2 := by
  decide +kernel

end Simulator

end ForkReplay
