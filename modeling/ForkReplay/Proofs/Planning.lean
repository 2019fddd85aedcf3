import ForkReplay.Proofs.BlockOrder
import ForkReplay.Replay.Simulator

/-!
# Planning a replay

A plan comes of a conversation with a node, which may answer anything at any time. The
first answer that stands in the way ends the conversation and decides the error. If
there is none, the plan is made of the answers alone.
-/

namespace ForkReplay

namespace Node

/-- A query and the reply to it. -/
abbrev Exchange := (query : Query) × query.Reply

/-- The exchange in which a node reports a transaction. -/
def Exchange.transaction (hash : Hash) (report : TransactionReport) : Exchange :=
  ⟨.transaction hash, .ok (some report)⟩

/-- The exchanges in which a node reports transactions, each by the hash it is asked for. -/
def Exchange.transactions (fetched : List (Hash × TransactionReport)) : List Exchange :=
  fetched.map fun entry => .transaction entry.1 entry.2

/-- The exchange in which a node reports a block with its transactions. -/
def Exchange.block (number : UInt64) (block : BlockReport) : Exchange :=
  ⟨.block (.number number) true, .ok (some block)⟩

end Node

open Node (Exchange)

/-! ## Conversations -/

namespace Simulating

variable {α β σ : Type}

/-- The exchanges of a computation with a node that answers as `answer` tells, and what
it comes to. -/
def talk (answer : σ → (query : Node.Query) → query.Reply × σ) (state : σ)
    (computation : Simulating α) : List Exchange × Except ReplayError α :=
  (computation.run.exchanges answer state, (computation.run.runWith answer state).1)

variable (answer : σ → (query : Node.Query) → query.Reply × σ) (state : σ)

theorem talk_pure (value : α) : talk answer state (pure value) = ([], .ok value) := rfl

theorem talk_throw (error : ReplayError) :
    talk answer state (throw error : Simulating α) = ([], .error error) := rfl

theorem talk_map (f : α → β) (computation : Simulating α) :
    talk answer state (f <$> computation) =
      ((talk answer state computation).1, (talk answer state computation).2.map f) := by
  have hrun : (f <$> computation).run =
      Dialogue.bind computation.run fun ending => .done (ending.map f) := by
    rw [ExceptT.run_map]
    rfl
  simp only [talk, hrun, Dialogue.exchanges_bind, Dialogue.runWith_bind, Dialogue.exchanges,
    Dialogue.runWith, List.append_nil]

theorem talk_ask_bind (query : Node.Query) (next : query.Answer → Simulating α) :
    talk answer state (ask query >>= next) =
      match answer state query with
      | (.ok found, state) =>
          (⟨query, .ok found⟩ :: (talk answer state (next found)).1,
            (talk answer state (next found)).2)
      | (.error failure, _) => ([⟨query, .error failure⟩], .error (.node failure)) := by
  have hrun : (ask query >>= next).run = .ask query fun
      | .ok found => (next found).run
      | .error failure => .done (.error (.node failure)) := by
    refine congrArg (Dialogue.ask query) (funext fun reply => ?_)
    cases reply with
    | ok found => rfl
    | error failure => rfl
  rw [talk, hrun, Dialogue.exchanges, Dialogue.runWith]
  rcases answer state query with ⟨failure | found, later⟩
  · rfl
  · rfl

theorem known_some_bind (error : ReplayError) (value : α) (next : α → Simulating β) :
    known error (some value) >>= next = next value := rfl

theorem known_none_bind (error : ReplayError) (next : α → Simulating β) :
    known error none >>= next = throw error := rfl

end Simulating

namespace Simulator

open Simulating

/-- What a node reports before the target in a block, by the exchanges that it takes to
get there. Transactions that a block lists by their hashes are asked for one by one. -/
inductive Earlier (target : Hash) :
    Node.Listing → List Exchange → List BlockTransaction → Prop where
  | full {reports earlier : List Node.TransactionReport}
      (hbefore : BeforeFirst Node.TransactionReport.hash target reports earlier) :
      Earlier target (.full reports) [] (earlier.map Node.TransactionReport.transaction)
  | hashes {hashes : List Hash} {fetched : List (Hash × Node.TransactionReport)}
      (hbefore : BeforeFirst id target hashes (fetched.map Prod.fst)) :
      Earlier target (.hashes hashes) (Exchange.transactions fetched)
        (fetched.map fun entry => entry.2.transaction)

/-- What keeps a node's answers from a plan, by the exchanges up to there. Nothing is
asked after it. -/
inductive Obstacle (target : Hash) : List Exchange → ReplayError → Prop where
  | transactionFailed (failure : Node.Failure) :
      Obstacle target [⟨.transaction target, .error failure⟩] (.node failure)
  | transactionNotFound :
      Obstacle target [⟨.transaction target, .ok none⟩] (.transactionNotFound target)
  | transactionPending {report : Node.TransactionReport} (hpending : report.blockNumber = none) :
      Obstacle target [.transaction target report] (.transactionPending target)
  | genesisTransaction {report : Node.TransactionReport} (hgenesis : report.blockNumber = some 0) :
      Obstacle target [.transaction target report] (.genesisTransaction target)
  | blockFailed {report : Node.TransactionReport} {number : UInt64}
      (hmined : report.blockNumber = some number) (hnumber : number ≠ 0) (failure : Node.Failure) :
      Obstacle target
        [.transaction target report, ⟨.block (.number number) true, .error failure⟩]
        (.node failure)
  | blockNotFound {report : Node.TransactionReport} {number : UInt64}
      (hmined : report.blockNumber = some number) (hnumber : number ≠ 0) :
      Obstacle target [.transaction target report, ⟨.block (.number number) true, .ok none⟩]
        (.blockNotFound number)
  | earlierFailed {report : Node.TransactionReport} {number : UInt64} {block : Node.BlockReport}
      {hashes rest : List Hash} {fetched : List (Hash × Node.TransactionReport)} {missing : Hash}
      (hmined : report.blockNumber = some number) (hnumber : number ≠ 0)
      (hlisting : block.listing = .hashes hashes)
      (hbefore : BeforeFirst id target hashes (fetched.map Prod.fst ++ missing :: rest))
      (failure : Node.Failure) :
      Obstacle target
        (.transaction target report :: .block number block ::
          (Exchange.transactions fetched ++ [⟨.transaction missing, .error failure⟩]))
        (.node failure)
  | earlierNotFound {report : Node.TransactionReport} {number : UInt64} {block : Node.BlockReport}
      {hashes rest : List Hash} {fetched : List (Hash × Node.TransactionReport)} {missing : Hash}
      (hmined : report.blockNumber = some number) (hnumber : number ≠ 0)
      (hlisting : block.listing = .hashes hashes)
      (hbefore : BeforeFirst id target hashes (fetched.map Prod.fst ++ missing :: rest)) :
      Obstacle target
        (.transaction target report :: .block number block ::
          (Exchange.transactions fetched ++ [⟨.transaction missing, .ok none⟩]))
        (.transactionNotFound missing)

/-- What fetching transactions one by one comes to, by the exchanges that it takes: all of
them, or the error of the first one that the node does not report. -/
inductive Fetched :
    List Hash → List Exchange → Except ReplayError (List BlockTransaction) → Prop where
  | all (fetched : List (Hash × Node.TransactionReport)) :
      Fetched (fetched.map Prod.fst) (Exchange.transactions fetched)
        (.ok (fetched.map fun entry => entry.2.transaction))
  | failed (fetched : List (Hash × Node.TransactionReport)) (missing : Hash) (rest : List Hash)
      (failure : Node.Failure) :
      Fetched (fetched.map Prod.fst ++ missing :: rest)
        (Exchange.transactions fetched ++ [⟨.transaction missing, .error failure⟩])
        (.error (.node failure))
  | notFound (fetched : List (Hash × Node.TransactionReport)) (missing : Hash)
      (rest : List Hash) :
      Fetched (fetched.map Prod.fst ++ missing :: rest)
        (Exchange.transactions fetched ++ [⟨.transaction missing, .ok none⟩])
        (.error (.transactionNotFound missing))

theorem Fetched.cons {hashes : List Hash} {exchanges : List Exchange}
    {result : Except ReplayError (List BlockTransaction)} (hash : Hash)
    (report : Node.TransactionReport) (h : Fetched hashes exchanges result) :
    Fetched (hash :: hashes) (.transaction hash report :: exchanges)
      (result.map (report.transaction :: ·)) := by
  cases h with
  | all fetched => exact .all ((hash, report) :: fetched)
  | failed fetched missing rest failure =>
      exact .failed ((hash, report) :: fetched) missing rest failure
  | notFound fetched missing rest => exact .notFound ((hash, report) :: fetched) missing rest

variable {σ : Type} (answer : σ → (query : Node.Query) → query.Reply × σ) (state : σ)

/-- Fetching transactions one by one gets them all, or stops at the first one that the
node does not report. -/
theorem talk_fetchTransactions (hashes : List Hash) :
    Fetched hashes (talk answer state (fetchTransactions hashes)).1
      (talk answer state (fetchTransactions hashes)).2 := by
  -- Later answers may depend on earlier questions, so the node's state is general.
  induction hashes generalizing state with
  | nil =>
      rw [fetchTransactions, talk_pure]
      exact .all []
  | cons hash rest ih =>
      rw [fetchTransactions, talk_ask_bind]
      match answer state (.transaction hash) with
      | (.error failure, later) => exact .failed [] hash rest failure
      | (.ok none, later) =>
          dsimp only
          rw [known_none_bind, talk_throw]
          exact .notFound [] hash rest
      | (.ok (some report), later) =>
          dsimp only
          rw [known_some_bind, bind_pure_comp, talk_map]
          exact (ih later).cons hash report

theorem talk_planIn (simulator : Simulator) (target : Hash) (report : Node.TransactionReport)
    (number : UInt64) :
    talk answer state (simulator.planIn target report number) =
      match answer state (.block (.number number) true) with
      | (.error failure, _) =>
          ([⟨.block (.number number) true, .error failure⟩], .error (.node failure))
      | (.ok none, _) =>
          ([⟨.block (.number number) true, .ok none⟩], .error (.blockNotFound number))
      | (.ok (some block), later) =>
          (.block number block :: (talk answer later (preceding target block.listing)).1,
            (talk answer later (preceding target block.listing)).2.map fun preceding =>
              { target := report.transaction
                preceding
                forkBlock := number - 1
                fork := simulator.forkFor (.ofHeader block.header)
                block := .ofHeader block.header }) := by
  rw [planIn, talk_ask_bind]
  match answer state (.block (.number number) true) with
  | (.error failure, _) => rfl
  | (.ok none, _) =>
      dsimp only
      rw [known_none_bind, talk_throw]
  | (.ok (some block), later) =>
      dsimp only
      rw [known_some_bind, bind_pure_comp, talk_map]
      rfl

/-- The transactions before the target are found, or fetching them stops. -/
theorem talk_preceding (target : Hash) (listing : Node.Listing) :
    (∃ exchanges earlier, talk answer state (preceding target listing) = (exchanges, .ok earlier) ∧
        Earlier target listing exchanges earlier) ∨
      ∃ hashes earlier exchanges error, listing = .hashes hashes ∧
        BeforeFirst id target hashes earlier ∧
        talk answer state (preceding target listing) = (exchanges, .error error) ∧
        Fetched earlier exchanges (.error error) := by
  cases listing with
  | full reports =>
      exact .inl ⟨[], _, rfl, .full (beforeFirst_takeWhile _ target reports)⟩
  | hashes hashes =>
      rw [preceding]
      have hbefore : BeforeFirst id target hashes (hashes.takeWhile fun hash => hash ≠ target) :=
        beforeFirst_takeWhile id target hashes
      generalize (hashes.takeWhile fun hash => hash ≠ target) = earlier at hbefore
      have hfetched := talk_fetchTransactions answer state earlier
      generalize talk answer state (fetchTransactions earlier) = talked at hfetched
      rcases talked with ⟨exchanges, error | txs⟩
      · exact .inr ⟨hashes, earlier, exchanges, error, rfl, hbefore, rfl, hfetched⟩
      · cases hfetched with
        | all fetched => exact .inl ⟨_, _, rfl, .hashes hbefore⟩

theorem Earlier.caller_eq_sender {target : Hash} {listing : Node.Listing}
    {exchanges : List Exchange} {earlier : List BlockTransaction}
    (h : Earlier target listing exchanges earlier) {tx : BlockTransaction} (htx : tx ∈ earlier)
    {inner : Transaction} (hpayload : tx.payload = .executable inner) :
    inner.caller = tx.sender := by
  cases h with
  | full hbefore =>
      obtain ⟨report, -, rfl⟩ := List.mem_map.mp htx
      exact Node.Envelope.caller_of_payload hpayload
  | hashes hbefore =>
      obtain ⟨entry, -, rfl⟩ := List.mem_map.mp htx
      exact Node.Envelope.caller_of_payload hpayload

/-- The parent of a block after the first has the number before. -/
theorem toNat_sub_one_add_one {number : UInt64} (h : number ≠ 0) :
    (number - 1).toNat + 1 = number.toNat := by
  have hpositive : number.toNat ≠ 0 := fun hzero => h (UInt64.toNat_inj.mp hzero)
  have hone : (1 : UInt64) ≤ number := by
    rw [UInt64.le_iff_toNat_le]
    exact Nat.one_le_iff_ne_zero.mpr hpositive
  rw [UInt64.toNat_sub_of_le _ _ hone]
  exact Nat.sub_add_cancel (Nat.one_le_iff_ne_zero.mpr hpositive)

/-- A plan is made of what the node has reported, or something stands in its way. -/
theorem talk_plan (simulator : Simulator) (target : Hash) :
    (∃ exchanges error, talk answer state (simulator.plan target) = (exchanges, .error error) ∧
        Obstacle target exchanges error) ∨
      ∃ report number block fetched earlier,
        talk answer state (simulator.plan target) =
          (.transaction target report :: .block number block :: fetched,
            .ok
              { target := report.transaction
                preceding := earlier
                forkBlock := number - 1
                fork := simulator.forkFor (.ofHeader block.header)
                block := .ofHeader block.header }) ∧
          report.blockNumber = some number ∧ number ≠ 0 ∧
          Earlier target block.listing fetched earlier := by
  rw [plan, talk_ask_bind]
  -- The cases follow the conversation: each reply either ends it or leads to the next one.
  match answer state (.transaction target) with
  | (.error failure, _) => exact .inl ⟨_, _, rfl, .transactionFailed failure⟩
  | (.ok none, _) =>
      dsimp only
      rw [known_none_bind, talk_throw]
      exact .inl ⟨_, _, rfl, .transactionNotFound⟩
  | (.ok (some report), later) =>
      dsimp only
      rw [known_some_bind]
      cases hmined : report.blockNumber with
      | none =>
          rw [known_none_bind, talk_throw]
          exact .inl ⟨_, _, rfl, .transactionPending hmined⟩
      | some number =>
          rw [known_some_bind]
          by_cases hnumber : number = 0
          · subst hnumber
            rw [if_pos rfl, talk_throw]
            exact .inl ⟨_, _, rfl, .genesisTransaction hmined⟩
          · rw [if_neg hnumber, talk_planIn]
            match answer later (.block (.number number) true) with
            | (.error failure, _) => exact .inl ⟨_, _, rfl, .blockFailed hmined hnumber failure⟩
            | (.ok none, _) => exact .inl ⟨_, _, rfl, .blockNotFound hmined hnumber⟩
            | (.ok (some block), last) =>
                dsimp only
                rcases talk_preceding answer last target block.listing with
                  ⟨exchanges, earlier, htalk, hearlier⟩ |
                  ⟨hashes, earlier, exchanges, error, hlisting, hbefore, htalk, hfetched⟩
                · rw [htalk]
                  exact .inr ⟨report, number, block, exchanges, earlier, rfl, hmined, hnumber,
                    hearlier⟩
                · rw [htalk]
                  refine .inl ⟨_, _, rfl, ?_⟩
                  cases hfetched with
                  | failed fetched missing rest failure =>
                      exact .earlierFailed hmined hnumber hlisting hbefore failure
                  | notFound fetched missing rest =>
                      exact .earlierNotFound hmined hnumber hlisting hbefore

/-- Whatever a node answers, a plan is made of the answers or fails at the first
obstacle. -/
theorem plan_of_answers (simulator : Simulator) (target : Hash) :
    let (exchanges, result) := talk answer state (simulator.plan target)
    match result with
    | .error error => Obstacle target exchanges error
    | .ok plan =>
        ∃ report number block fetched,
          exchanges = .transaction target report :: .block number block :: fetched ∧
          report.blockNumber = some number ∧ 0 < number ∧
          plan.target = report.transaction ∧
          plan.forkBlock.toNat + 1 = number.toNat ∧
          Earlier target block.listing fetched plan.preceding ∧
          plan.fork = forkForBlock simulator.chainId block.header.number block.header.timestamp
            simulator.settings.fallback ∧
          plan.block = .ofHeader block.header ∧
          ∀ tx ∈ plan.target :: plan.preceding, ∀ inner, tx.payload = .executable inner →
            inner.caller = tx.sender := by
  rcases talk_plan answer state simulator target with
    ⟨exchanges, error, htalk, hobstacle⟩ |
    ⟨report, number, block, fetched, earlier, htalk, hmined, hnumber, hearlier⟩
  · rw [htalk]
    exact hobstacle
  · rw [htalk]
    refine ⟨report, number, block, fetched, rfl, hmined, UInt64.pos_iff_ne_zero.mpr hnumber, rfl,
      toNat_sub_one_add_one hnumber, hearlier, rfl, rfl, ?_⟩
    intro tx htx inner hpayload
    rcases List.mem_cons.mp htx with rfl | htx
    · exact Node.Envelope.caller_of_payload hpayload
    · exact hearlier.caller_eq_sender htx hpayload

end Simulator

end ForkReplay
