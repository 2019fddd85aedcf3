import ForkReplay.Proofs.Planning

/-!
# Blocks in full and blocks by hashes

Some nodes list the transactions of a block in full, others by their hashes. A plan
takes the first as they are and asks for the second one by one; it comes to the same.
-/

namespace ForkReplay

namespace Node

/-- What a node answers whose answers depend on the query alone. -/
abbrev Answers := (query : Query) → query.Reply

/-- A listing of the given transactions, in full or by their hashes. -/
inductive Listing.Lists : Listing → List TransactionReport → Prop where
  | full (reports : List TransactionReport) : Lists (.full reports) reports
  | hashes (reports : List TransactionReport) :
      Lists (.hashes (reports.map TransactionReport.hash)) reports

/-- Two replies about the same block. The transactions of the block may be listed in
either form, and are those that `answers` tells of their hashes. -/
inductive SameBlock (answers : Answers) :
    Except Failure (Option BlockReport) → Except Failure (Option BlockReport) → Prop where
  | failed (failure : Failure) : SameBlock answers (.error failure) (.error failure)
  | unknown : SameBlock answers (.ok none) (.ok none)
  | known {block block' : BlockReport} {reports : List TransactionReport}
      (hhash : block.hash = block'.hash) (hheader : block.header = block'.header)
      (hlists : block.listing.Lists reports) (hlists' : block'.listing.Lists reports)
      (htold : ∀ report ∈ reports, answers (.transaction report.hash) = .ok (some report)) :
      SameBlock answers (.ok (some block)) (.ok (some block'))

/-- Two nodes with the same transactions and the same blocks, each of which lists the
transactions of a block in full or by their hashes. -/
structure SameChain (first second : Answers) : Prop where
  transaction : ∀ hash, first (.transaction hash) = second (.transaction hash)
  block : ∀ tag, SameBlock first (first (.block tag true)) (second (.block tag true))

/-- Two nodes with the same state after every block and the same block hashes. -/
structure SameForks (first second : Answers) : Prop where
  state : ∀ field address number,
    first (.state field address number) = second (.state field address number)
  blockHash : ∀ number, blockHash (first (.block (.number number) false)) =
    blockHash (second (.block (.number number) false))

end Node

namespace Simulating

variable {α β : Type} {answers : Node.Answers}

/-- What a computation comes to with a node whose answers depend on the query alone. -/
def answered (answers : Node.Answers) (computation : Simulating α) : Except ReplayError α :=
  computation.run.run answers

theorem answered_bind (x : Simulating α) (f : α → Simulating β) :
    answered answers (x >>= f) =
      answered answers x >>= fun value => answered answers (f value) := by
  rw [answered, ExceptT.run_bind]
  change (Dialogue.bind x.run _).run answers = _
  rw [Dialogue.run_bind, answered]
  cases x.run.run answers with
  | ok value => rfl
  | error error => rfl

theorem answered_ask (query : Node.Query) :
    answered answers (ask query) = (answers query).mapError .node := rfl

/-- Transactions that the node reports are fetched in their order. -/
theorem answered_fetchTransactions {reports : List Node.TransactionReport}
    (htold : ∀ report ∈ reports, answers (.transaction report.hash) = .ok (some report)) :
    answered answers
        (Simulator.fetchTransactions (reports.map Node.TransactionReport.hash)) =
      .ok (reports.map Node.TransactionReport.transaction) := by
  induction reports with
  | nil => rfl
  | cons report rest ih =>
      rw [List.forall_mem_cons] at htold
      rw [List.map_cons, Simulator.fetchTransactions, answered_bind, answered_ask, htold.1]
      change answered answers (Simulator.fetchTransactions _ >>= _) = _
      rw [answered_bind, ih htold.2]
      rfl

/-- Either form of a listing gives the transactions before the target. -/
theorem answered_preceding {target : Hash} {listing : Node.Listing}
    {reports : List Node.TransactionReport} (hlists : listing.Lists reports)
    (htold : ∀ report ∈ reports, answers (.transaction report.hash) = .ok (some report)) :
    answered answers (Simulator.preceding target listing) =
      .ok ((reports.takeWhile fun report => report.hash ≠ target).map
        Node.TransactionReport.transaction) := by
  cases hlists with
  | full => rfl
  | hashes =>
      -- Cutting the list of hashes is cutting the list of reports.
      rw [Simulator.preceding, List.takeWhile_map]
      refine answered_fetchTransactions ?_
      intro report hreport
      exact htold report ((List.takeWhile_subset _) hreport)

/-- A computation on a fork sees the answers of the node through its lookups. -/
theorem answered_onFork (number : UInt64) (computation : Replaying α) :
    answered answers (onFork number computation) =
      ((computation.run.run Overlay.fork).run fun lookup =>
        (Node.lookup number lookup).run answers).1 := by
  change Dialogue.run answers (Dialogue.bind (Dialogue.interpret _ _) _) = _
  rw [Dialogue.run_bind, Dialogue.run_interpret]
  rfl

end Simulating

namespace Sample

/-- What a transfer without a value says. -/
def body : Node.Body where
  nonce := 0
  gasLimit := 21000
  callee := some 0x333
  value := 0
  data := Bytes.ofList []

/-- A transaction of the chain's own and a free transfer. -/
def reports : List Node.TransactionReport :=
  [{ hash := 1, sender := 0x111, envelope := .foreign 0x7e, blockNumber := some 1 },
   { hash := 2, sender := 0x222, envelope := .legacy body (some 31337) 0, blockNumber := some 1 }]

/-- The header of a block after the merge with no base fee. -/
def header : Header where
  number := 1
  timestamp := 12
  beneficiary := 0
  gasLimit := 30000000
  baseFee := some 0
  difficulty := 0
  mixHash := some 0
  excessBlobGas := some 0

/-- The one block after the first. Where it is asked for in full, its transactions are
listed as given. -/
def block? (listing : Node.Listing) (tag : Node.BlockTag) (full : Bool) :
    Option Node.BlockReport :=
  let listing := if full then listing else .hashes (reports.map Node.TransactionReport.hash)
  if tag = .number 1 then some { hash := 3, header, listing } else none

/-- A node with that block, whose accounts are all empty. -/
def node (listing : Node.Listing) : Node.Answers
  | .chainId => .ok (31337 : UInt64)
  | .transaction hash => .ok (reports.find? fun report => report.hash = hash)
  | .block tag full => .ok (block? listing tag full)
  | .state .nonce _ _ => .ok (0 : UInt64)
  | .state .balance _ _ | .state (.slot _) _ _ => .ok (0 : Word)
  | .state .code _ _ => .ok (Bytes.ofList [])

theorem node_transaction (listing : Node.Listing) :
    ∀ report ∈ reports, node listing (.transaction report.hash) = .ok (some report) := by
  have hfind : ∀ report ∈ reports,
      reports.find? (fun other => other.hash = report.hash) = some report := by
    decide
  intro report hreport
  exact congrArg Except.ok (hfind report hreport)

theorem sameChain_node {listing listing' : Node.Listing} (hlists : listing.Lists reports)
    (hlists' : listing'.Lists reports) : Node.SameChain (node listing) (node listing') where
  transaction _ := rfl
  block tag := by
    change Node.SameBlock _ (.ok (block? listing tag true)) (.ok (block? listing' tag true))
    by_cases htag : tag = .number 1
    · rw [block?, block?, if_pos htag, if_pos htag]
      exact .known rfl rfl hlists hlists' (node_transaction listing)
    · rw [block?, block?, if_neg htag, if_neg htag]
      exact .unknown

theorem sameForks_node (listing listing' : Node.Listing) :
    Node.SameForks (node listing) (node listing') where
  state field _ _ := by cases field <;> rfl
  blockHash _ := rfl

end Sample

namespace Simulator

open Node (SameChain SameForks)
open Simulating

variable {first second : Node.Answers}

theorem answered_planIn_eq (h : SameChain first second) (simulator : Simulator) (target : Hash)
    (report : Node.TransactionReport) (number : UInt64) :
    answered first (simulator.planIn target report number) =
      answered second (simulator.planIn target report number) := by
  rw [planIn, answered_bind, answered_bind, answered_ask, answered_ask]
  have hblock := h.block (.number number)
  generalize first (.block (.number number) true) = reply at hblock
  generalize second (.block (.number number) true) = reply' at hblock
  cases hblock with
  | failed failure => rfl
  | unknown => rfl
  | @known block block' reports hhash hheader hlists hlists' htold =>
      change answered first (preceding target block.listing >>= _) =
        answered second (preceding target block'.listing >>= _)
      have htold' : ∀ report ∈ reports,
          second (.transaction report.hash) = .ok (some report) := by
        intro report hreport
        rw [← h.transaction]
        exact htold report hreport
      rw [answered_bind, answered_bind, answered_preceding hlists htold,
        answered_preceding hlists' htold', hheader]
      rfl

theorem answered_plan_eq (h : SameChain first second) (simulator : Simulator) (target : Hash) :
    answered first (simulator.plan target) = answered second (simulator.plan target) := by
  rw [plan, answered_bind, answered_bind, answered_ask, answered_ask, h.transaction]
  cases second (.transaction target) with
  | error failure => rfl
  | ok found =>
      cases found with
      | none => rfl
      | some report =>
          change answered first (known _ report.blockNumber >>= _) =
            answered second (known _ report.blockNumber >>= _)
          cases report.blockNumber with
          | none => rfl
          | some number =>
              change answered first (if number = 0 then _ else _) =
                answered second (if number = 0 then _ else _)
              split
              · rfl
              · exact answered_planIn_eq h simulator target report number

theorem run_lookup_eq (h : SameForks first second) (number : UInt64) (lookup : Lookup) :
    (Node.lookup number lookup).run first = (Node.lookup number lookup).run second := by
  cases lookup with
  | account address =>
      change Node.account (first (.state .nonce address number))
        (first (.state .balance address number)) (first (.state .code address number)) = _
      rw [h.state, h.state, h.state]
      rfl
  | slot address key =>
      simp only [Node.lookup, Dialogue.run]
      rw [h.state]
  | blockHash block =>
      simp only [Node.lookup, Dialogue.run]
      exact h.blockHash _

theorem answered_execute_eq (h : SameForks first second) (simulator : Simulator) (plan : Plan) :
    answered first (simulator.execute plan) = answered second (simulator.execute plan) := by
  rw [execute]
  split
  · rw [answered_onFork, answered_onFork, funext (run_lookup_eq h plan.forkBlock)]
  · rfl

/-- Nodes with the same transactions and the same blocks give the same plan, or the same
error, whether they list the transactions of a block in full or by their hashes. With
the same state to fork, the replay comes to the same too. -/
theorem plan_eq_of_sameChain (h : SameChain first second) (simulator : Simulator)
    (target : Hash) :
    answered first (simulator.plan target) = answered second (simulator.plan target) ∧
      (SameForks first second →
        answered first (simulator.replay target) = answered second (simulator.replay target)) := by
  refine ⟨answered_plan_eq h simulator target, fun hforks => ?_⟩
  rw [replay, answered_bind, answered_bind, answered_plan_eq h simulator target]
  cases answered second (simulator.plan target) with
  | error error => rfl
  | ok plan => exact answered_execute_eq hforks simulator plan

/-- A target that runs after a transaction of the chain's own, listed in either form. -/
theorem replay_of_either_form :
    let simulator : Simulator := { settings := { url := "ws://localhost" }, chainId := 31337 }
    let outcome : Outcome := .success 21000 0 (Bytes.ofList []) none
    answered (Sample.node (.full Sample.reports)) (simulator.replay 2) = .ok outcome ∧
      answered (Sample.node (.hashes [1, 2])) (simulator.replay 2) = .ok outcome := by
  intro simulator outcome
  have hchain : SameChain (Sample.node (.full Sample.reports)) (Sample.node (.hashes [1, 2])) :=
    Sample.sameChain_node (.full _) (.hashes Sample.reports)
  have hfull :
      answered (Sample.node (.full Sample.reports)) (simulator.replay 2) = .ok outcome := by
    decide +kernel
  have hreplay := (plan_eq_of_sameChain hchain simulator 2).2 (Sample.sameForks_node _ _)
  exact ⟨hfull, hreplay.symm.trans hfull⟩

end Simulator

end ForkReplay
