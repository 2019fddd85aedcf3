import ForkReplay.Proofs.Comparisons
import ForkReplay.Proofs.ForkQueries

/-!
# Replays on two databases

Committing one world to two databases that read the same leaves two that read the same.
There is one exception: a fork that forgets a destroyed account reads its storage from the
source again, and a state of its own does not. As long as no fork forgets an account that
has storage at the source, whole replays come to the same on both.
-/

namespace ForkReplay

/-! ## What is read after a commit -/

/-- What a slot of a held account is, if what is not held is `behind`. -/
def HeldAccount.value (held : HeldAccount) (key behind : Word) : Word :=
  match held.storage[key]? with
  | some value => value
  | none => if held.standing = .present then behind else 0

/-- What the commit of a touched account makes of a slot. -/
def AccessedAccount.lastValue (entry : AccessedAccount) (key before : Word) : Word :=
  if entry.destroyed then 0
  else
    match entry.slots[key]? with
    | some slot => slot.present
    | none => if entry.created then 0 else before

/-- The slots that were not accessed stay as they were if the account was there before. -/
theorem AccessedAccount.value_written {entry : AccessedAccount} {held : HeldAccount}
    {key behind before : Word}
    (hbefore : entry.destroyed = false → entry.created = false →
      before = (held.storage[key]?).getD (if held.standing = .cleared then 0 else behind)) :
    (entry.written held).value key behind = entry.lastValue key before := by
  unfold HeldAccount.value lastValue
  cases hdestroyed : entry.destroyed with
  | true => simp [written_of_destroyed hdestroyed]
  | false =>
      rw [getElem?_storage_written hdestroyed, standing_written hdestroyed]
      cases entry.slots[key]? with
      | some slot => rfl
      | none =>
          cases hcreated : entry.created with
          | true => simp
          | false =>
              rw [hbefore hdestroyed hcreated]
              cases held.storage[key]? with
              | some value => simp
              | none => cases held.standing <;> simp

namespace Database

variable {db other after : Database} {world : World} {address : Address}

/-- The database after a transaction that came to this world. -/
def commit (db : Database) (world : World) : Database :=
  { db with overlay := db.overlay.commit world }

/-- What a slot is where it is not held. -/
def behind (db : Database) (address : Address) (key : Word) : Word :=
  if db.overlay.isFork then db.source.slot address key else 0

theorem slot_eq (db : Database) (address : Address) (key : Word) :
    db.slot address key =
      match db.overlay.accounts[address]? with
      | none => db.behind address key
      | some held => held.value key (db.behind address key) := by
  unfold slot Overlay.slot? behind HeldAccount.value
  cases db.overlay.accounts[address]? with
  | none => rfl
  | some held =>
      dsimp only
      cases held.storage[key]? with
      | some value => rfl
      | none => by_cases hpresent : held.standing = .present <;> simp [hpresent]

/-- Where a fork forgets an account on the way to another state, its source holds no storage
of the account. -/
def Remembers (db after : Database) : Prop :=
  db.overlay.isFork = true → ∀ address, db.overlay.Forgets after.overlay address →
    ∀ key, db.source.slot address key = 0

theorem account_commit (db : Database) (world : World) (address : Address) :
    (db.commit world).account address =
      match world.accounts[address]? with
      | none => db.account address
      | some entry =>
          if entry.touched then if entry.destroyed then {} else entry.account
          else db.account address := by
  unfold account Overlay.account? commit
  rw [Overlay.getElem?_commit, db.overlay.isFork_commit world]
  cases world.accounts[address]? with
  | none => rfl
  | some entry =>
      dsimp only
      cases htouched : entry.touched with
      | false => rfl
      | true =>
          cases hdestroyed : entry.destroyed with
          | true => simp [AccessedAccount.written_of_destroyed hdestroyed]
          | false => simp [AccessedAccount.account_written hdestroyed]

/-- A slot of an account that was destroyed before is no longer known to be zero, so it
counts what is behind it. -/
theorem behind_eq_zero {entry : AccessedAccount} {held : HeldAccount}
    (h : db.Remembers (db.commit world)) (hworld : world.accounts[address]? = some entry)
    (htouched : entry.touched = true) (hheld : db.overlay.accounts[address]? = some held)
    (habsent : held.standing = .absent) (hdestroyed : entry.destroyed = false)
    (hcreated : entry.created = false) (key : Word) : db.behind address key = 0 := by
  unfold behind
  split
  next hfork =>
    refine h hfork address ⟨Overlay.isAbsent_iff.mpr ⟨held, hheld, habsent⟩, ?_⟩ key
    have hentry := db.overlay.getElem?_commit world address
    rw [hworld] at hentry
    refine ⟨_, hentry.trans (if_pos htouched), ?_⟩
    rw [AccessedAccount.standing_written hdestroyed, Overlay.held, hheld]
    simp [hcreated, habsent]
  next => rfl

theorem slot_commit (h : db.Remembers (db.commit world)) (address : Address) (key : Word) :
    (db.commit world).slot address key =
      match world.accounts[address]? with
      | none => db.slot address key
      | some entry =>
          if entry.touched then entry.lastValue key (db.slot address key)
          else db.slot address key := by
  have hbehind : (db.commit world).behind address key = db.behind address key := by
    rw [behind, behind, commit, db.overlay.isFork_commit world]
  rw [slot_eq, hbehind, slot_eq db, commit, Overlay.getElem?_commit]
  cases hworld : world.accounts[address]? with
  | none => rfl
  | some entry =>
      dsimp only
      cases htouched : entry.touched with
      | false => rfl
      | true =>
          -- Only an account that was absent needs an argument: its other slots were known to be
          -- zero and are no longer.
          refine AccessedAccount.value_written fun hdestroyed hcreated => ?_
          unfold Overlay.held
          cases hheld : db.overlay.accounts[address]? with
          | none => rfl
          | some held =>
              change held.value key _ = (held.storage[key]?).getD
                (if held.standing = .cleared then 0 else db.behind address key)
              unfold HeldAccount.value
              cases held.storage[key]? with
              | some value => rfl
              | none =>
                  cases hstanding : held.standing with
                  | present => rfl
                  | cleared => rfl
                  | absent =>
                      exact (behind_eq_zero h hworld htouched hheld hstanding hdestroyed hcreated
                        key).symm

theorem blockHash_commit (db : Database) (world : World) (number : Nat) :
    (db.commit world).blockHash number = db.blockHash number := by
  simp only [blockHash, Overlay.blockHash?, commit, Overlay.blockHashes_commit,
    Overlay.isFork_commit]

/-- Databases that read the same do so after a commit, if no fork forgets storage. -/
theorem Alike.commit (h : db.Alike other) (world : World) (hdb : db.Remembers (db.commit world))
    (hother : other.Remembers (other.commit world)) :
    (db.commit world).Alike (other.commit world) where
  account address := by rw [account_commit, account_commit, h.account]
  slot address key := by rw [slot_commit hdb, slot_commit hother, h.slot]
  blockHash number hnumber := by
    rw [blockHash_commit, blockHash_commit, h.blockHash number hnumber]
  succeeds := h.succeeds
  succeeds' := h.succeeds'

/-! ## Transactions -/

/-- What a fork learns is never absent, so it forgets no more for having looked up. -/
theorem Extends.remembers {learned : Database} (h : learned.Extends db) (hdb : db.Remembers after) :
    learned.Remembers after := by
  intro hfork address ⟨habsent, hpresent⟩ key
  rw [h.source]
  have hdbFork : db.overlay.isFork = true := h.isFork ▸ hfork
  exact hdb hdbFork address ⟨h.absent hdbFork address habsent, hpresent⟩ key

/-- A state of its own reads the same as another database. -/
structure StandsIn (own db : Database) : Prop where
  alike : db.Alike own
  isOwn : own.overlay.isFork = false

/-- A transaction fails alike on a state that stands in for a database, or settles alike. If
both come to the same world, what it leaves of one stands in for what it leaves of the other,
unless the database has forgotten something. -/
theorem StandsIn.settles {own : Database} (h : own.StandsIn db) {tx : Transaction}
    (hdb : tx.kind = 4 → ∀ address, db.overlay.Confirms address) (config : Evm.Config)
    (block : BlockEnv) :
    (∃ failure after after', db.run (Evm.transact config block tx) = (.error failure, after) ∧
      own.run (Evm.transact config block tx) = (.error failure, after') ∧
      after'.StandsIn after) ∨
    ∃ value value' after after',
      db.run (Evm.transact config block tx) = (.ok value.1, after) ∧
      own.run (Evm.transact config block tx) = (.ok value'.1, after') ∧
      Evm.SettledAlike config tx (Evm.intrinsicGas config.fork tx)
        (∀ signer, tx.Introduces config signer → own.overlay.Confirms signer) value value' ∧
      (value' = value → db.Remembers after → after'.StandsIn after) := by
  obtain ⟨learned, learned', hlearned, hlearned', ⟨failure, hrun, hrun'⟩ |
    ⟨value, value', hrun, hrun', hsettled⟩⟩ :=
    Evm.compares_checkAndRun h.alike hdb config block
  all_goals
    have halike := h.alike.extend hlearned hlearned'
    have hown : learned'.overlay.isFork = false := hlearned'.isFork.trans h.isOwn
    rw [Evm.transact, run_bind, run_bind, hrun, hrun']
  · exact .inl ⟨failure, learned, learned', rfl, rfl, halike, hown⟩
  · refine .inr ⟨value, value', learned.commit value.2, learned'.commit value'.2, rfl, rfl,
      hsettled, ?_⟩
    rintro rfl hremembers
    refine ⟨halike.commit _ (hlearned.remembers hremembers) ?_,
      (learned'.overlay.isFork_commit _).trans hown⟩
    intro hfork
    simp [hown] at hfork

/-- A transaction without signers comes to the same on a state that stands in for a database. -/
theorem StandsIn.transact {own : Database} (h : own.StandsIn db) (config : Evm.Config)
    (block : BlockEnv) (tx : Transaction) (hkind : tx.kind ≠ 4) :
    ∃ result after after', db.run (Evm.transact config block tx) = (result, after) ∧
      own.run (Evm.transact config block tx) = (result, after') ∧
      ((∀ value, result = .ok value → db.Remembers after) → after'.StandsIn after) := by
  rcases h.settles (fun hsigners => absurd hsigners hkind) config block with
    ⟨failure, after, after', hrun, hrun', hstands⟩ |
    ⟨value, value', after, after', hrun, hrun', ⟨-, -, -, -, -, -, -, hsame⟩, hstands⟩
  · exact ⟨.error failure, after, after', hrun, hrun', fun _ => hstands⟩
  · obtain rfl := hsame fun signer hintroduces => absurd hintroduces.1 hkind
    exact ⟨.ok value'.1, after, after', hrun, hrun', fun hdb => hstands rfl (hdb _ rfl)⟩

end Database

/-! ## Replays and calls -/

namespace Executor

variable {executor : Executor} {db own after : Database}

/-- No transaction that runs makes the fork forget an account that has storage at the
source. -/
def Remembers (executor : Executor) : Database → List Transaction → Prop
  | _, [] => True
  | db, tx :: rest =>
      match executor.attempt db tx with
      | (.error _, _) => True
      | (.ok _, after) => db.Remembers after ∧ executor.Remembers after rest

/-- Members that commit do so on a state that stands in, which then goes on standing in. -/
theorem Commits.standsIn {members : List Member} {results : List Evm.ExecutionResult}
    (hcommits : executor.Commits db members results after) (h : own.StandsIn db)
    {later : List Transaction} (hkinds : ∀ member ∈ members, member.tx.kind ≠ 4)
    (hremembers : executor.Remembers db (members.map Member.tx ++ later)) :
    ∃ after', executor.Commits own members results after' ∧ after'.StandsIn after ∧
      executor.Remembers after later := by
  -- The state that stands in runs the same members, each from what the one before it has left.
  induction hcommits generalizing own with
  | nil db => exact ⟨own, .nil own, h, hremembers⟩
  | @cons db middle after member rest result results hfirst hrest ih =>
      rw [List.map_cons, List.cons_append, Remembers, hfirst] at hremembers
      obtain ⟨hmiddle, hlater⟩ := hremembers
      obtain ⟨hkind, hkinds⟩ := List.forall_mem_cons.mp hkinds
      obtain ⟨result', middle₁, middle', hrun, hrun', hstands⟩ :=
        h.transact executor.config executor.block member.tx hkind
      obtain ⟨rfl, rfl⟩ := Prod.mk.inj (hfirst.symm.trans hrun)
      obtain ⟨after', hcommits', hafter⟩ := ih (hstands fun _ _ => hmiddle) hkinds hlater
      exact ⟨after', .cons hrun' hcommits', hafter⟩

/-- A replay comes to the same on a state that stands in for a fork, as long as the fork
remembers what was destroyed. -/
theorem replayInBlock_of_standsIn (executor : Executor) (h : own.StandsIn db)
    (txs : List BlockTransaction) (target : BlockTransaction)
    (hkinds : ∀ tx ∈ executor.replayed txs target, tx.kind ≠ 4)
    (hremembers : executor.Remembers db (executor.replayed txs target)) :
    ∃ result after after', db.run (executor.replayInBlock txs target) = (result, after) ∧
      own.run (executor.replayInBlock txs target) = (result, after') ∧ after'.StandsIn after := by
  obtain ⟨hmembers, htarget⟩ := List.forall_mem_append.mp hkinds
  rw [List.forall_mem_map] at hmembers
  rcases executor.commits_or_fails db (executor.members (before target.hash txs)) with
    ⟨results, start, hcommits⟩ |
    ⟨done, failing, rest, results, start, failure, after, hsplit, hdone, hfailing⟩
  · obtain ⟨start', hcommits', hstart, hlast⟩ := hcommits.standsIn h hmembers hremembers
    rw [run_replayInBlock_of_ok (run_applyPreceding_of_commits hcommits),
      run_replayInBlock_of_ok (run_applyPreceding_of_commits hcommits')]
    cases hpayload : target.payload with
    | system kind =>
        rw [run_executeTarget_of_system start hpayload, run_executeTarget_of_system start' hpayload]
        exact ⟨_, start, start', rfl, rfl, hstart⟩
    | executable tx =>
        rw [run_executeTarget_of_executable start hpayload,
          run_executeTarget_of_executable start' hpayload]
        rw [hpayload] at htarget hlast
        obtain ⟨result, after, after', hrun, hrun', hstands⟩ :=
          hstart.transact executor.config executor.block tx (htarget tx List.mem_cons_self)
        rw [attempt, attempt, hrun, hrun']
        rw [Remembers, attempt, hrun] at hlast
        cases result with
        | error failure => exact ⟨_, after, after', rfl, rfl, hstands fun _ h => by cases h⟩
        | ok result => exact ⟨_, after, after', rfl, rfl, hstands fun _ _ => hlast.1⟩
  · rw [replayed, hsplit, List.map_append, List.append_assoc] at hremembers
    rw [hsplit, List.forall_mem_append, List.forall_mem_cons] at hmembers
    obtain ⟨hkindsDone, hkind, -⟩ := hmembers
    obtain ⟨start', hdone', hstart, -⟩ := hdone.standsIn h hkindsDone hremembers
    obtain ⟨result, last, last', hrun, hrun', hstands⟩ :=
      hstart.transact executor.config executor.block failing.tx hkind
    obtain ⟨rfl, rfl⟩ := Prod.mk.inj (hfailing.symm.trans hrun)
    rw [run_replayInBlock_of_error (run_applyPreceding_of_failure hsplit hdone hfailing),
      run_replayInBlock_of_error (run_applyPreceding_of_failure hsplit hdone' hrun')]
    exact ⟨_, after, last', rfl, rfl, hstands fun _ h => by cases h⟩

/-- A call comes to the same on a state that stands in for a fork. -/
theorem call_of_standsIn (executor : Executor) (h : own.StandsIn db) (request : CallRequest)
    (hremembers : db.Remembers (db.run (executor.call request)).2) :
    ∃ result after after', db.run (executor.call request) = (result, after) ∧
      own.run (executor.call request) = (result, after') ∧ after'.StandsIn after := by
  obtain ⟨result, after, after', hrun, hrun', hstands⟩ := h.transact
    { executor.config with checksNonce := false } { executor.block with baseFee := 0 }
    (executor.callTransaction request) (show (0 : UInt8) ≠ 4 by decide)
  simp only [call, Database.run_map, run_commit, hrun, hrun'] at hremembers ⊢
  exact ⟨_, after, after', rfl, rfl, hstands fun _ _ => hremembers⟩

end Executor

end ForkReplay
