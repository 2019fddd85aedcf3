import ForkReplay.Proofs.SeparateReplays
import ForkReplay.Proofs.TwinReplays
import ForkReplay.State.MemoryState

/-!
# A state of its own in place of a fork

A node serves some state of finitely many accounts. A fork of the node starts empty and
asks for what it needs; a state of its own holds all accounts from the start. Replays and
calls come to the same over both, unless the fork forgets an account.
-/

namespace ForkReplay

open Node (Query)

/-- An account of a given state. Its code runs as it stands. -/
structure GivenAccount where
  nonce : UInt64 := 0
  balance : Word := 0
  code : Bytes := Bytes.ofList []
  storage : WordMap Word := ∅
  isPlain : code.extract 0 2 ≠ Bytes.ofList [0xef, 0x01]

/-- The nonce, balance and code of a given account. -/
def GivenAccount.account (given : GivenAccount) : Account where
  nonce := given.nonce
  balance := given.balance
  code := .plain given.code

/-- Adds a given account to a state of its own, piece by piece. -/
def GivenAccount.addTo (given : GivenAccount) (overlay : Overlay) (address : Address) : Overlay :=
  let edited := ((overlay.setBalance address given.balance).setNonce address given.nonce).setCode
    address given.code
  given.storage.foldl (fun overlay key value => overlay.setStorage address key value) edited

/-- A state of finitely many accounts. All others are empty. -/
structure GivenState where
  accounts : AddressMap GivenAccount := ∅

namespace GivenState

variable {state : GivenState} {address : Address}

def account (state : GivenState) (address : Address) : Account :=
  match state.accounts[address]? with
  | some given => given.account
  | none => {}

def slot (state : GivenState) (address : Address) (key : Word) : Word :=
  match state.accounts[address]? with
  | some given => given.storage[key]?.getD 0
  | none => 0

/-- The state as a source. The hashes of blocks are those of a state of its own. -/
def source (state : GivenState) : Source where
  account := state.account
  slot := state.slot
  blockHash number := Overlay.standInHash (UInt64.ofNat number).toNat

/-- A fork that has not asked for anything yet. -/
def forked (state : GivenState) : Database := { overlay := .fork, source := state.source }

/-- A state of its own that holds all accounts. There is nothing behind it. -/
def preloaded (state : GivenState) : Database where
  overlay := state.accounts.foldl (fun overlay address given => given.addTo overlay address) .empty
  source := { account := fun _ => {}, slot := fun _ _ => 0, blockHash := Overlay.standInHash }

end GivenState

/-! ## Preloading -/

namespace Overlay

variable {overlay : Overlay} {address other : Address}

theorem getElem?_editAccount (overlay : Overlay) (address other : Address)
    (change : Account → Account) :
    (overlay.editAccount address change).accounts[other]? =
      if address = other then
        some { overlay.held address with
          account := change (overlay.held address).account
          standing := if (overlay.held address).standing = .absent then .present
            else (overlay.held address).standing }
      else overlay.accounts[other]? := by
  rw [editAccount, getElem?_hold]
  split
  next => rfl
  next =>
    unfold fileCode
    split
    next => rfl
    next => rfl

theorem held_editAccount (overlay : Overlay) (address : Address) (change : Account → Account) :
    (overlay.editAccount address change).held address =
      { overlay.held address with
        account := change (overlay.held address).account
        standing := if (overlay.held address).standing = .absent then .present
          else (overlay.held address).standing } := by
  rw [held, getElem?_editAccount, if_pos rfl]
  rfl

theorem blockHashes_editAccount (overlay : Overlay) (address : Address)
    (change : Account → Account) :
    (overlay.editAccount address change).blockHashes = overlay.blockHashes := by
  obtain ⟨codes, hfiled⟩ := overlay.fileCode_eq (change (overlay.held address).account).code
  rw [editAccount, hfiled]
  rfl

theorem isFork_editAccount (overlay : Overlay) (address : Address) (change : Account → Account) :
    (overlay.editAccount address change).isFork = overlay.isFork := by
  obtain ⟨codes, hfiled⟩ := overlay.fileCode_eq (change (overlay.held address).account).code
  rw [editAccount, hfiled]
  rfl

theorem getElem?_setStorage (overlay : Overlay) (address other : Address) (key value : Word) :
    (overlay.setStorage address key value).accounts[other]? =
      if address = other then
        some { overlay.held address with
          storage := (overlay.held address).storage.insert key value }
      else overlay.accounts[other]? :=
  overlay.getElem?_learn_slot address other key value

end Overlay

namespace GivenAccount

/-- What is held of an account once a given one is added to it. -/
def heldOver (given : GivenAccount) (held : HeldAccount) : HeldAccount where
  account := given.account
  storage := given.storage.foldl (fun storage key value => storage.insert key value) held.storage
  standing := if held.standing = .absent then .present else held.standing

variable {overlay : Overlay} {address other : Address}

theorem getElem?_foldl_setStorage (held : HeldAccount)
    (hheld : overlay.accounts[address]? = some held) (storage : WordMap Word) :
    (storage.foldl (fun overlay key value => overlay.setStorage address key value)
        overlay).accounts[address]? =
      some { held with
        storage := storage.foldl (fun storage key value => storage.insert key value)
          held.storage } := by
  rw [Std.ExtTreeMap.foldl_eq_foldl_toList, Std.ExtTreeMap.foldl_eq_foldl_toList]
  generalize storage.toList = entries
  induction entries generalizing overlay held with
  | nil => exact hheld
  | cons entry rest ih =>
      have hnext : (overlay.setStorage address entry.1 entry.2).accounts[address]? =
          some { held with storage := held.storage.insert entry.1 entry.2 } := by
        rw [Overlay.getElem?_setStorage, if_pos rfl, Overlay.held, hheld]
        rfl
      exact ih _ hnext

theorem getElem?_addTo (given : GivenAccount) (overlay : Overlay) (address other : Address) :
    (given.addTo overlay address).accounts[other]? =
      if address = other then some (given.heldOver (overlay.held address))
      else overlay.accounts[other]? := by
  unfold addTo Overlay.setCode Overlay.setNonce Overlay.setBalance
  by_cases haddress : address = other
  · subst haddress
    rw [if_pos rfl]
    -- The three edits come first, so the account is held when its slots are set.
    refine getElem?_foldl_setStorage { overlay.held address with
      account := given.account
      standing := (given.heldOver (overlay.held address)).standing } ?_ given.storage
    rw [Overlay.getElem?_editAccount, if_pos rfl, Overlay.held_editAccount,
      Overlay.held_editAccount, heldOver]
    cases (overlay.held address).standing with
    | absent => rfl
    | present => rfl
    | cleared => rfl
  · rw [if_neg haddress]
    refine (read_foldl_of_kept (fun overlay : Overlay => overlay.accounts[other]?) ?_ _ _).trans ?_
    · intro overlay key value
      rw [Overlay.getElem?_setStorage, if_neg haddress]
    · simp only [Overlay.getElem?_editAccount, if_neg haddress]

theorem getElem?_storage_heldOver (given : GivenAccount) (held : HeldAccount) (key : Word) :
    (given.heldOver held).storage[key]? =
      match given.storage[key]? with
      | some value => some value
      | none => held.storage[key]? := by
  rw [heldOver,
    read_foldl (fun storage : WordMap Word => storage[key]?) key fun value _ => some value]
  · cases given.storage[key]? with
    | some value => rfl
    | none => rfl
  · intro storage value
    exact Std.ExtTreeMap.getElem?_insert_self
  · intro storage other value hne
    rw [Std.ExtTreeMap.getElem?_insert, if_neg (by simpa using hne)]

theorem blockHashes_addTo (given : GivenAccount) (overlay : Overlay) (address : Address) :
    (given.addTo overlay address).blockHashes = overlay.blockHashes := by
  refine (read_foldl_of_kept Overlay.blockHashes ?_ given.storage _).trans ?_
  · exact fun _ _ _ => rfl
  · simp only [Overlay.setCode, Overlay.setNonce, Overlay.setBalance,
      Overlay.blockHashes_editAccount]

theorem isFork_addTo (given : GivenAccount) (overlay : Overlay) (address : Address) :
    (given.addTo overlay address).isFork = overlay.isFork := by
  refine (read_foldl_of_kept Overlay.isFork ?_ given.storage _).trans ?_
  · exact fun _ _ _ => rfl
  · simp only [Overlay.setCode, Overlay.setNonce, Overlay.setBalance, Overlay.isFork_editAccount]

end GivenAccount

/-! ## Nodes -/

namespace Source

/-- A fork that has not asked for anything yet. -/
def forked (source : Source) : Database := { overlay := .fork, source }

/-- After a block a node finds what the source holds, and no lookup fails. -/
structure AnsweredBy (source : Source) (number : UInt64)
    (answer : (query : Query) → query.Reply) : Prop where
  lookup : ∀ lookup, (Node.lookup number lookup).run answer = .ok (source.find lookup)
  succeeds : ∀ asked lookup, source.failure? asked lookup = none

/-- A fork of the node is a database over the source. -/
theorem AnsweredBy.run_onFork {source : Source} {number : UInt64}
    {answer : (query : Query) → query.Reply} (h : source.AnsweredBy number answer) {ε α : Type}
    (computation : Overlaid ε α) :
    (Node.onFork number .fork computation).run answer =
      ((source.forked.run computation).1, (source.forked.run computation).2.overlay) := by
  have hreply (asked : List Lookup) (lookup : Lookup) :
      source.reply asked lookup = .ok (source.find lookup) := by
    rw [Source.reply, h.succeeds]
  rw [Node.onFork, Node.forkAt, Dialogue.run_interpret]
  simp only [h.lookup]
  exact (Dialogue.fst_runWith
    (fun asked lookup => (source.reply asked lookup, asked ++ [lookup]))
    (fun lookup => .ok (source.find lookup)) hreply [] _).symm

end Source

namespace GivenState

variable {state : GivenState}

theorem getElem?_preloaded (state : GivenState) (address : Address) :
    state.preloaded.overlay.accounts[address]? =
      state.accounts[address]?.map fun given => given.heldOver { standing := .absent } := by
  refine (read_foldl (fun overlay : Overlay => overlay.accounts[address]?) address
    (fun given before => some (given.heldOver (before.getD { standing := .absent }))) ?_ ?_
    state.accounts Overlay.empty).trans ?_
  · intro overlay given
    rw [GivenAccount.getElem?_addTo, if_pos rfl]
    rfl
  · intro overlay other given hne
    rw [GivenAccount.getElem?_addTo, if_neg hne]
  · cases state.accounts[address]? with
    | none => rfl
    | some given => rfl

theorem blockHashes_preloaded (state : GivenState) : state.preloaded.overlay.blockHashes = ∅ :=
  read_foldl_of_kept Overlay.blockHashes (fun overlay address given =>
    given.blockHashes_addTo overlay address) state.accounts Overlay.empty

theorem isFork_preloaded (state : GivenState) : state.preloaded.overlay.isFork = false :=
  read_foldl_of_kept Overlay.isFork (fun overlay address given =>
    given.isFork_addTo overlay address) state.accounts Overlay.empty

theorem account_preloaded (state : GivenState) (address : Address) :
    state.preloaded.account address = state.account address := by
  rw [Database.account, Overlay.account?, getElem?_preloaded, isFork_preloaded, account]
  cases state.accounts[address]? with
  | none => rfl
  | some given => rfl

theorem slot_preloaded (state : GivenState) (address : Address) (key : Word) :
    state.preloaded.slot address key = state.slot address key := by
  rw [Database.slot_eq, Database.behind, getElem?_preloaded, isFork_preloaded, slot]
  cases state.accounts[address]? with
  | none => rfl
  | some given =>
      simp only [Option.map_some, HeldAccount.value, GivenAccount.getElem?_storage_heldOver]
      cases given.storage[key]? with
      | some value => rfl
      | none => simp

theorem blockHash_preloaded (state : GivenState) (number : Nat) :
    state.preloaded.blockHash number = Overlay.standInHash number := by
  rw [Database.blockHash, Overlay.blockHash?, blockHashes_preloaded, isFork_preloaded]
  simp

/-- The state that holds all accounts stands in for a fork that has asked for nothing. -/
theorem preloaded_standsIn (state : GivenState) : state.preloaded.StandsIn state.forked where
  isOwn := state.isFork_preloaded
  alike :=
    { account := fun address => (state.account_preloaded address).symm
      slot := fun address key => (state.slot_preloaded address key).symm
      blockHash := fun number hnumber => by
        rw [blockHash_preloaded]
        change Overlay.standInHash (UInt64.ofNat number).toNat = _
        rw [UInt64.toNat_ofNat_of_lt' hnumber]
      succeeds := fun _ _ => rfl
      succeeds' := fun _ _ => rfl }

/-! ## The node -/

/-- A node that gives this state after a block, and blocks with the hashes of a state of its
own. -/
structure ServedBy (state : GivenState) (number : UInt64)
    (answer : (query : Query) → query.Reply) : Prop where
  nonce : ∀ address, answer (.state .nonce address number) = .ok (state.account address).nonce
  balance : ∀ address, answer (.state .balance address number) = .ok (state.account address).balance
  code : ∀ address, answer (.state .code address number) = .ok (state.account address).code.bytes
  slot : ∀ address key, answer (.state (.slot key) address number) = .ok (state.slot address key)
  block : ∀ block, ∃ report, answer (.block (.number block) false) = .ok (some report) ∧
    report.hash = Overlay.standInHash block.toNat

theorem ofStored?_code (state : GivenState) (address : Address) :
    Code.ofStored? (state.account address).code.bytes = some (state.account address).code := by
  unfold account
  cases state.accounts[address]? with
  | none => rfl
  | some given => exact if_neg given.isPlain

variable {number : UInt64} {answer : (query : Query) → query.Reply}

/-- Every lookup at the node finds the given state. -/
theorem ServedBy.run_lookup (h : state.ServedBy number answer) (lookup : Lookup) :
    (Node.lookup number lookup).run answer = .ok (state.source.find lookup) := by
  cases lookup with
  | account address =>
      simp only [Node.lookup, Dialogue.run, h.nonce, h.balance, h.code, Node.account,
        ofStored?_code]
      rfl
  | slot address key =>
      simp only [Node.lookup, Dialogue.run, h.slot]
      rfl
  | blockHash block =>
      obtain ⟨report, hreport, hhash⟩ := h.block (UInt64.ofNat block)
      simp only [Node.lookup, Dialogue.run, hreport, Node.blockHash, hhash]
      rfl

theorem ServedBy.answeredBy (h : state.ServedBy number answer) :
    state.source.AnsweredBy number answer where
  lookup := h.run_lookup
  succeeds _ _ := rfl

/-- A fork of the node is a database over the given state. -/
theorem ServedBy.run_onFork {ε α : Type} (h : state.ServedBy number answer)
    (computation : Overlaid ε α) :
    (Node.onFork number .fork computation).run answer =
      ((state.forked.run computation).1, (state.forked.run computation).2.overlay) :=
  h.answeredBy.run_onFork computation

/-- A computation comes to the same on a fork of the node and on the state that holds all
accounts, and the same is read of both afterwards. Of the fork, what it has not asked for
reads as given. -/
def SameOnFork (state : GivenState) (number : UInt64) (answer : (query : Query) → query.Reply)
    {ε α : Type} (computation : Overlaid ε α) : Prop :=
  let onFork := (Node.onFork number .fork computation).run answer
  let onMemory := state.preloaded.run computation
  let forked : Database := { overlay := onFork.2, source := state.source }
  onFork.1 = onMemory.1 ∧
    (∀ address, forked.account address = onMemory.2.account address) ∧
    ∀ address key, forked.slot address key = onMemory.2.slot address key

theorem ServedBy.sameOnFork {ε α : Type} {computation : Overlaid ε α} {result : Except ε α}
    {after after' : Database} (h : state.ServedBy number answer)
    (hrun : state.forked.run computation = (result, after))
    (hrun' : state.preloaded.run computation = (result, after')) (hafter : after'.StandsIn after) :
    state.SameOnFork number answer computation := by
  have hsource : after.source = state.source := (congrArg (·.2.source) hrun).symm
  unfold SameOnFork
  rw [h.run_onFork, hrun, hrun']
  dsimp only
  rw [← hsource]
  exact ⟨rfl, hafter.alike.account, hafter.alike.slot⟩

/-- A fork that has asked for nothing has nothing to forget. -/
theorem forked_remembers (state : GivenState) (after : Database) :
    state.forked.Remembers after := by
  rintro - address ⟨habsent, -⟩
  cases habsent

/-- A node that gives this state after every block, and blocks with the hashes of a state
of its own. -/
def node (state : GivenState) : (query : Query) → query.Reply
  | .chainId => .ok (1 : UInt64)
  | .transaction _ => .ok none
  | .block .latest _ => .ok none
  | .block (.number number) _ =>
      .ok (some
        { hash := Overlay.standInHash number.toNat, header := default, listing := .hashes [] })
  | .state .nonce address _ => .ok (state.account address).nonce
  | .state .balance address _ => .ok (state.account address).balance
  | .state .code address _ => .ok (state.account address).code.bytes
  | .state (.slot key) address _ => .ok (state.slot address key)

theorem servedBy_node (state : GivenState) (number : UInt64) :
    state.ServedBy number state.node where
  nonce _ := rfl
  balance _ := rfl
  code _ := rfl
  slot _ _ := rfl
  block _ := ⟨_, rfl, rfl⟩

end GivenState

namespace Sample

/-- The state of one contract with the value 7 in its first slot. -/
def contract (code : Bytes) (isPlain : code.extract 0 2 ≠ Bytes.ofList [0xef, 0x01]) :
    GivenState where
  accounts := (∅ : AddressMap GivenAccount).insert 0x777
    { code, storage := (∅ : WordMap Word).insert 0 7, isPlain }

/-- A contract that returns its first slot. -/
def returning : GivenState :=
  contract (Bytes.ofList [0x60, 0x00, 0x54, 0x60, 0x00, 0x52, 0x60, 0x20, 0x60, 0x00, 0xf3])
    (by decide)

/-- A contract that destroys itself. -/
def destroying : GivenState := contract (Bytes.ofList [0x33, 0xff]) (by decide)

end Sample

/-- A state of its own that holds what a node gives stands in for a fork of the node. Calls
come to the same on both, and so do replays of transactions without authorizations, as long
as the fork remembers the accounts that were destroyed. -/
theorem Executor.memory_stands_in (executor : Executor) {state : GivenState} {number : UInt64}
    {answer : (query : Query) → query.Reply} (hserved : state.ServedBy number answer) :
    (∀ txs target, (∀ tx ∈ executor.replayed txs target, tx.kind ≠ 4) →
      executor.Remembers state.forked (executor.replayed txs target) →
      state.SameOnFork number answer (executor.replayInBlock txs target)) ∧
    ∀ request, state.SameOnFork number answer (executor.call request) := by
  refine ⟨?_, ?_⟩
  · intro txs target hkinds hremembers
    obtain ⟨result, after, after', hrun, hrun', hafter⟩ :=
      executor.replayInBlock_of_standsIn state.preloaded_standsIn txs target hkinds hremembers
    exact hserved.sameOnFork hrun hrun' hafter
  · intro request
    obtain ⟨result, after, after', hrun, hrun', hafter⟩ :=
      executor.call_of_standsIn state.preloaded_standsIn request (state.forked_remembers _)
    exact hserved.sameOnFork hrun hrun' hafter

/-- A transaction that reads a slot, which only the fork has to ask for. -/
theorem Executor.slot_returned_on_both :
    let executor : Executor := { config := Sample.config, block := Sample.block 1 }
    let replay := executor.replayInBlock [] (Sample.transfer 1 0x888 0)
    Sample.returning.ServedBy 4 Sample.returning.node ∧
      Sample.returning.SameOnFork 4 Sample.returning.node replay ∧
      (Sample.returning.preloaded.run replay).1 =
        .ok (.success 23118 0 (Bytes.ofList (List.replicate 31 0 ++ [7])) none) := by
  intro executor replay
  have hserved := Sample.returning.servedBy_node 4
  have hkinds : ∀ tx ∈ executor.replayed [] (Sample.transfer 1 0x888 0), tx.kind ≠ 4 := by
    decide +kernel
  obtain ⟨hreplays, -⟩ := executor.memory_stands_in hserved
  refine ⟨hserved, hreplays [] (Sample.transfer 1 0x888 0) hkinds ?_, by decide +kernel⟩
  -- The one transaction starts from a fork that has nothing to forget.
  change executor.Remembers _ [_]
  rw [Executor.Remembers]
  split
  next => trivial
  next => exact ⟨Sample.returning.forked_remembers _, trivial⟩

/-- The contract is destroyed and then touched by a transfer: only the fork, which has to ask
for the slot again, still reads it. -/
theorem Executor.slot_read_on_fork_alone :
    let executor : Executor :=
      { config := { Sample.config with fork := .shanghai }, block := Sample.block 1 }
    Sample.destroying.ServedBy 4 Sample.destroying.node ∧
      ¬ Sample.destroying.SameOnFork 4 Sample.destroying.node
        (executor.replayInBlock [Sample.transfer 1 0x888 0] (Sample.transfer 2 0x888 1)) := by
  intro executor
  refine ⟨Sample.destroying.servedBy_node 4, ?_⟩
  rintro ⟨-, -, hslot⟩
  have hread := hslot 0x777 0
  revert hread
  decide +kernel

end ForkReplay
