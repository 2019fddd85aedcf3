import ForkReplay.Proofs.Lookups

/-!
# Databases

A database is an overlay together with the source that stands behind a fork. What can
be observed of it is what the overlay holds and, where it holds nothing, what the
source would tell. Looking something up moves it from the source to the overlay, which
nobody can observe.
-/

namespace ForkReplay

/-- A source of state. What is found never changes, but any lookup may fail, and
which ones do may depend on all those before. -/
structure Source where
  account : Address → Account
  slot : Address → Word → Word
  blockHash : Nat → Hash
  failure? : List Lookup → Lookup → Option LookupFailure := fun _ _ => none

namespace Source

/-- What a lookup finds if it does not fail. -/
def find (source : Source) : (lookup : Lookup) → lookup.Answer
  | .account address => source.account address
  | .slot address key => source.slot address key
  | .blockHash number => source.blockHash number

/-- The reply to a lookup that comes after those in `asked`. -/
def reply (source : Source) (asked : List Lookup) (lookup : Lookup) : lookup.Reply :=
  match source.failure? asked lookup with
  | some failure => .error failure
  | none => .ok (source.find lookup)

end Source

/-- An overlay, the source of what it does not hold, and the lookups that have reached
the source so far. A state of its own never asks its source. -/
structure Database where
  overlay : Overlay
  source : Source
  asked : List Lookup := []

namespace Database

variable {ε α β : Type}

/-! ## What can be observed -/

/-- The nonce, balance and code of an account. -/
def account (db : Database) (address : Address) : Account :=
  match db.overlay.account? address with
  | some account => account
  | none => if db.overlay.isFork then db.source.account address else {}

/-- The value of a storage slot. -/
def slot (db : Database) (address : Address) (key : Word) : Word :=
  match db.overlay.slot? address key with
  | some value => value
  | none => if db.overlay.isFork then db.source.slot address key else 0

/-- The hash of a block. -/
def blockHash (db : Database) (number : Nat) : Hash :=
  match db.overlay.blockHash? number with
  | some hash => hash
  | none => if db.overlay.isFork then db.source.blockHash number else Overlay.standInHash number

/-- Two databases that cannot be told apart by reading them. -/
structure SameState (db db' : Database) : Prop where
  account : ∀ address, db.account address = db'.account address
  slot : ∀ address key, db.slot address key = db'.slot address key
  blockHash : ∀ number, db.blockHash number = db'.blockHash number

theorem SameState.refl (db : Database) : db.SameState db :=
  ⟨fun _ => rfl, fun _ _ => rfl, fun _ => rfl⟩

theorem SameState.trans {first second third : Database} (h : first.SameState second)
    (h' : second.SameState third) : first.SameState third where
  account address := (h.account address).trans (h'.account address)
  slot address key := (h.slot address key).trans (h'.slot address key)
  blockHash number := (h.blockHash number).trans (h'.blockHash number)

end Database

/-! ## Looking up -/

namespace Overlay

variable {overlay : Overlay} {address : Address}

theorem getElem?_hold (overlay : Overlay) (address other : Address) (held : HeldAccount) :
    (overlay.hold address held).accounts[other]? =
      if address = other then some held else overlay.accounts[other]? := by
  simp only [hold, Std.ExtTreeMap.getElem?_insert, Std.LawfulEqCmp.compare_eq_iff_eq]

theorem account?_hold (overlay : Overlay) (address other : Address) (held : HeldAccount) :
    (overlay.hold address held).account? other =
      if address = other then some held.account else overlay.account? other := by
  simp only [account?, getElem?_hold]
  split
  next => rfl
  next => rfl

theorem slot?_hold_of_ne (overlay : Overlay) {other : Address} (hne : address ≠ other)
    (held : HeldAccount) (key : Word) :
    (overlay.hold address held).slot? other key = overlay.slot? other key := by
  simp only [slot?, getElem?_hold, if_neg hne]

theorem getElem?_of_account?_eq_none (h : overlay.account? address = none) :
    overlay.accounts[address]? = none := by
  simpa [account?] using h

/-- An account of which the overlay holds a slot at least is held itself. -/
theorem getElem?_of_isSome_account? (h : (overlay.account? address).isSome) :
    overlay.accounts[address]? = some (overlay.held address) := by
  unfold account? at h
  unfold held
  cases hheld : overlay.accounts[address]? with
  | none => simp [hheld] at h
  | some held => rfl

/-- Storing a value in the overlay's own copy of a slot is seen at that slot alone. -/
theorem slot?_learn_slot {key : Word} (value : Word) (hheld : (overlay.account? address).isSome)
    (other : Address) (otherKey : Word) :
    (overlay.learn (.slot address key) value).slot? other otherKey =
      if address = other ∧ key = otherKey then some value else overlay.slot? other otherKey := by
  by_cases haddress : address = other
  · subst haddress
    simp only [learn, slot?, getElem?_hold, getElem?_of_isSome_account? hheld, if_true,
      Std.ExtTreeMap.getElem?_insert, Std.LawfulEqCmp.compare_eq_iff_eq, true_and]
    by_cases hkey : key = otherKey
    · simp only [hkey, if_true]
    · simp only [hkey, if_false]
  · rw [learn, slot?_hold_of_ne overlay haddress, if_neg (fun h => haddress h.1)]

theorem account?_learn_slot {key : Word} (value : Word)
    (hheld : (overlay.account? address).isSome) (other : Address) :
    (overlay.learn (.slot address key) value).account? other = overlay.account? other := by
  rw [learn, account?_hold]
  split
  next haddress =>
    subst haddress
    rw [account?, getElem?_of_isSome_account? hheld]
    rfl
  next => rfl

end Overlay

namespace Database

variable {ε α : Type} {db : Database}

/-- Holding an account as it is observed anyway, with storage that is observed as
before, changes nothing that can be observed. -/
theorem sameState_hold {address : Address} {held : HeldAccount} {asked : List Lookup}
    (haccount : held.account = db.account address)
    (hslot : ∀ key, slot { db with overlay := db.overlay.hold address held, asked } address key =
      db.slot address key) :
    SameState { db with overlay := db.overlay.hold address held, asked } db where
  account other := by
    by_cases haddress : address = other
    · subst haddress
      simp only [account, Overlay.account?_hold, if_true]
      exact haccount
    · simp only [account, Overlay.account?_hold, if_neg haddress]
      rfl
  slot other key := by
    by_cases haddress : address = other
    · subst haddress
      exact hslot key
    · simp only [slot, Overlay.slot?_hold_of_ne db.overlay haddress]
      rfl
  blockHash number := rfl

/-- Storing a slot as it is observed anyway changes nothing that can be observed. -/
theorem sameState_learn_slot {address : Address} {key : Word} {asked : List Lookup}
    (hheld : (db.overlay.account? address).isSome) :
    SameState
      { db with overlay := db.overlay.learn (.slot address key) (db.slot address key), asked }
      db where
  account other := by
    simp only [account, Overlay.account?_learn_slot _ hheld]
    rfl
  slot other otherKey := by
    by_cases hsame : address = other ∧ key = otherKey
    · obtain ⟨rfl, rfl⟩ := hsame
      simp [slot, Overlay.slot?_learn_slot _ hheld]
    · simp only [slot, Overlay.slot?_learn_slot _ hheld, if_neg hsame]
      rfl
  blockHash number := rfl

/-- Storing a block hash as it is observed anyway changes nothing that can be observed. -/
theorem sameState_learn_blockHash {number : Nat} {asked : List Lookup} :
    SameState
      { db with overlay := db.overlay.learn (.blockHash number) (db.blockHash number), asked }
      db where
  account address := rfl
  slot address key := rfl
  blockHash other := by
    simp only [blockHash, Overlay.learn, Overlay.blockHash?, Std.ExtTreeMap.getElem?_insert,
      Std.LawfulEqCmp.compare_eq_iff_eq]
    by_cases hnumber : number = other
    · simp only [hnumber, if_true]
    · simp only [if_neg hnumber]
      rfl

/-- What a fork learns from its source could be observed before. -/
theorem sameState_learn (hfork : db.overlay.isFork = true) {lookup : Lookup}
    (hlacks : db.overlay.Lacks lookup) (asked : List Lookup) :
    SameState { db with overlay := db.overlay.learn lookup (db.source.find lookup), asked } db := by
  cases lookup with
  | account address =>
      have hnone : db.overlay.account? address = none := hlacks
      refine sameState_hold ?_ ?_
      · simp only [account, hnone, hfork, if_true, Source.find]
      · intro key
        simp only [slot, Overlay.slot?, Overlay.getElem?_hold, if_true,
          Overlay.getElem?_of_account?_eq_none hnone, Std.ExtTreeMap.getElem?_empty]
        rfl
  | slot address key =>
      -- The account is held by now, so only the one slot is learned.
      have hvalue : db.slot address key = db.source.find (.slot address key) := by
        simp only [slot, hlacks.2, hfork, if_true, Source.find]
      rw [← hvalue]
      exact sameState_learn_slot hlacks.1
  | blockHash number =>
      have hnone : db.overlay.blockHash? number = none := hlacks
      have hhash : db.blockHash number = db.source.find (.blockHash number) := by
        simp only [blockHash, hnone, hfork, if_true, Source.find]
      rw [← hhash]
      exact sameState_learn_blockHash

/-- What a state of its own assumes could be observed before. -/
theorem sameState_assume (hown : db.overlay.isFork = false) {lookup : Lookup}
    (hlacks : db.overlay.Lacks lookup) :
    SameState { db with overlay := db.overlay.assume lookup } db := by
  cases lookup with
  | account address =>
      have hnone : db.overlay.account? address = none := hlacks
      refine sameState_hold ?_ ?_
      · simp [account, hnone, hown]
      · intro key
        simp [slot, Overlay.slot?, Overlay.getElem?_hold, hown,
          Overlay.getElem?_of_account?_eq_none hnone]
  | slot address key =>
      have hvalue : db.slot address key = 0 := by simp [slot, hlacks.2, hown]
      rw [Overlay.assume, ← hvalue]
      exact sameState_learn_slot hlacks.1
  | blockHash number =>
      have hnone : db.overlay.blockHash? number = none := hlacks
      have hhash : db.blockHash number = Overlay.standInHash number := by
        simp [blockHash, hnone, hown]
      rw [Overlay.assume, ← hhash]
      exact sameState_learn_blockHash

/-! ## Running computations -/

/-- Answers the lookups of a dialogue from the source. -/
def resume (db : Database) (dialogue : Lookups (Except ε α × Overlay)) :
    Except ε α × Database :=
  let reply (asked : List Lookup) (lookup : Lookup) :=
    (db.source.reply asked lookup, asked ++ [lookup])
  let ending := dialogue.runWith reply db.asked
  (ending.1.1, { db with overlay := ending.1.2, asked := ending.2 })

/-- Runs a computation on a database. -/
def run (db : Database) (computation : Overlaid ε α) : Except ε α × Database :=
  db.resume (computation.run.run db.overlay)

theorem resume_ask (db : Database) (lookup : Lookup)
    (next : lookup.Reply → Lookups (Except ε α × Overlay)) :
    db.resume (.ask lookup next) =
      { db with asked := db.asked ++ [lookup] }.resume (next (db.source.reply db.asked lookup)) :=
  rfl

/-- A dialogue that only looks leaves the state as it is, and then changes the overlay
as `Final` tells; not at all if it fails. -/
theorem resume_of_looking {Final : Overlay → α → Overlay → Prop}
    {dialogue : Lookups (Except ε α × Overlay)} (h : Looking Final db.overlay dialogue) :
    ∃ seen : Database, seen.SameState db ∧
      ((∃ error, db.resume dialogue = (.error error, seen)) ∨
        ∃ value after, db.resume dialogue = (.ok value, { seen with overlay := after }) ∧
          Final seen.overlay value after) := by
  generalize hoverlay : db.overlay = overlay at h
  -- Each lookup moves the database to one with the same state, from which the rest of the
  -- dialogue goes on; the log of lookups differs, so `db` is general.
  induction h generalizing db with
  | failed overlay error =>
      subst hoverlay
      exact ⟨db, .refl db, .inl ⟨error, rfl⟩⟩
  | @done overlay after value hfinal =>
      subst hoverlay
      exact ⟨db, .refl db, .inr ⟨value, after, rfl, hfinal⟩⟩
  | @asked overlay lookup next hfork hlacks hfound hfailed ih =>
      subst hoverlay
      rw [resume_ask, Source.reply]
      cases db.source.failure? db.asked lookup with
      | none =>
          have hlearned := sameState_learn hfork hlacks (db.asked ++ [lookup])
          obtain ⟨seen, hsame, hends⟩ := @ih (db.source.find lookup)
            { db with
              overlay := db.overlay.learn lookup (db.source.find lookup)
              asked := db.asked ++ [lookup] } rfl
          exact ⟨seen, hsame.trans hlearned, hends⟩
      | some failure =>
          obtain ⟨error, hnext⟩ := hfailed failure
          dsimp only
          rw [hnext]
          exact ⟨{ db with asked := db.asked ++ [lookup] },
            ⟨fun _ => rfl, fun _ _ => rfl, fun _ => rfl⟩, .inl ⟨error, rfl⟩⟩
  | assumed hfork hlacks hrest ih =>
      subst hoverlay
      obtain ⟨seen, hsame, hends⟩ := @ih { db with overlay := db.overlay.assume _ } rfl
      exact ⟨seen, hsame.trans (sameState_assume hfork hlacks), hends⟩

theorem run_pure (db : Database) (value : α) :
    db.run (pure value : Overlaid ε α) = (.ok value, db) := rfl

theorem run_throw (db : Database) (error : ε) :
    db.run (throw error : Overlaid ε α) = (.error error, db) := rfl

theorem run_bind (db : Database) (x : Overlaid ε α) (f : α → Overlaid ε β) :
    db.run (x >>= f) =
      match db.run x with
      | (.ok value, after) => after.run (f value)
      | (.error error, after) => (.error error, after) := by
  have hdialogue : (x >>= f).run.run db.overlay =
      (x.run.run db.overlay).bind fun ending =>
        match ending.1 with
        | .ok value => (f value).run.run ending.2
        | .error error => .done (.error error, ending.2) := by
    refine congrArg (Dialogue.bind (x.run.run db.overlay)) ?_
    funext ending
    rcases ending with ⟨error | value, after⟩
    · rfl
    · rfl
  rw [run, resume, hdialogue, Dialogue.runWith_bind, run, resume]
  generalize (x.run.run db.overlay).runWith _ _ = ending
  rcases ending with ⟨⟨error | value, after⟩, asked⟩
  · rfl
  · rfl

theorem run_map (db : Database) (f : α → β) (x : Overlaid ε α) :
    db.run (f <$> x) = ((db.run x).1.map f, (db.run x).2) := by
  rw [← bind_pure_comp, run_bind]
  rcases db.run x with ⟨error | value, after⟩
  · rfl
  · rfl

theorem run_adapt {ε' : Type} (db : Database) (f : ε → ε') (x : Overlaid ε α) :
    db.run (ExceptT.adapt f x) = ((db.run x).1.mapError f, (db.run x).2) := by
  have hdialogue : (ExceptT.adapt f x).run.run db.overlay =
      (x.run.run db.overlay).bind fun ending => .done (ending.1.mapError f, ending.2) := rfl
  rw [run, resume, hdialogue, Dialogue.runWith_bind]
  rfl

/-- A transaction that fails leaves the state as it was; one that succeeds commits a
world to it. -/
theorem run_transact (db : Database) (config : Evm.Config) (block : BlockEnv) (tx : Transaction) :
    ∃ seen : Database, seen.SameState db ∧
      ((∃ failure, db.run (Evm.transact config block tx) = (.error failure, seen)) ∨
        ∃ result world, db.run (Evm.transact config block tx) =
          (.ok result, { seen with overlay := seen.overlay.commit world })) := by
  obtain ⟨seen, hsame, hends⟩ := resume_of_looking
    (Evm.transact_looksUntil_commit config block tx db.overlay)
  refine ⟨seen, hsame, hends.imp_right ?_⟩
  rintro ⟨result, after, hrun, world, rfl⟩
  exact ⟨result, world, hrun⟩

theorem sameState_of_transact_error {after : Database} {config : Evm.Config} {block : BlockEnv}
    {tx : Transaction} {failure : Evm.Failure}
    (h : db.run (Evm.transact config block tx) = (.error failure, after)) : after.SameState db := by
  obtain ⟨seen, hsame, ⟨failure', hrun⟩ | ⟨result, world, hrun⟩⟩ := db.run_transact config block tx
  · rw [hrun] at h
    cases h
    exact hsame
  · rw [hrun] at h
    cases h

end Database

end ForkReplay
