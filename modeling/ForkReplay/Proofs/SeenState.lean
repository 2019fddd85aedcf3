import ForkReplay.Proofs.Courses
import ForkReplay.Proofs.TwinReplays

/-!
# What a transaction sees

What a transaction sees of an account is its own record of it, or else the account of the
database behind it. It does not matter whether the overlay holds that account already: looking
it up shows nothing new. What a transaction sees at its end is what is read after its commit.
-/

namespace ForkReplay

namespace World

variable {world : World} {db after : Database} {address other : Address} {key : Word}

/-- An account as the transaction sees it on a database, looked up or not. -/
def seen (world : World) (db : Database) (address : Address) : AccessedAccount :=
  match world.accounts[address]? with
  | some entry => entry
  | none => { account := db.account address }

/-- The value of a slot as the transaction sees it on a database, looked up or not. -/
def seenSlot (world : World) (db : Database) (address : Address) (key : Word) : Word :=
  (world.seen db address).lastValue key (db.slot address key)

theorem seen_of_extends (h : after.Extends db) (world : World) (address : Address) :
    world.seen after address = world.seen db address := by
  rw [seen, seen, h.state.account]

theorem seenSlot_of_extends (h : after.Extends db) (world : World) (address : Address)
    (key : Word) : world.seenSlot after address key = world.seenSlot db address key := by
  rw [seenSlot, seenSlot, seen_of_extends h, h.state.slot]

theorem seen_put (world : World) (db : Database) (address other : Address)
    (entry : AccessedAccount) : (world.put address entry).seen db other =
      if address = other then entry else world.seen db other := by
  unfold seen put
  by_cases haddress : address = other
  · rw [if_pos haddress, haddress, Std.ExtTreeMap.getElem?_insert_self]
  · simp only [Std.ExtTreeMap.getElem?_insert, Std.LawfulEqCmp.compare_eq_iff_eq, if_neg haddress]

/-- An account that can be accessed is what the transaction sees. -/
theorem accessed_eq_seen (h : world.missingAccount? db.overlay address = none) :
    world.accessed db.overlay address = world.seen db address := by
  unfold accessed seen
  cases hentry : world.accounts[address]? with
  | some entry => rfl
  | none =>
      unfold missingAccount? at h
      rw [Std.ExtTreeMap.contains_eq_isSome_getElem?, hentry] at h
      split at h
      next hheld => rw [Database.account?_of_holds hheld, Option.getD_some]
      next => cases h

theorem account_eq_seen (h : world.missingAccount? db.overlay address = none) :
    world.account db.overlay address = (world.seen db address).account :=
  congrArg AccessedAccount.account (accessed_eq_seen h)

theorem seen_modify (h : world.missingAccount? db.overlay address = none)
    (change : AccessedAccount → AccessedAccount) (other : Address) :
    (world.modify db.overlay address change).seen db other =
      if address = other then change (world.seen db other) else world.seen db other := by
  rw [modify, seen_put, accessed_eq_seen h]
  split
  next haddress => rw [haddress]
  next => rfl

/-- Accessing an account changes nothing that the transaction sees. -/
theorem seen_load (h : world.missingAccount? db.overlay address = none) (other : Address) :
    (world.load db.overlay address).seen db other = world.seen db other := by
  unfold load
  split
  next => rfl
  next =>
    rw [seen_put, accessed_eq_seen h]
    split
    next haddress => rw [haddress]
    next => rfl

theorem getElem?_load_of_ne (world : World) (overlay : Overlay) (h : other ≠ address) :
    (world.load overlay address).accounts[other]? = world.accounts[other]? := by
  unfold load
  split
  next => rfl
  next =>
    simp only [put, Std.ExtTreeMap.getElem?_insert, Std.LawfulEqCmp.compare_eq_iff_eq,
      if_neg h.symm]

/-- An account that can be accessed still can be once another one has been. -/
theorem missingAccount?_modify {overlay : Overlay}
    (h : world.missingAccount? overlay other = none)
    (change : AccessedAccount → AccessedAccount) :
    (world.modify overlay address change).missingAccount? overlay other = none := by
  unfold missingAccount? at h ⊢
  split at h
  next hknown =>
    refine if_pos ?_
    obtain hheld | hheld := Bool.or_eq_true_iff.mp hknown
    · simp [modify, put, hheld]
    · simp [hheld]
  next => cases h

theorem missingAccount?_load {overlay : Overlay}
    (h : world.missingAccount? overlay other = none) (address : Address) :
    (world.load overlay address).missingAccount? overlay other = none := by
  unfold load
  split
  next => exact h
  next => exact missingAccount?_modify h id

/-- An account one of whose slots can be accessed can be accessed itself. -/
theorem missingAccount?_of_missingSlot? (h : world.missingSlot? db.overlay address key = none) :
    world.missingAccount? db.overlay address = none := by
  unfold missingAccount?
  rw [Std.ExtTreeMap.contains_eq_isSome_getElem?]
  unfold missingSlot? accessed at h
  cases hentry : world.accounts[address]? with
  | some entry => rfl
  | none =>
      rw [hentry] at h
      cases hheld : db.overlay.account? address with
      | some account => rfl
      | none =>
          have hslot : db.overlay.slot? address key = none := by
            rw [Overlay.slot?, Overlay.getElem?_of_account?_eq_none hheld]
          simp [hslot, hheld] at h

/-- A slot that can be accessed is what the transaction sees. -/
theorem slot_eq_seenSlot (h : world.missingSlot? db.overlay address key = none)
    (hstays : (world.seen db address).destroyed = false) :
    (world.slot db.overlay address key).present = world.seenSlot db address key := by
  have hentry := accessed_eq_seen (missingAccount?_of_missingSlot? h)
  have hheld := holds_of_missingSlot? h
  unfold slot seenSlot AccessedAccount.lastValue
  rw [hentry] at hheld ⊢
  rw [hstays]
  dsimp only
  cases hslot : (world.seen db address).slots[key]? with
  | some slot => rfl
  | none =>
      cases hcreated : (world.seen db address).created with
      | true => rfl
      | false => simp [Database.slot?_of_holds (hheld hslot hcreated)]

theorem seenSlot_modify (h : world.missingAccount? db.overlay address = none)
    {change : AccessedAccount → AccessedAccount}
    (hchange : ∀ entry key before, (change entry).lastValue key before = entry.lastValue key before)
    (other : Address) (key : Word) :
    (world.modify db.overlay address change).seenSlot db other key =
      world.seenSlot db other key := by
  rw [seenSlot, seenSlot, seen_modify h]
  split
  next => exact hchange _ _ _
  next => rfl

/-- Recording a slot shows it with its present value, and changes no other slot. -/
theorem seenSlot_putSlot (h : world.missingAccount? db.overlay address = none)
    (hstays : (world.seen db address).destroyed = false) (key : Word) (slot : Slot)
    (other : Address) (otherKey : Word) :
    (world.putSlot db.overlay address key slot).seenSlot db other otherKey =
      if address = other ∧ key = otherKey then slot.present
      else world.seenSlot db other otherKey := by
  rw [putSlot, seenSlot, seenSlot, seen_modify h]
  by_cases haddress : address = other
  · subst haddress
    unfold AccessedAccount.lastValue
    simp only [hstays, Std.ExtTreeMap.getElem?_insert, Std.LawfulEqCmp.compare_eq_iff_eq,
      if_true, true_and]
    by_cases hkey : key = otherKey
    · simp [hkey]
    · simp [hkey]
  · rw [if_neg haddress, if_neg fun hsame => haddress hsame.1]

end World

/-! ## Views -/

/-- Accounts apart from their balances. -/
@[ext]
structure View where
  nonce : Address → UInt64
  code : Address → Code
  slot : Address → Word → Word

namespace View

/-- The view with another nonce of an account. -/
def withNonce (view : View) (address : Address) (nonce : UInt64) : View :=
  { view with nonce := fun other => if address = other then nonce else view.nonce other }

/-- The view with another value of a slot. -/
def withSlot (view : View) (address : Address) (key value : Word) : View :=
  { view with
    slot := fun other otherKey =>
      if address = other ∧ key = otherKey then value else view.slot other otherKey }

theorem withSlot_self (view : View) (address : Address) (key : Word) :
    view.withSlot address key (view.slot address key) = view := by
  apply View.ext
  · rfl
  · rfl
  · funext other otherKey
    change (if _ then _ else _) = _
    split
    next hsame => rw [hsame.1, hsame.2]
    next => rfl

end View

/-- What can be read of the accounts apart from their balances. -/
def Database.view (db : Database) : View where
  nonce address := (db.account address).nonce
  code address := (db.account address).code
  slot := db.slot

namespace World

/-- What a transaction sees of the accounts apart from their balances. -/
def view (world : World) (db : Database) : View where
  nonce address := (world.seen db address).account.nonce
  code address := (world.seen db address).account.code
  slot := world.seenSlot db

variable {world : World} {db after : Database} {address : Address} {key : Word}

theorem view_of_extends (h : after.Extends db) (world : World) :
    world.view after = world.view db := by
  apply View.ext
  · funext address
    exact congrArg (fun entry => entry.account.nonce) (seen_of_extends h world address)
  · funext address
    exact congrArg (fun entry => entry.account.code) (seen_of_extends h world address)
  · funext address key
    exact seenSlot_of_extends h world address key

theorem view_load (h : world.missingAccount? db.overlay address = none) :
    (world.load db.overlay address).view db = world.view db := by
  apply View.ext
  · funext other
    exact congrArg (fun entry => entry.account.nonce) (seen_load h other)
  · funext other
    exact congrArg (fun entry => entry.account.code) (seen_load h other)
  · funext other key
    exact congrArg (fun entry => entry.lastValue key (db.slot other key)) (seen_load h other)

/-- A change that leaves nonce, code and slots of an account. -/
theorem view_modify (h : world.missingAccount? db.overlay address = none)
    {change : AccessedAccount → AccessedAccount}
    (hnonce : ∀ entry, (change entry).account.nonce = entry.account.nonce)
    (hcode : ∀ entry, (change entry).account.code = entry.account.code)
    (hslots : ∀ entry key before,
      (change entry).lastValue key before = entry.lastValue key before) :
    (world.modify db.overlay address change).view db = world.view db := by
  apply View.ext
  · funext other
    change ((world.modify db.overlay address change).seen db other).account.nonce = _
    rw [seen_modify h]
    split
    next => exact hnonce _
    next => rfl
  · funext other
    change ((world.modify db.overlay address change).seen db other).account.code = _
    rw [seen_modify h]
    split
    next => exact hcode _
    next => rfl
  · funext other key
    exact seenSlot_modify h hslots other key

theorem view_touch (h : world.missingAccount? db.overlay address = none) :
    (world.touch db.overlay address).view db = world.view db :=
  view_modify h (fun _ => rfl) (fun _ => rfl) fun _ _ _ => rfl

theorem view_putSlot (h : world.missingAccount? db.overlay address = none)
    (hstays : (world.seen db address).destroyed = false) (key : Word) (slot : Slot) :
    (world.putSlot db.overlay address key slot).view db =
      (world.view db).withSlot address key slot.present := by
  have haccount (other : Address) :
      ((world.putSlot db.overlay address key slot).seen db other).account =
        (world.seen db other).account := by
    rw [putSlot, seen_modify h]
    split
    next => rfl
    next => rfl
  apply View.ext
  · funext other
    exact congrArg Account.nonce (haccount other)
  · funext other
    exact congrArg Account.code (haccount other)
  · funext other otherKey
    exact seenSlot_putSlot h hstays key slot other otherKey

/-! ## What is written back -/

/-- Whatever the transaction has accessed is written back, and nothing of it was destroyed. -/
def Writes (world : World) : Prop :=
  ∀ (address : Address) (entry : AccessedAccount), world.accounts[address]? = some entry →
    entry.touched = true ∧ entry.destroyed = false

theorem Writes.modify {overlay : Overlay} {change : AccessedAccount → AccessedAccount}
    (h : ∀ other entry, other ≠ address → world.accounts[other]? = some entry →
      entry.touched = true ∧ entry.destroyed = false)
    (hchange : (change (world.accessed overlay address)).touched = true ∧
      (change (world.accessed overlay address)).destroyed = false) :
    (world.modify overlay address change).Writes := by
  intro other entry hentry
  simp only [World.modify, put, Std.ExtTreeMap.getElem?_insert,
    Std.LawfulEqCmp.compare_eq_iff_eq] at hentry
  split at hentry
  next =>
    cases hentry
    exact hchange
  next hother => exact h other entry (Ne.symm hother) hentry

theorem Writes.destroyed (h : world.Writes) (db : Database) (address : Address) :
    (world.seen db address).destroyed = false := by
  unfold seen
  cases hentry : world.accounts[address]? with
  | some entry => exact (h address entry hentry).2
  | none => rfl

end World

namespace Database

variable {db : Database} {world : World}

/-- A commit leaves the accounts as the transaction has seen them last. -/
theorem account_commit_eq_seen (h : world.Writes) (address : Address) :
    (db.commit world).account address = (world.seen db address).account := by
  rw [account_commit, World.seen]
  cases hentry : world.accounts[address]? with
  | none => rfl
  | some entry => simp [h address entry hentry]

/-- A commit leaves the slots as the transaction has seen them last. -/
theorem slot_commit_eq_seenSlot (h : world.Writes) (hremembers : db.Remembers (db.commit world))
    (address : Address) (key : Word) :
    (db.commit world).slot address key = world.seenSlot db address key := by
  rw [slot_commit hremembers, World.seenSlot, World.seen]
  cases hentry : world.accounts[address]? with
  | none => simp [AccessedAccount.lastValue]
  | some entry => simp [h address entry hentry]

/-- A slot that the transaction has left stays, whatever is written back of its account. -/
theorem slot_commit_of_seen {address : Address} {key : Word}
    (hremembers : db.Remembers (db.commit world))
    (hseen : world.seenSlot db address key = db.slot address key) :
    (db.commit world).slot address key = db.slot address key := by
  rw [World.seenSlot, World.seen] at hseen
  rw [slot_commit hremembers]
  cases hentry : world.accounts[address]? with
  | none => rfl
  | some entry =>
      rw [hentry] at hseen
      dsimp only at hseen ⊢
      split
      next => exact hseen
      next => rfl

theorem code_commit_of_seen {address : Address} (hstays : (world.seen db address).destroyed = false)
    (hseen : (world.seen db address).account.code = (db.account address).code) :
    ((db.commit world).account address).code = (db.account address).code := by
  rw [World.seen] at hseen hstays
  rw [account_commit]
  cases hentry : world.accounts[address]? with
  | none => rfl
  | some entry =>
      rw [hentry] at hseen hstays
      dsimp only at hseen hstays ⊢
      rw [hstays]
      split
      next => exact hseen
      next => rfl

theorem view_commit (h : world.Writes) (hremembers : db.Remembers (db.commit world)) :
    (db.commit world).view = world.view db := by
  apply View.ext
  · funext address
    exact congrArg Account.nonce (account_commit_eq_seen h address)
  · funext address
    exact congrArg Account.code (account_commit_eq_seen h address)
  · funext address key
    exact slot_commit_eq_seenSlot h hremembers address key

/-! ## Lookups that succeed -/

/-- No lookup on the database fails. A state of its own looks nothing up at its source. -/
def Answers (db : Database) : Prop :=
  db.overlay.isFork = true → ∀ asked lookup, db.source.failure? asked lookup = none

theorem Answers.of_extends {after : Database} (h : db.Answers) (hafter : after.Extends db) :
    after.Answers := by
  intro hfork
  rw [hafter.source]
  exact h (hafter.isFork ▸ hfork)

end Database

/-- A state of its own has what is missing at hand. -/
theorem Overlay.supply_of_own {missing : Overlay → Option Lookup} (rounds : Nat)
    {overlay : Overlay} (hown : overlay.isFork = false) :
    ∃ after, overlay.supply missing rounds = .done (.ok (), after) := by
  induction rounds generalizing overlay with
  | zero => exact ⟨overlay, rfl⟩
  | succ rounds ih =>
      rw [supply]
      cases missing overlay with
      | none => exact ⟨overlay, rfl⟩
      | some lookup =>
          have hassumed : (overlay.assume lookup).isFork = false := by
            cases lookup with
            | _ => exact hown
          obtain ⟨after, hafter⟩ := ih hassumed
          refine ⟨after, ?_⟩
          simp only [fetch, hown, Bool.false_eq_true, if_false, Dialogue.done_bind, hafter]

namespace Database

variable {db : Database} {missing : Overlay → Option Lookup}

/-- On a database that answers, what is missing is looked up, and all of it is found in enough
rounds. -/
theorem Answers.resume_supply (h : db.Answers)
    (hmissing : ∀ {overlay lookup}, missing overlay = some lookup → overlay.Lacks lookup)
    (rounds : Nat) :
    ∃ after : Database, after.Extends db ∧
      (Settles missing rounds db → missing after.overlay = none) ∧
      db.resume (db.overlay.supply missing rounds) = (.ok (), after) := by
  have hends := ends_supply hmissing db rounds
  cases hfork : db.overlay.isFork with
  | true =>
      obtain ⟨_, after, hafter, hnone, hsupply⟩ := hends.succeeds (h hfork)
      exact ⟨after, hafter, hnone, hsupply⟩
  | false =>
      obtain ⟨overlay, hsupply⟩ := @Overlay.supply_of_own missing rounds _ hfork
      rw [hsupply] at hends ⊢
      cases hends with
      | well hafter hnone => exact ⟨_, hafter, hnone, rfl⟩

/-! ## States that keep answering -/

/-- No lookup fails, and no account of a fork is known not to exist. A state of its own meets
both. -/
structure Steady (db : Database) : Prop where
  answers : db.Answers
  exist : db.overlay.isFork = true → ∀ address, ¬ db.overlay.isAbsent address

theorem Steady.of_own (h : db.overlay.isFork = false) : db.Steady where
  answers hfork := absurd hfork (by simp [h])
  exist hfork := absurd hfork (by simp [h])

theorem Steady.of_extends {after : Database} (h : db.Steady) (hafter : after.Extends db) :
    after.Steady where
  answers := h.answers.of_extends hafter
  exist hfork address habsent :=
    h.exist (hafter.isFork ▸ hfork) address (hafter.absent (hafter.isFork ▸ hfork) address habsent)

theorem Steady.remembers (h : db.Steady) (after : Database) : db.Remembers after :=
  fun hfork address hforgets => absurd hforgets.1 (h.exist hfork address)

/-- A transaction that destroys nothing leaves a steady state. -/
theorem Steady.commit (h : db.Steady) {world : World} (hwrites : world.Writes) :
    (db.commit world).Steady where
  answers hfork := h.answers ((db.overlay.isFork_commit world).symm.trans hfork)
  exist hfork address habsent := by
    have hdb := (db.overlay.isFork_commit world).symm.trans hfork
    obtain ⟨held, hheld, hstanding⟩ := Overlay.isAbsent_iff.mp habsent
    rw [Database.commit, Overlay.getElem?_commit] at hheld
    cases hentry : world.accounts[address]? with
    | none =>
        rw [hentry] at hheld
        exact h.exist hdb address (Overlay.isAbsent_iff.mpr ⟨held, hheld, hstanding⟩)
    | some entry =>
        obtain ⟨htouched, hstays⟩ := hwrites address entry hentry
        rw [hentry] at hheld
        simp only [htouched, if_true, Option.some.injEq] at hheld
        rw [← hheld, AccessedAccount.standing_written hstays] at hstanding
        split at hstanding
        next => cases hstanding
        next => cases hstanding

end Database

end ForkReplay
