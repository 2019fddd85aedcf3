import ForkReplay.Proofs.Agreement

/-!
# Runs on two databases

Two databases that read the same may hold different parts of their state, so a transaction
looks up different things on them. As long as no lookup fails, it comes to the same on both,
and they still read the same.
-/

namespace ForkReplay

namespace Database

variable {ε ε' α β : Type} {db other after after' : Database}

/-- Two databases that read the same and whose lookups succeed. The hashes of blocks count
for numbers of 64 bits only. -/
structure Alike (db other : Database) : Prop where
  account : ∀ address, db.account address = other.account address
  slot : ∀ address key, db.slot address key = other.slot address key
  blockHash : ∀ number < UInt64.size, db.blockHash number = other.blockHash number
  succeeds : ∀ asked lookup, db.source.failure? asked lookup = none
  succeeds' : ∀ asked lookup, other.source.failure? asked lookup = none

/-- A database that has looked up more. -/
structure Extends (after db : Database) : Prop where
  state : after.SameState db
  grows : db.overlay.Grows after.overlay
  source : after.source = db.source
  isFork : after.overlay.isFork = db.overlay.isFork
  isAbsent : ∀ address, db.overlay.Decides address →
    after.overlay.isAbsent address = db.overlay.isAbsent address

theorem Extends.refl (db : Database) : db.Extends db :=
  ⟨.refl db, fun _ h => h, rfl, rfl, fun _ _ => rfl⟩

theorem Extends.decides (h : after.Extends db) {address : Address}
    (hdecides : db.overlay.Decides address) : after.overlay.Decides address :=
  hdecides.imp h.isFork.trans (h.grows address)

/-- What a fork learns of is never absent. -/
theorem Extends.absent (h : after.Extends db) (hfork : db.overlay.isFork = true)
    (address : Address) (habsent : after.overlay.isAbsent address) :
    db.overlay.isAbsent address :=
  h.isAbsent address (.inl hfork) ▸ habsent

theorem Extends.trans {last : Database} (h : last.Extends after) (h' : after.Extends db) :
    last.Extends db where
  state := h.state.trans h'.state
  grows address hheld := h.grows address (h'.grows address hheld)
  source := h.source.trans h'.source
  isFork := h.isFork.trans h'.isFork
  isAbsent address hdecides :=
    (h.isAbsent address (h'.decides hdecides)).trans (h'.isAbsent address hdecides)

/-- Some lookup may fail. -/
def Fails (db : Database) : Prop := ∃ asked lookup, db.source.failure? asked lookup ≠ none

theorem Extends.fails (h : after.Extends db) (hfails : after.Fails) : db.Fails := by
  unfold Fails at hfails ⊢
  rwa [h.source] at hfails

/-- How a computation that only looks up ends on a database: well, with a value as wanted, or
with what a failed lookup makes of it. -/
inductive Ends (blame : LookupFailure → ε) (db : Database) (wanted : α → Database → Prop) :
    Except ε α × Database → Prop where
  | well {value : α} {after : Database} (hafter : after.Extends db)
      (hvalue : wanted value after) : Ends blame db wanted (.ok value, after)
  | failed {after : Database} (failure : LookupFailure) (hafter : after.Extends db)
      (hfails : db.Fails) : Ends blame db wanted (.error (blame failure), after)

theorem Ends.mono {blame : LookupFailure → ε} {wanted wanted' : α → Database → Prop}
    {ending : Except ε α × Database} (h : Ends blame db wanted ending)
    (hwanted : ∀ value after, after.Extends db → wanted value after → wanted' value after) :
    Ends blame db wanted' ending := by
  cases h with
  | well hafter hvalue => exact .well hafter (hwanted _ _ hafter hvalue)
  | failed failure hafter hfails => exact .failed failure hafter hfails

/-- What ends on a database that has looked up more, ends so on the first one. -/
theorem Ends.of_extends {blame : LookupFailure → ε} {wanted : α → Database → Prop}
    {ending : Except ε α × Database} (h : Ends blame after wanted ending)
    (hafter : after.Extends db) : Ends blame db wanted ending := by
  cases h with
  | well hlast hvalue => exact .well (hlast.trans hafter) hvalue
  | failed failure hlast hfails => exact .failed failure (hlast.trans hafter) (hafter.fails hfails)

/-- Where no lookup fails, all ends well. -/
theorem Ends.succeeds {blame : LookupFailure → ε} {wanted : α → Database → Prop}
    {ending : Except ε α × Database} (h : Ends blame db wanted ending)
    (hsucceeds : ∀ asked lookup, db.source.failure? asked lookup = none) :
    ∃ value after, after.Extends db ∧ wanted value after ∧ ending = (.ok value, after) := by
  cases h with
  | well hafter hvalue => exact ⟨_, _, hafter, hvalue, rfl⟩
  | failed failure hafter hfails =>
      obtain ⟨asked, lookup, hfailure⟩ := hfails
      exact absurd (hsucceeds asked lookup) hfailure

theorem Alike.extend (h : db.Alike other) (hafter : after.Extends db)
    (hafter' : after'.Extends other) : after.Alike after' where
  account address :=
    ((hafter.state.account address).trans (h.account address)).trans
      (hafter'.state.account address).symm
  slot address key :=
    ((hafter.state.slot address key).trans (h.slot address key)).trans
      (hafter'.state.slot address key).symm
  blockHash number hnumber :=
    ((hafter.state.blockHash number).trans (h.blockHash number hnumber)).trans
      (hafter'.state.blockHash number).symm
  succeeds := hafter.source ▸ h.succeeds
  succeeds' := hafter'.source ▸ h.succeeds'

/-! ## What is held is read -/

theorem account?_of_holds {address : Address} (h : db.overlay.Holds (.account address)) :
    db.overlay.account? address = some (db.account address) := by
  obtain ⟨account, haccount⟩ := Option.isSome_iff_exists.mp h
  rw [Database.account, haccount]

theorem slot?_of_holds {address : Address} {key : Word}
    (h : db.overlay.Holds (.slot address key)) :
    db.overlay.slot? address key = some (db.slot address key) := by
  obtain ⟨value, hvalue⟩ := Option.isSome_iff_exists.mp h
  rw [Database.slot, hvalue]

theorem blockHash?_of_holds {number : Nat} (h : db.overlay.Holds (.blockHash number)) :
    db.overlay.blockHash? number = some (db.blockHash number) := by
  obtain ⟨hash, hhash⟩ := Option.isSome_iff_exists.mp h
  rw [Database.blockHash, hhash]

theorem Alike.agree (h : db.Alike other) : db.overlay.Agree other.overlay where
  account address hheld hheld' := by
    rw [account?_of_holds hheld, account?_of_holds hheld', h.account]
  slot address key hheld hheld' := by
    rw [slot?_of_holds hheld, slot?_of_holds hheld', h.slot]
  blockHash number hnumber hheld hheld' := by
    rw [blockHash?_of_holds hheld, blockHash?_of_holds hheld', h.blockHash number hnumber]

/-- An account that is held stays as it is while more is looked up. -/
theorem Extends.account? (h : after.Extends db) {address : Address}
    (hheld : db.overlay.Holds (.account address)) :
    after.overlay.account? address = db.overlay.account? address := by
  rw [account?_of_holds (h.grows address hheld), account?_of_holds hheld, h.state.account]

/-! ## Looking up -/

theorem resume_bind (db : Database) (dialogue : Lookups (Except ε α × Overlay))
    (next : Except ε α × Overlay → Lookups (Except ε' β × Overlay)) :
    db.resume (dialogue.bind next) =
      (db.resume dialogue).2.resume
        (next ((db.resume dialogue).1, (db.resume dialogue).2.overlay)) := by
  rw [resume, Dialogue.runWith_bind]
  rfl

theorem extends_learn (hfork : db.overlay.isFork = true) {lookup : Lookup}
    (hlacks : db.overlay.Lacks lookup) (asked : List Lookup) :
    Extends { db with overlay := db.overlay.learn lookup (db.source.find lookup), asked } db where
  state := sameState_learn hfork hlacks asked
  grows _ hheld := hheld.learn hlacks _
  source := rfl
  isFork := (Overlay.Learns.cons hlacks _ (.nil _)).isFork_eq
  isAbsent address _ := Overlay.isAbsent_learn hlacks _ address

theorem extends_assume (hown : db.overlay.isFork = false) {lookup : Lookup}
    (hlacks : db.overlay.Lacks lookup) :
    Extends { db with overlay := db.overlay.assume lookup } db where
  state := sameState_assume hown hlacks
  grows _ hheld := hheld.assume hlacks
  source := rfl
  isFork := by cases lookup <;> rfl
  isAbsent _ hdecides :=
    Overlay.isAbsent_assume hlacks (hdecides.resolve_left (by simp [hown]))

theorem extends_asked (db : Database) (asked : List Lookup) : Extends { db with asked } db where
  state := ⟨fun _ => rfl, fun _ _ => rfl, fun _ => rfl⟩
  grows _ hheld := hheld
  source := rfl
  isFork := rfl
  isAbsent _ _ := rfl

/-- A lookup goes on from a database that holds its answer, unless it fails. -/
theorem resume_fetch {lookup : Lookup} (hlacks : db.overlay.Lacks lookup) :
    ∃ (after : Database) (reply : Except LookupFailure Overlay), after.Extends db ∧
      (reply = .ok after.overlay ∧ after.overlay.Holds lookup ∨
        (∃ failure, reply = .error failure) ∧ after.overlay = db.overlay ∧ db.Fails) ∧
      ∀ next : Except LookupFailure Overlay → Lookups (Except ε α × Overlay),
        db.resume ((db.overlay.fetch lookup).bind next) = after.resume (next reply) := by
  unfold Overlay.fetch
  split
  next hfork =>
    cases hreply : db.source.failure? db.asked lookup with
    | none =>
        refine ⟨_, _, extends_learn hfork hlacks (db.asked ++ [lookup]),
          .inl ⟨rfl, Overlay.holds_learn hlacks _⟩, fun next => ?_⟩
        rw [Dialogue.ask_bind, resume_ask, Source.reply, hreply]
        rfl
    | some failure =>
        refine ⟨_, .error failure, extends_asked db (db.asked ++ [lookup]),
          .inr ⟨⟨_, rfl⟩, rfl, ?_⟩, fun next => ?_⟩
        · exact ⟨db.asked, lookup, by simp [hreply]⟩
        · rw [Dialogue.ask_bind, resume_ask, Source.reply, hreply]
          rfl
  next hown =>
    exact ⟨_, _, extends_assume (by simpa using hown) hlacks,
      .inl ⟨rfl, Overlay.holds_assume hlacks⟩, fun _ => rfl⟩

/-- After that many lookups that succeed, nothing is missing any more. -/
def Settles (missing : Overlay → Option Lookup) : Nat → Database → Prop
  | 0, db => missing db.overlay = none
  | rounds + 1, db => ∀ lookup, missing db.overlay = some lookup →
      ∀ after : Database, after.Extends db → after.overlay.Holds lookup →
        Settles missing rounds after

variable {missing : Overlay → Option Lookup}

theorem Settles.of_none {db : Database} (h : missing db.overlay = none) (rounds : Nat) :
    Settles missing rounds db := by
  cases rounds with
  | zero => exact h
  | succ rounds =>
      intro lookup hlookup
      rw [h] at hlookup
      cases hlookup

theorem Settles.succ {rounds : Nat} (h : Settles missing rounds db) :
    Settles missing (rounds + 1) db := by
  induction rounds generalizing db with
  | zero => exact .of_none h 1
  | succ rounds ih =>
      intro lookup hlookup after hafter hheld
      exact ih (h lookup hlookup after hafter hheld)

/-- Looking up what is missing finds all of it in enough rounds, unless a lookup fails. -/
theorem ends_supply
    (hmissing : ∀ {overlay lookup}, missing overlay = some lookup → overlay.Lacks lookup)
    (db : Database) (rounds : Nat) :
    Ends id db (fun _ after => Settles missing rounds db → missing after.overlay = none)
      (db.resume (db.overlay.supply missing rounds)) := by
  -- Each round goes on from the database with what the one before it has found.
  induction rounds generalizing db with
  | zero => exact .well (.refl db) id
  | succ rounds ih =>
      rw [Overlay.supply]
      cases hlookup : missing db.overlay with
      | none => exact .well (.refl db) fun _ => hlookup
      | some lookup =>
          obtain ⟨middle, reply, hmiddle, hreply, hresume⟩ := resume_fetch (hmissing hlookup)
            (ε := LookupFailure) (α := Unit)
          dsimp only
          rw [hresume]
          rcases hreply with ⟨rfl, hheld⟩ | ⟨⟨failure, rfl⟩, hoverlay, hfails⟩
          · exact ((ih middle).mono fun _ after _ hnone hsettles =>
              hnone (hsettles lookup hlookup middle hmiddle hheld)).of_extends hmiddle
          · rw [← hoverlay]
            exact .failed failure hmiddle hfails

/-- Enough rounds look up all that is missing. -/
theorem resume_supply (hsucceeds : ∀ asked lookup, db.source.failure? asked lookup = none)
    (hmissing : ∀ {overlay lookup}, missing overlay = some lookup → overlay.Lacks lookup)
    {rounds : Nat} (hsettles : Settles missing rounds db) :
    ∃ after : Database, after.Extends db ∧ missing after.overlay = none ∧
      db.resume (db.overlay.supply missing rounds) = (.ok (), after) := by
  obtain ⟨_, after, hafter, hnone, hresume⟩ := (ends_supply hmissing db rounds).succeeds hsucceeds
  exact ⟨after, hafter, hnone hsettles, hresume⟩

section Missing

variable {world : World} {address : Address} {overlay : Overlay} {lookup : Lookup}

theorem missingAccount?_of_holds (h : overlay.Holds (.account address)) :
    world.missingAccount? overlay address = none := by
  unfold World.missingAccount?
  rw [if_pos (Bool.or_eq_true_iff.mpr (.inr h))]

theorem eq_of_missingAccount? (h : world.missingAccount? overlay address = some lookup) :
    lookup = .account address := by
  unfold World.missingAccount? at h
  split at h
  next => cases h
  next =>
    cases h
    rfl

theorem settles_missingAccount (rounds : Nat) :
    Settles (fun overlay => world.missingAccount? overlay address) (rounds + 1) db := by
  intro lookup hlookup after hafter hheld
  obtain rfl := eq_of_missingAccount? hlookup
  exact .of_none (missingAccount?_of_holds hheld) rounds

theorem missingSlot?_of_holds {key : Word} (h : overlay.Holds (.slot address key)) :
    world.missingSlot? overlay address key = none := by
  unfold World.missingSlot?
  dsimp only
  rw [if_pos (Bool.or_eq_true_iff.mpr (.inr h))]

theorem eq_of_missingSlot? {key : Word}
    (h : world.missingSlot? overlay address key = some lookup) :
    lookup = .slot address key ∨
      lookup = .account address ∧ ¬ overlay.Holds (.account address) := by
  unfold World.missingSlot? at h
  dsimp only at h
  split at h
  next => cases h
  next =>
    split at h
    next =>
      cases h
      exact .inl rfl
    next hnot =>
      cases h
      exact .inr ⟨rfl, hnot⟩

/-- An account is looked up before its slot. -/
theorem settles_missingSlot (key : Word) :
    Settles (fun overlay => world.missingSlot? overlay address key) 2 db := by
  intro first hfirst middle hmiddle hheld
  rcases eq_of_missingSlot? hfirst with rfl | ⟨rfl, -⟩
  · exact .of_none (missingSlot?_of_holds hheld) 1
  · intro second hsecond after hafter hheld'
    rcases eq_of_missingSlot? hsecond with rfl | ⟨-, hnot⟩
    · exact missingSlot?_of_holds hheld'
    · exact absurd hheld hnot

/-- An account that can be accessed stays as it is while more is looked up. -/
theorem Extends.accessed (h : after.Extends db)
    (hmissing : world.missingAccount? db.overlay address = none) :
    world.missingAccount? after.overlay address = none ∧
      world.accessed after.overlay address = world.accessed db.overlay address := by
  unfold World.missingAccount? at hmissing
  split at hmissing
  next hknown =>
    rcases Bool.or_eq_true_iff.mp hknown with hcontains | hheld
    · refine ⟨?_, ?_⟩
      · unfold World.missingAccount?
        rw [if_pos (Bool.or_eq_true_iff.mpr (.inl hcontains))]
      · rw [Std.ExtTreeMap.contains_eq_isSome_getElem?] at hcontains
        obtain ⟨entry, hentry⟩ := Option.isSome_iff_exists.mp hcontains
        rw [World.accessed, World.accessed, hentry]
    · exact ⟨missingAccount?_of_holds (h.grows address hheld),
        World.accessed_congr (h.account? hheld) world⟩
  next => cases hmissing

/-- An account is looked up before the one that it delegates to. -/
theorem settles_missingCallee :
    Settles (fun overlay => Evm.missingCallee? world overlay address) 2 db := by
  have hdelegate {overlay : Overlay} (h : world.missingAccount? overlay address = none) :
      Evm.missingCallee? world overlay address =
        (world.account overlay address).code.delegate?.bind (world.missingAccount? overlay) := by
    cases htarget : (world.account overlay address).code.delegate? with
    | none => simp only [Evm.missingCallee?, h, htarget, Option.bind_none]
    | some target => simp only [Evm.missingCallee?, h, htarget, Option.bind_some]
  -- Once the account is held its code is known, and at most the account that it delegates to is
  -- missing.
  have hlast {db : Database} (h : world.missingAccount? db.overlay address = none) :
      Settles (fun overlay => Evm.missingCallee? world overlay address) 1 db := by
    intro lookup hlookup after hafter hheld
    obtain ⟨hnone, hsame⟩ := hafter.accessed h
    simp only [hdelegate h, World.account] at hlookup
    simp only [Settles, hdelegate hnone, World.account, hsame]
    obtain ⟨target, htarget, htargetMissing⟩ := Option.bind_eq_some_iff.mp hlookup
    obtain rfl := eq_of_missingAccount? htargetMissing
    rw [htarget]
    exact missingAccount?_of_holds hheld
  cases hmissing : world.missingAccount? db.overlay address with
  | none => exact (hlast hmissing).succ
  | some lookup =>
      intro first hfirst middle hmiddle hheld
      obtain rfl := eq_of_missingAccount? hmissing
      simp only [Evm.missingCallee?, hmissing] at hfirst
      cases hfirst
      exact hlast (missingAccount?_of_holds hheld)

end Missing

/-! ## Runs of the machine -/

theorem settles_missing (what : Evm.Access) (m : Evm.Machine) :
    Settles (fun overlay => what.missing? overlay m) 2 db := by
  cases what with
  | balance address | codeSize address | codeHash address | codeCopy address _ _ _
  | destroy address | deploy _ address => exact settles_missingAccount 1
  | load key | store key _ => exact settles_missingSlot key
  | call operands => exact settles_missingCallee
  | selfBalance | loadTransient _ | storeTransient _ _ | create _ => exact .of_none rfl 2
  | blockHash number =>
      intro lookup hlookup after hafter hheld
      simp only [Evm.Access.missing?] at hlookup
      split at hlookup
      next => cases hlookup
      next =>
        cases hlookup
        refine .of_none ?_ 1
        simp only [Evm.Access.missing?]
        exact if_pos hheld

/-- Runs on databases that read the same come to the same. -/
theorem resume_run (env : Evm.Env) (fuel : Nat) {first : Evm.Step} (h : db.Alike other)
    (hfirst : first.Backed db.overlay) (hfirst' : first.Backed other.overlay) :
    ∃ result world after after', after.Extends db ∧ after'.Extends other ∧
      db.resume (Evm.run env fuel db.overlay first) = (.ok (result, world), after) ∧
      other.resume (Evm.run env fuel other.overlay first) = (.ok (result, world), after') ∧
      world.Backed after.overlay ∧ world.Backed after'.overlay := by
  -- Both runs take the same steps. Before an access each of them looks up what its own overlay
  -- lacks, so the databases in the induction are general.
  induction fuel generalizing first db other with
  | zero =>
      cases first with
      | next m =>
          exact ⟨_, _, db, other, .refl db, .refl other, rfl, rfl, hfirst.outermost,
            hfirst'.outermost⟩
      | access what m =>
          exact ⟨_, _, db, other, .refl db, .refl other, rfl, rfl, hfirst.1.outermost,
            hfirst'.1.outermost⟩
      | done result world =>
          exact ⟨result, world, db, other, .refl db, .refl other, rfl, rfl, hfirst, hfirst'⟩
  | succ fuel ih =>
      cases first with
      | next m =>
          have hstep := Evm.step_congr h.agree hfirst hfirst' env
          rw [Evm.run, Evm.run, ← hstep]
          exact ih h (Evm.backed_step hfirst) (hstep ▸ Evm.backed_step hfirst')
      | access what m =>
          obtain ⟨hm, hrange⟩ := hfirst
          obtain ⟨hm', -⟩ := hfirst'
          obtain ⟨middle, hmiddle, hnone, hsupply⟩ := resume_supply h.succeeds
            Evm.Access.lacks_of_missing? (settles_missing what m)
          obtain ⟨middle', hmiddle', hnone', hsupply'⟩ := resume_supply h.succeeds'
            Evm.Access.lacks_of_missing? (settles_missing what m)
          have hmm := hm.grows hmiddle.grows
          have hmm' := hm'.grows hmiddle'.grows
          have hperform := Evm.perform_congr env (h.extend hmiddle hmiddle').agree hmm hmm' hrange
            hnone hnone'
          obtain ⟨result, world, after, after', hafter, hafter', hrun, hrun', hworld, hworld'⟩ :=
            ih (h.extend hmiddle hmiddle') (Evm.backed_perform hmm hnone)
              (hperform ▸ Evm.backed_perform hmm' hnone')
          refine ⟨result, world, after, after', hafter.trans hmiddle, hafter'.trans hmiddle',
            ?_, ?_, hworld, hworld'⟩
          · rw [Evm.run_access, resume_bind, hsupply]
            exact hrun
          · rw [Evm.run_access, resume_bind, hsupply']
            dsimp only
            rw [← hperform]
            exact hrun'
      | done result world =>
          exact ⟨result, world, db, other, .refl db, .refl other, rfl, rfl, hfirst, hfirst'⟩

end Database

end ForkReplay
