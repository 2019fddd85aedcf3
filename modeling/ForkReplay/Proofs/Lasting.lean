import ForkReplay.Proofs.Operations
import ForkReplay.Proofs.ShownState

/-!
# What operations keep

An operation of an executor does nothing to an overlay but look up and commit, so it keeps what
lookups and commits keep. That an account that does not exist is empty is such a property. With
it, inspecting a field tells the same as reading it.
-/

namespace ForkReplay

namespace Overlay

/-- A property that overlays keep when state is looked up and when a world is committed. -/
structure Lasting (Kept : Overlay → Prop) : Prop where
  learn : ∀ {overlay : Overlay} {lookup : Lookup}, overlay.Lacks lookup →
    ∀ found, Kept overlay → Kept (overlay.learn lookup found)
  assume : ∀ {overlay : Overlay} {lookup : Lookup}, overlay.Lacks lookup →
    Kept overlay → Kept (overlay.assume lookup)
  commit : ∀ {overlay : Overlay} (world : World), Kept overlay → Kept (overlay.commit world)

namespace Lasting

variable {Kept : Overlay → Prop} {db : Database}

/-- What the end of a dialogue keeps, the whole of it keeps. -/
theorem resume (h : Lasting Kept) {ε α : Type} {Final : Overlay → α → Overlay → Prop}
    {dialogue : Lookups (Except ε α × Overlay)} (hlooking : Looking Final db.overlay dialogue)
    (hfinal : ∀ {before value after}, Final before value after → Kept before → Kept after)
    (hkept : Kept db.overlay) : Kept (db.resume dialogue).2.overlay := by
  generalize hoverlay : db.overlay = overlay at hlooking
  -- What is learned moves to the overlay and the lookup to the log, so `db` is general.
  induction hlooking generalizing db with
  | failed overlay error =>
      subst hoverlay
      exact hkept
  | done hdone =>
      subst hoverlay
      exact hfinal hdone hkept
  | @asked overlay lookup next hfork hlacks hfound hfailed ih =>
      subst hoverlay
      rw [Database.resume_ask, Source.reply]
      cases db.source.failure? db.asked lookup with
      | none =>
          exact @ih (db.source.find lookup)
            { db with
              overlay := db.overlay.learn lookup (db.source.find lookup)
              asked := db.asked ++ [lookup] } (h.learn hlacks _ hkept) rfl
      | some failure =>
          obtain ⟨error, hnext⟩ := hfailed failure
          dsimp only
          rw [hnext]
          exact hkept
  | assumed hfork hlacks hrest ih =>
      subst hoverlay
      exact @ih { db with overlay := db.overlay.assume _ } (h.assume hlacks hkept) rfl

theorem transact (h : Lasting Kept) (config : Evm.Config) (block : BlockEnv) (tx : Transaction)
    (hkept : Kept db.overlay) : Kept (db.run (Evm.transact config block tx)).2.overlay := by
  refine h.resume (Evm.transact_looksUntil_commit config block tx db.overlay) ?_ hkept
  rintro before result after ⟨world, rfl⟩ hbefore
  exact h.commit world hbefore

theorem along (h : Lasting Kept) (config : Evm.Config) (block : BlockEnv) (txs : List Transaction)
    (hkept : Kept db.overlay) :
    Kept (Executor.Pass.along config block db txs).after.overlay := by
  induction txs generalizing db with
  | nil => exact hkept
  | cons tx rest ih =>
      have hmiddle := h.transact config block tx hkept
      rcases hrun : db.run (Evm.transact config block tx) with ⟨failure | result, middle⟩
      · rw [hrun] at hmiddle
        rw [Executor.Pass.along_cons_of_error hrun]
        exact hmiddle
      · rw [hrun] at hmiddle
        rw [Executor.Pass.along_cons_of_ok hrun]
        exact ih hmiddle

/-- Every operation of an executor keeps what lasts. -/
theorem perform (h : Lasting Kept) (executor : Executor) (op : Executor.Operation)
    (hkept : Kept db.overlay) : Kept (db.run (executor.perform op)).2.overlay := by
  rw [(executor.isPass_perform db op).after]
  exact h.along _ _ _ hkept

end Lasting

/-- An account that does not exist is empty. -/
def AbsentAreEmpty (overlay : Overlay) : Prop :=
  ∀ address, (overlay.shown address).isAbsent = true → (overlay.shown address).account = {}

theorem AbsentAreEmpty.mono {overlay after : Overlay} (h : overlay.AbsentAreEmpty)
    (hshown : ∀ address, after.shown address = overlay.shown address) : after.AbsentAreEmpty := by
  intro address
  rw [hshown]
  exact h address

theorem absentAreEmpty_iff {overlay : Overlay} :
    overlay.AbsentAreEmpty ↔ ∀ address, (overlay.held address).standing = .absent →
      (overlay.held address).account = {} := by
  simp [AbsentAreEmpty, shown]

/-- What is held after a commit was held before or written by the transaction. -/
theorem held_commit (overlay : Overlay) (world : World) (address : Address) :
    (overlay.commit world).held address = overlay.held address ∨
      ∃ entry : AccessedAccount,
        (overlay.commit world).held address = entry.written (overlay.held address) := by
  have hentry := overlay.getElem?_commit world address
  cases hworld : world.accounts[address]? with
  | none =>
      rw [hworld] at hentry
      exact .inl (held_congr hentry)
  | some entry =>
      rw [hworld] at hentry
      dsimp only at hentry
      split at hentry
      next =>
        refine .inr ⟨entry, ?_⟩
        rw [held, hentry]
        rfl
      next => exact .inl (held_congr hentry)

theorem lasting_absentAreEmpty : Lasting AbsentAreEmpty where
  learn := by
    intro overlay lookup hlacks found h
    rw [absentAreEmpty_iff] at h ⊢
    intro address habsent
    cases lookup with
    | account a =>
        change ((overlay.hold a { account := found }).held address).standing = .absent at habsent
        change ((overlay.hold a { account := found }).held address).account = {}
        rw [held_hold] at habsent ⊢
        split at habsent
        next => cases habsent
        next hother =>
          rw [if_neg hother]
          exact h address habsent
    | slot a key =>
        obtain ⟨haccount, hstanding⟩ := overlay.held_learn_slot a address key found
        rw [haccount]
        exact h address (hstanding ▸ habsent)
    | blockHash number => exact h address habsent
  assume := by
    intro overlay lookup hlacks h
    exact h.mono (shown_assume hlacks)
  commit := by
    intro overlay world h
    rw [absentAreEmpty_iff] at h ⊢
    intro address habsent
    obtain heq | ⟨entry, heq⟩ := overlay.held_commit world address
    · rw [heq] at habsent ⊢
      exact h address habsent
    · rw [heq] at habsent ⊢
      cases hdestroyed : entry.destroyed with
      | true => rw [AccessedAccount.written_of_destroyed hdestroyed]
      | false =>
          rw [AccessedAccount.standing_written hdestroyed] at habsent
          split at habsent <;> cases habsent

/-- The ways to read a field of an account tell the same. -/
structure Consistent (overlay : Overlay) (address : Address) : Prop where
  storage : ∀ key, overlay.storageOf address key = (overlay.readStorage address key).1
  balance : overlay.balanceOf address = ((overlay.readAccount address).1.getD {}).balance
  nonce : overlay.nonceOf address = ((overlay.readAccount address).1.getD {}).nonce

theorem AbsentAreEmpty.getD_readAccount {overlay : Overlay} (h : overlay.AbsentAreEmpty)
    (address : Address) :
    (overlay.readAccount address).1.getD {} = (overlay.shown address).account := by
  rw [fst_readAccount]
  split
  next habsent => exact (h address habsent).symm
  next => rfl

theorem AbsentAreEmpty.consistent {overlay : Overlay} (h : overlay.AbsentAreEmpty)
    (address : Address) : overlay.Consistent address where
  storage key := (overlay.fst_readStorage address key).symm
  balance := by
    rw [h.getD_readAccount]
    rfl
  nonce := by
    rw [h.getD_readAccount]
    rfl

end Overlay

end ForkReplay
