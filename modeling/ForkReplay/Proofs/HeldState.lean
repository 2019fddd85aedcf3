import ForkReplay.Proofs.Committing

/-!
# State that is held

An overlay that holds the answer to a lookup never asks for it. Looking up more only adds
to what is held. A commit keeps all accounts, but an account that was destroyed before and
is touched again without being created loses the slots that nobody has written since.
-/

namespace ForkReplay

namespace Overlay

variable {overlay after : Overlay} {lookup other : Lookup}

/-- The answer to a lookup is held. -/
def Holds (overlay : Overlay) : Lookup → Prop
  | .account address => (overlay.account? address).isSome
  | .slot address key => (overlay.slot? address key).isSome
  | .blockHash number => (overlay.blockHash? number).isSome

theorem Lacks.not_holds (h : overlay.Lacks lookup) : ¬ overlay.Holds lookup := by
  cases lookup with
  | account address => exact Option.not_isSome_iff_eq_none.mpr h
  | slot address key => exact Option.not_isSome_iff_eq_none.mpr h.2
  | blockHash number => exact Option.not_isSome_iff_eq_none.mpr h

theorem holds_account_iff {address : Address} :
    overlay.Holds (.account address) ↔ ∃ held, overlay.accounts[address]? = some held := by
  rw [Holds, account?, Option.isSome_map, Option.isSome_iff_exists]

/-- A slot is held if it is stored, or if what is not stored is zero. -/
theorem holds_slot_iff {address : Address} {key : Word} :
    overlay.Holds (.slot address key) ↔ ∃ held, overlay.accounts[address]? = some held ∧
      (held.standing = .present → held.storage[key]?.isSome) := by
  rw [Holds, slot?]
  cases overlay.accounts[address]? with
  | none => simp
  | some held =>
      simp only [Option.some.injEq, exists_eq_left']
      cases held.storage[key]? with
      | some value => simp
      | none => by_cases hstanding : held.standing = .present <;> simp [hstanding]

/-! ## Looking up -/

theorem getElem?_learn_account (overlay : Overlay) (address a : Address)
    (found : (Lookup.account address).Answer) :
    (overlay.learn (.account address) found).accounts[a]? =
      if address = a then some { account := (found : Account) } else overlay.accounts[a]? :=
  overlay.getElem?_hold address a _

theorem getElem?_learn_slot (overlay : Overlay) (address a : Address) (key : Word)
    (found : (Lookup.slot address key).Answer) :
    (overlay.learn (.slot address key) found).accounts[a]? =
      if address = a then
        some { overlay.held address with
          storage := (overlay.held address).storage.insert key found }
      else overlay.accounts[a]? :=
  overlay.getElem?_hold address a _

theorem holds_blockHash_learn (overlay : Overlay) (number n : Nat) (found : Hash) :
    (overlay.learn (.blockHash number) found).Holds (.blockHash n) ↔
      number = n ∨ overlay.Holds (.blockHash n) := by
  change (overlay.blockHashes.insert number found)[n]?.isSome ↔
    number = n ∨ overlay.blockHashes[n]?.isSome
  simp

theorem holds_learn (hlacks : overlay.Lacks lookup) (found : lookup.Answer) :
    (overlay.learn lookup found).Holds lookup := by
  cases lookup with
  | account address =>
      exact holds_account_iff.mpr ⟨_, by rw [getElem?_learn_account, if_pos rfl]⟩
  | slot address key =>
      rw [Holds, slot?_learn_slot found hlacks.1, if_pos ⟨rfl, rfl⟩]
      rfl
  | blockHash number => exact (overlay.holds_blockHash_learn number number found).mpr (.inl rfl)

/-- Holding one more account takes nothing away. -/
theorem Holds.hold {address : Address} (h : overlay.Holds other)
    (hlacks : overlay.Lacks (.account address)) (held : HeldAccount) :
    (overlay.hold address held).Holds other := by
  have hnone : overlay.accounts[address]? = none := getElem?_of_account?_eq_none hlacks
  cases other with
  | account a =>
      obtain ⟨before, hbefore⟩ := holds_account_iff.mp h
      have hne : address ≠ a := fun heq => by simp [← heq, hnone] at hbefore
      exact holds_account_iff.mpr ⟨before, by rw [getElem?_hold, if_neg hne, hbefore]⟩
  | slot a key =>
      obtain ⟨before, hbefore, hstored⟩ := holds_slot_iff.mp h
      have hne : address ≠ a := fun heq => by simp [← heq, hnone] at hbefore
      exact holds_slot_iff.mpr ⟨before, by rw [getElem?_hold, if_neg hne, hbefore], hstored⟩
  | blockHash number => exact h

theorem Holds.learn (h : overlay.Holds other) (hlacks : overlay.Lacks lookup)
    (found : lookup.Answer) : (overlay.learn lookup found).Holds other := by
  cases lookup with
  | account address => exact h.hold hlacks _
  | slot address key =>
      cases other with
      | account a =>
          rw [Holds, account?_learn_slot found hlacks.1]
          exact h
      | slot a otherKey =>
          rw [Holds, slot?_learn_slot found hlacks.1]
          split
          next => rfl
          next => exact h
      | blockHash number => exact h
  | blockHash number =>
      cases other with
      | account a => exact h
      | slot a key => exact h
      | blockHash n => exact (overlay.holds_blockHash_learn number n found).mpr (.inr h)

/-- An account whose storage may have to be looked up. -/
def IsPresent (overlay : Overlay) (address : Address) : Prop :=
  ∃ held, overlay.accounts[address]? = some held ∧ held.standing = .present

theorem Lacks.isPresent {address : Address} {key : Word}
    (h : overlay.Lacks (.slot address key)) : overlay.IsPresent address := by
  have hheld := getElem?_of_isSome_account? h.1
  refine ⟨_, hheld, Decidable.byContradiction fun hstanding => Lacks.not_holds h ?_⟩
  exact holds_slot_iff.mpr ⟨_, hheld, fun hpresent => absurd hpresent hstanding⟩

theorem IsPresent.learn {address : Address} (h : overlay.IsPresent address)
    (hlacks : overlay.Lacks lookup) (found : lookup.Answer) :
    (overlay.learn lookup found).IsPresent address := by
  obtain ⟨held, hheld, hstanding⟩ := h
  cases lookup with
  | account a =>
      have hnone : overlay.accounts[a]? = none := getElem?_of_account?_eq_none hlacks
      have hne : a ≠ address := fun heq => by simp [heq, hheld] at hnone
      exact ⟨held, by rw [getElem?_learn_account, if_neg hne, hheld], hstanding⟩
  | slot a key =>
      by_cases heq : a = address
      · subst heq
        refine ⟨_, by rw [getElem?_learn_slot, if_pos rfl], ?_⟩
        simpa [Overlay.held, hheld] using hstanding
      · exact ⟨held, by rw [getElem?_learn_slot, if_neg heq, hheld], hstanding⟩
  | blockHash number => exact ⟨held, hheld, hstanding⟩

theorem isAbsent_iff {address : Address} :
    overlay.isAbsent address ↔
      ∃ held, overlay.accounts[address]? = some held ∧ held.standing = .absent := by
  unfold isAbsent
  cases overlay.accounts[address]? with
  | none => simp
  | some held => simp

theorem isAbsent_congr {address : Address}
    (h : after.accounts[address]? = overlay.accounts[address]?) :
    after.isAbsent address = overlay.isAbsent address := by
  rw [isAbsent, isAbsent, h]

/-- What is learned exists, and what is not held is not known to be absent either. -/
theorem isAbsent_learn (hlacks : overlay.Lacks lookup) (found : lookup.Answer)
    (address : Address) :
    (overlay.learn lookup found).isAbsent address = overlay.isAbsent address := by
  cases lookup with
  | account a =>
      by_cases haddress : a = address
      · subst haddress
        rw [isAbsent, isAbsent, getElem?_learn_account, if_pos rfl,
          getElem?_of_account?_eq_none hlacks]
        rfl
      · exact isAbsent_congr (by rw [getElem?_learn_account, if_neg haddress])
  | slot a key =>
      by_cases haddress : a = address
      · subst haddress
        rw [isAbsent, isAbsent, getElem?_learn_slot, if_pos rfl,
          getElem?_of_isSome_account? hlacks.1]
      · exact isAbsent_congr (by rw [getElem?_learn_slot, if_neg haddress])
  | blockHash number => rfl

/-- What is assumed about an account does not concern those that are held. -/
theorem isAbsent_assume {address : Address} (hlacks : overlay.Lacks lookup)
    (hheld : overlay.Holds (.account address)) :
    (overlay.assume lookup).isAbsent address = overlay.isAbsent address := by
  cases lookup with
  | account a =>
      have hne : a ≠ address := fun heq => hlacks.not_holds (heq ▸ hheld)
      exact isAbsent_congr (by rw [assume, getElem?_hold, if_neg hne])
  | slot a key => exact isAbsent_learn hlacks _ address
  | blockHash number => exact isAbsent_learn hlacks _ address

/-- Looking up more does not change what is known about the existence of an account: it is
held, or it would be learned, and what is learned exists. -/
def Decides (overlay : Overlay) (address : Address) : Prop :=
  overlay.isFork = true ∨ overlay.Holds (.account address)

theorem holds_assume (hlacks : overlay.Lacks lookup) :
    (overlay.assume lookup).Holds lookup := by
  cases lookup with
  | account address =>
      exact holds_account_iff.mpr ⟨_, by rw [assume, getElem?_hold, if_pos rfl]⟩
  | slot address key => exact holds_learn hlacks _
  | blockHash number => exact holds_learn hlacks _

theorem Holds.assume (h : overlay.Holds other) (hlacks : overlay.Lacks lookup) :
    (overlay.assume lookup).Holds other := by
  cases lookup with
  | account address => exact h.hold hlacks _
  | slot address key => exact h.learn hlacks _
  | blockHash number => exact h.learn hlacks _

/-- The lookups of a list, each of something lacking, take an overlay to another one. -/
inductive Learns : Overlay → List Lookup → Overlay → Prop where
  | nil (overlay : Overlay) : Learns overlay [] overlay
  | cons {overlay after : Overlay} {lookup : Lookup} {asked : List Lookup}
      (hlacks : overlay.Lacks lookup) (found : lookup.Answer)
      (hrest : Learns (overlay.learn lookup found) asked after) :
      Learns overlay (lookup :: asked) after

namespace Learns

variable {asked : List Lookup}

theorem isFork_eq (h : Learns overlay asked after) : after.isFork = overlay.isFork := by
  induction h with
  | nil => rfl
  | @cons overlay after lookup asked hlacks found hrest ih =>
      rw [ih]
      cases lookup with
      | account address => rfl
      | slot address key => rfl
      | blockHash number => rfl

theorem holds (h : Learns overlay asked after) (hheld : overlay.Holds other) :
    after.Holds other := by
  induction h with
  | nil => exact hheld
  | cons hlacks found hrest ih => exact ih (hheld.learn hlacks found)

theorem isPresent {address : Address} (h : Learns overlay asked after)
    (hpresent : overlay.IsPresent address) : after.IsPresent address := by
  induction h with
  | nil => exact hpresent
  | cons hlacks found hrest ih => exact ih (hpresent.learn hlacks found)

theorem holds_of_mem (h : Learns overlay asked after) (hmem : lookup ∈ asked) :
    after.Holds lookup := by
  induction h with
  | nil => cases hmem
  | cons hlacks found hrest ih =>
      rcases List.mem_cons.mp hmem with rfl | hlater
      · exact hrest.holds (holds_learn hlacks found)
      · exact ih hlater

theorem isPresent_of_mem {address : Address} {key : Word} (h : Learns overlay asked after)
    (hmem : .slot address key ∈ asked) : after.IsPresent address := by
  induction h with
  | nil => cases hmem
  | cons hlacks found hrest ih =>
      rcases List.mem_cons.mp hmem with rfl | hlater
      · exact hrest.isPresent (hlacks.isPresent.learn hlacks found)
      · exact ih hlater

theorem not_holds_of_mem (h : Learns overlay asked after) (hmem : lookup ∈ asked) :
    ¬ overlay.Holds lookup := by
  induction h with
  | nil => cases hmem
  | cons hlacks found hrest ih =>
      intro hheld
      rcases List.mem_cons.mp hmem with rfl | hlater
      · exact hlacks.not_holds hheld
      · exact ih hlater (hheld.learn hlacks found)

theorem nodup (h : Learns overlay asked after) : asked.Nodup := by
  induction h with
  | nil => exact .nil
  | cons hlacks found hrest ih =>
      refine List.nodup_cons.mpr ⟨fun hmem => ?_, ih⟩
      exact hrest.not_holds_of_mem hmem (holds_learn hlacks found)

/-- A lookup that comes last and fails was not made before either. -/
theorem nodup_concat (h : Learns overlay asked after) (hlacks : after.Lacks lookup) :
    (asked ++ [lookup]).Nodup := by
  refine List.nodup_append.mpr ⟨h.nodup, by simp, ?_⟩
  intro earlier hearlier last hlast heq
  rw [List.mem_singleton.mp hlast] at heq
  exact hlacks.not_holds (heq ▸ h.holds_of_mem hearlier)

end Learns

/-! ## Committing -/

/-- An account that did not exist does so afterwards, but was not created: storage that is
not held has to be looked up again. -/
def Forgets (before after : Overlay) (address : Address) : Prop :=
  before.isAbsent address ∧ after.IsPresent address

theorem holds_account_commit {address : Address} {world : World}
    (h : overlay.Holds (.account address)) : (overlay.commit world).Holds (.account address) := by
  obtain ⟨held, hheld⟩ := holds_account_iff.mp h
  rw [holds_account_iff, getElem?_commit]
  cases world.accounts[address]? with
  | none => exact ⟨held, hheld⟩
  | some entry =>
      dsimp only
      split
      next => exact ⟨_, rfl⟩
      next => exact ⟨held, hheld⟩

theorem holds_slot_written {entry : AccessedAccount} {held : HeldAccount} {key : Word}
    (h : held.standing = .present → held.storage[key]?.isSome)
    (habsent : held.standing ≠ .absent)
    (hpresent : (entry.written held).standing = .present) :
    (entry.written held).storage[key]?.isSome := by
  cases hdestroyed : entry.destroyed with
  | true => simp [AccessedAccount.written_of_destroyed hdestroyed] at hpresent
  | false =>
      rw [AccessedAccount.standing_written hdestroyed] at hpresent
      rw [AccessedAccount.getElem?_storage_written hdestroyed]
      split
      next => rfl
      next =>
        cases hstanding : held.standing <;> simp_all

/-- A commit keeps the slots that are held, but for those of an account that it forgets. -/
theorem holds_slot_commit {address : Address} {key : Word} {world : World}
    (h : overlay.Holds (.slot address key)) :
    (overlay.commit world).Holds (.slot address key) ∨
      overlay.Forgets (overlay.commit world) address := by
  obtain ⟨held, hheld, hstored⟩ := holds_slot_iff.mp h
  have hentry := overlay.getElem?_commit world address
  cases hworld : world.accounts[address]? with
  | none =>
      rw [hworld] at hentry
      exact .inl (holds_slot_iff.mpr ⟨held, hentry.trans hheld, hstored⟩)
  | some entry =>
      rw [hworld] at hentry
      dsimp only at hentry
      cases htouched : entry.touched with
      | false =>
          rw [if_neg (by simp [htouched])] at hentry
          exact .inl (holds_slot_iff.mpr ⟨held, hentry.trans hheld, hstored⟩)
      | true =>
          have hsame : overlay.held address = held := by simp [Overlay.held, hheld]
          rw [if_pos htouched, hsame] at hentry
          -- A slot gets lost only if what is not stored has to be looked up again, and that can
          -- be new only for an account that was absent.
          by_cases hpresent : (entry.written held).standing = .present
          · by_cases habsent : held.standing = .absent
            · exact .inr ⟨by simp [isAbsent, hheld, habsent], _, hentry, hpresent⟩
            · exact .inl (holds_slot_iff.mpr
                ⟨_, hentry, holds_slot_written hstored habsent⟩)
          · exact .inl (holds_slot_iff.mpr ⟨_, hentry, fun h => absurd h hpresent⟩)

end Overlay

end ForkReplay
