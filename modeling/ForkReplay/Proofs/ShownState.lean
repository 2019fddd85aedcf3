import ForkReplay.Proofs.HeldState
import ForkReplay.Proofs.StandIn

/-!
# What a state of its own shows

What a read tells of an account and its storage depends on what is shown of the account: its
fields, whether it exists, and its slots, where a slot that is not stored is as good as a zero.
No read changes what is shown, and an edit changes it at one address.
-/

namespace ForkReplay

/-- All that reads can tell of an account and its storage. -/
@[ext]
structure Shown where
  account : Account
  isAbsent : Bool
  slots : Word → Word

namespace Overlay

variable {overlay : Overlay} {lookup : Lookup}

/-- What is shown of the account at `address`. -/
def shown (overlay : Overlay) (address : Address) : Shown where
  account := (overlay.held address).account
  isAbsent := (overlay.held address).standing = .absent
  slots key := (overlay.held address).storage[key]?.getD 0

theorem held_congr {other : Overlay} {address : Address}
    (h : overlay.accounts[address]? = other.accounts[address]?) :
    overlay.held address = other.held address := by
  rw [held, held, h]

theorem shown_congr {other : Overlay} {address : Address}
    (h : overlay.held address = other.held address) :
    overlay.shown address = other.shown address := by
  rw [shown, shown, h]

theorem held_hold (overlay : Overlay) (address other : Address) (held : HeldAccount) :
    (overlay.hold address held).held other =
      if address = other then held else overlay.held other := by
  rw [Overlay.held, getElem?_hold]
  split
  next => rfl
  next => rfl

theorem held_of_account?_eq_none {address : Address} (h : overlay.account? address = none) :
    overlay.held address = { standing := .absent } := by
  rw [held, getElem?_of_account?_eq_none h]
  rfl

/-- A slot that is not stored is shown as a zero, whether or not it could be looked up. -/
theorem slots_shown (overlay : Overlay) (address : Address) (key : Word) :
    (overlay.shown address).slots key = (overlay.slot? address key).getD 0 := by
  rw [shown, slot?, held]
  cases overlay.accounts[address]? with
  | none => rfl
  | some held =>
      dsimp only [Option.getD_some]
      cases held.storage[key]? with
      | some value => rfl
      | none => by_cases hstanding : held.standing = .present <;> simp [hstanding]

/-- A state of its own reads as it is shown. -/
theorem account_eq_shown {db : Database} (hown : db.overlay.isFork = false) (address : Address) :
    db.account address = (db.overlay.shown address).account := by
  unfold Database.account
  cases hheld : db.overlay.account? address with
  | none => simp [shown, held_of_account?_eq_none hheld, hown]
  | some account =>
      have hsome : (db.overlay.account? address).isSome := by rw [hheld]; rfl
      rw [account?, getElem?_of_isSome_account? hsome] at hheld
      cases hheld
      rfl

/-- A slot is stored beside what else is held of its account. -/
theorem held_learn_slot (overlay : Overlay) (address other : Address) (key : Word)
    (value : (Lookup.slot address key).Answer) :
    ((overlay.learn (.slot address key) value).held other).account =
        (overlay.held other).account ∧
      ((overlay.learn (.slot address key) value).held other).standing =
        (overlay.held other).standing := by
  have hheld := overlay.held_hold address other
    { overlay.held address with storage := (overlay.held address).storage.insert key value }
  change (overlay.learn (.slot address key) value).held other = _ at hheld
  rw [hheld]
  split
  next haddress => exact haddress ▸ ⟨rfl, rfl⟩
  next => exact ⟨rfl, rfl⟩

/-- What there is to assume is shown already. -/
theorem shown_assume (hlacks : overlay.Lacks lookup) (address : Address) :
    (overlay.assume lookup).shown address = overlay.shown address := by
  cases lookup with
  | account a =>
      apply shown_congr
      rw [assume, held_hold]
      split
      next haddress => rw [← haddress, held_of_account?_eq_none hlacks]
      next => rfl
  | slot a key =>
      obtain ⟨haccount, hstanding⟩ := overlay.held_learn_slot a address key (0 : Word)
      apply Shown.ext
      · exact haccount
      · rw [shown, assume, hstanding]
        rfl
      · funext k
        rw [slots_shown, slots_shown, assume, slot?_learn_slot _ hlacks.1]
        split
        next hsame =>
          rw [← hsame.1, ← hsame.2, hlacks.2]
          rfl
        next => rfl
  | blockHash number => rfl

/-! ## Reading -/

/-- An account is looked up before it is read. -/
theorem snd_readAccount (overlay : Overlay) (address : Address) :
    (overlay.readAccount address).2 = overlay ∨
      overlay.Lacks (.account address) ∧
        (overlay.readAccount address).2 = overlay.assume (.account address) := by
  unfold readAccount
  dsimp only
  split
  next => exact .inl rfl
  next hnot => exact .inr ⟨Option.not_isSome_iff_eq_none.mp hnot, rfl⟩

theorem isSome_account?_readAccount (overlay : Overlay) (address : Address) :
    ((overlay.readAccount address).2.account? address).isSome := by
  unfold readAccount
  dsimp only
  split
  next hheld => exact hheld
  next => simp [assume, account?_hold]

theorem shown_readAccount (overlay : Overlay) (address other : Address) :
    (overlay.readAccount address).2.shown other = overlay.shown other := by
  obtain heq | ⟨hlacks, heq⟩ := overlay.snd_readAccount address
  · rw [heq]
  · rw [heq, shown_assume hlacks]

/-- An account reads as shown, unless it does not exist. -/
theorem fst_readAccount (overlay : Overlay) (address : Address) :
    (overlay.readAccount address).1 =
      if (overlay.shown address).isAbsent then none else some (overlay.shown address).account := by
  rw [← shown_readAccount overlay address address]
  have hheld := getElem?_of_isSome_account? (overlay.isSome_account?_readAccount address)
  change (if (overlay.readAccount address).2.isAbsent address then none
    else (overlay.readAccount address).2.account? address) = _
  rw [isAbsent, account?, hheld]
  rfl

/-- A slot reads as shown. -/
theorem fst_readStorage (overlay : Overlay) (address : Address) (key : Word) :
    (overlay.readStorage address key).1 = (overlay.shown address).slots key := by
  rw [← shown_readAccount overlay address address, slots_shown, readStorage]
  cases (overlay.readAccount address).2.slot? address key with
  | none => rfl
  | some value => rfl

theorem shown_readStorage (overlay : Overlay) (address other : Address) (key : Word) :
    (overlay.readStorage address key).2.shown other = overlay.shown other := by
  rw [← shown_readAccount overlay address other, readStorage]
  cases hslot : (overlay.readAccount address).2.slot? address key with
  | some value => rfl
  | none =>
      have hlacks : (overlay.readAccount address).2.Lacks (.slot address key) :=
        ⟨overlay.isSome_account?_readAccount address, hslot⟩
      exact shown_assume hlacks other

theorem shown_readCode (overlay : Overlay) (hash : Hash) (address : Address) :
    (overlay.readCode hash).2.shown address = overlay.shown address := by
  unfold readCode
  split
  next => rfl
  next => rfl

theorem shown_readBlockHash (overlay : Overlay) (number : Nat) (address : Address) :
    (overlay.readBlockHash number).2.shown address = overlay.shown address := by
  unfold readBlockHash
  split
  next => rfl
  next => rfl

/-! ## Editing -/

/-- An edit of an account makes it exist, and changes what is shown of it alone. -/
theorem shown_editAccount (overlay : Overlay) (address other : Address)
    (change : Account → Account) :
    (overlay.editAccount address change).shown other =
      if address = other then
        { overlay.shown other with
          account := change (overlay.shown other).account
          isAbsent := false }
      else overlay.shown other := by
  split
  next haddress =>
    subst haddress
    rw [shown, held_editAccount]
    unfold shown
    congr 1
    by_cases habsent : (overlay.held address).standing = .absent
    · simp [habsent]
    · simp [habsent]
  next haddress =>
    apply shown_congr
    apply held_congr
    rw [getElem?_editAccount, if_neg haddress]

theorem shown_setStorage (overlay : Overlay) (address other : Address) (key value : Word) :
    (overlay.setStorage address key value).shown other =
      if address = other then
        { overlay.shown other with slots := Function.update (overlay.shown other).slots key value }
      else overlay.shown other := by
  rw [shown, setStorage, learn, held_hold]
  split
  next haddress =>
    subst haddress
    unfold shown
    congr 1
    funext k
    rw [Std.ExtTreeMap.getElem?_insert, Function.update_apply]
    by_cases hkey : key = k
    · simp [hkey]
    · simp [hkey, Ne.symm hkey]
  next => rfl

/-! ## Codes -/

/-- The code of every account that has some can be found under its digest. -/
def FilesCodes (overlay : Overlay) : Prop :=
  ∀ address, (overlay.shown address).account.code.isEmpty = false →
    (overlay.shown address).account.code.hash ∈ overlay.codes

theorem getElem?_codes_fileCode (overlay : Overlay) (code : Code) (hash : Hash) :
    (overlay.fileCode code).codes[hash]? =
      if code.isEmpty = false ∧ code.hash = hash ∧ hash ∉ overlay.codes then some code.bytes
      else overlay.codes[hash]? := by
  unfold fileCode
  split
  next hempty => simp [hempty]
  next hempty =>
    rw [Std.ExtTreeMap.getElem?_insertIfNew]
    simp only [Std.LawfulEqCmp.compare_eq_iff_eq]
    by_cases hhash : code.hash = hash
    · simp [hhash, hempty]
    · simp [hhash]

theorem mem_codes_fileCode {code : Code} {hash : Hash} :
    hash ∈ (overlay.fileCode code).codes ↔
      hash ∈ overlay.codes ∨ code.isEmpty = false ∧ code.hash = hash := by
  unfold fileCode
  split
  next hempty => simp [hempty]
  next hempty => simp [hempty, or_comm]

theorem codes_assume (overlay : Overlay) (lookup : Lookup) :
    (overlay.assume lookup).codes = overlay.codes := by
  cases lookup with
  | account address => rfl
  | slot address key => rfl
  | blockHash number => rfl

theorem codes_readAccount (overlay : Overlay) (address : Address) :
    (overlay.readAccount address).2.codes = overlay.codes := by
  obtain heq | ⟨-, heq⟩ := overlay.snd_readAccount address
  · rw [heq]
  · rw [heq, codes_assume]

theorem codes_readStorage (overlay : Overlay) (address : Address) (key : Word) :
    (overlay.readStorage address key).2.codes = overlay.codes := by
  rw [← codes_readAccount overlay address, readStorage]
  cases (overlay.readAccount address).2.slot? address key with
  | some value => rfl
  | none => rfl

theorem FilesCodes.mono {after : Overlay} (h : overlay.FilesCodes)
    (hshown : ∀ address, after.shown address = overlay.shown address)
    (hcodes : ∀ hash ∈ overlay.codes, hash ∈ after.codes) : after.FilesCodes := by
  intro address hcode
  rw [hshown] at hcode ⊢
  exact hcodes _ (h address hcode)

theorem FilesCodes.editAccount (h : overlay.FilesCodes) (address : Address)
    (change : Account → Account) : (overlay.editAccount address change).FilesCodes := by
  intro other
  rw [shown_editAccount]
  intro hcode
  -- An edit files the code that the account has afterwards.
  refine mem_codes_fileCode.mpr ?_
  split at hcode
  next haddress =>
    rw [if_pos haddress]
    subst haddress
    exact .inr ⟨hcode, rfl⟩
  next haddress =>
    rw [if_neg haddress]
    exact .inl (h other hcode)

/-- An edit that leaves the code of an account leaves all codes. -/
theorem FilesCodes.getElem?_codes_editAccount (h : overlay.FilesCodes) (address : Address)
    {change : Account → Account} (hchange : ∀ account, (change account).code = account.code)
    (hash : Hash) : (overlay.editAccount address change).codes[hash]? = overlay.codes[hash]? := by
  change (overlay.fileCode (change (overlay.shown address).account).code).codes[hash]? = _
  rw [hchange, getElem?_codes_fileCode, if_neg]
  rintro ⟨hcode, rfl, hnew⟩
  exact hnew (h address hcode)

end Overlay

end ForkReplay
