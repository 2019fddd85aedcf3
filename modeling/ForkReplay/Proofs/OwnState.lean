import Mathlib.Data.List.Induction
import ForkReplay.Proofs.Lasting

/-!
# A state of its own under edits and reads

A state of its own is edited piece by piece, and reading it keeps what is found. Whatever the
order, a read tells what was written last: the edits of a history decide what is shown of an
account, and the reads do not count. The ways to read a field still agree when an executor has
performed operations in between.
-/

namespace ForkReplay

/-- An edit of a state of its own. -/
inductive Edit where
  | balance (address : Address) (balance : Word)
  | nonce (address : Address) (nonce : UInt64)
  | code (address : Address) (bytes : Bytes)
  | slot (address : Address) (key value : Word)
deriving DecidableEq

/-- A read of a state of its own. The last three inspect it and look nothing up. -/
inductive Read where
  | account (address : Address)
  | storage (address : Address) (key : Word)
  | code (hash : Hash)
  | blockHash (number : Nat)
  | balanceOf (address : Address)
  | nonceOf (address : Address)
  | storageOf (address : Address) (key : Word)
deriving DecidableEq

/-- An edit or a read. -/
inductive Use where
  | edit (edit : Edit)
  | read (read : Read)
deriving DecidableEq

namespace Edit

variable {α : Type} {overlay : Overlay} {address : Address}

/-- Makes an edit. -/
def apply (overlay : Overlay) : Edit → Overlay
  | .balance address value => overlay.setBalance address value
  | .nonce address value => overlay.setNonce address value
  | .code address bytes => overlay.setCode address bytes
  | .slot address key value => overlay.setStorage address key value

/-- What an edit makes of the account at `address`. -/
def change (address : Address) : Edit → Account → Account
  | .balance a value, account =>
      if a = address then { account with balance := value } else account
  | .nonce a value, account => if a = address then { account with nonce := value } else account
  | .code a bytes, account =>
      if a = address then { account with code := .plain bytes } else account
  | .slot _ _ _, account => account

/-- The account at `address` exists from an edit on. -/
def creates (address : Address) : Edit → Bool
  | .balance a _ | .nonce a _ | .code a _ => a = address
  | .slot _ _ _ => false

/-- The balance that an edit gives to the account at `address`. -/
def balance? (address : Address) : Edit → Option Word
  | .balance a value => if a = address then some value else none
  | _ => none

def nonce? (address : Address) : Edit → Option UInt64
  | .nonce a value => if a = address then some value else none
  | _ => none

def code? (address : Address) : Edit → Option Bytes
  | .code a bytes => if a = address then some bytes else none
  | _ => none

def slot? (address : Address) (key : Word) : Edit → Option Word
  | .slot a k value => if a = address ∧ k = key then some value else none
  | _ => none

/-- A read tells of what an edit changes. -/
def Concerns (read : Read) : Edit → Prop
  | .balance address _ => .account address = read ∨ .balanceOf address = read
  | .nonce address _ => .account address = read ∨ .nonceOf address = read
  | .code address bytes => .account address = read ∨ .code (Code.plain bytes).hash = read
  | .slot address key _ => .storage address key = read ∨ .storageOf address key = read

theorem eq_of_slot?_eq_some {edit : Edit} {key value : Word}
    (h : edit.slot? address key = some value) : edit = .slot address key value := by
  cases edit <;> simp_all [slot?]

theorem change_of_creates_eq_false {edit : Edit} (h : edit.creates address = false)
    (account : Account) : edit.change address account = account := by
  cases edit <;> simp_all [creates, change]

theorem concerns_of_creates {edit : Edit} (h : edit.creates address = true) :
    edit.Concerns (.account address) := by
  cases edit <;> simp_all [creates, Concerns]

/-- An edit that does not concern the balance of an account leaves it. -/
theorem balance_change {edit : Edit} (h : ¬ edit.Concerns (.balanceOf address))
    (account : Account) : (edit.change address account).balance = account.balance := by
  cases edit with
  | balance a value => simp_all [Concerns, change]
  | nonce a _ | code a _ => by_cases haddress : a = address <;> simp [change, haddress]
  | slot a key value => rfl

theorem nonce_change {edit : Edit} (h : ¬ edit.Concerns (.nonceOf address))
    (account : Account) : (edit.change address account).nonce = account.nonce := by
  cases edit with
  | balance a _ | code a _ => by_cases haddress : a = address <;> simp [change, haddress]
  | nonce a value => simp_all [Concerns, change]
  | slot a key value => rfl

theorem code_change {edit : Edit} (h : ∀ bytes, edit ≠ .code address bytes) (account : Account) :
    (edit.change address account).code = account.code := by
  cases edit with
  | balance a _ | nonce a _ => by_cases haddress : a = address <;> simp [change, haddress]
  | code a bytes => simp_all [change]
  | slot a key value => rfl

/-- What an edit makes of what is shown of the account at `address`. -/
def onto (address : Address) (edit : Edit) (shown : Shown) : Shown where
  account := edit.change address shown.account
  isAbsent := shown.isAbsent && !edit.creates address
  slots key := (edit.slot? address key).getD (shown.slots key)

theorem shown_apply (overlay : Overlay) (edit : Edit) (address : Address) :
    (edit.apply overlay).shown address = edit.onto address (overlay.shown address) := by
  cases edit with
  | balance a _ | nonce a _ | code a _ =>
      refine (overlay.shown_editAccount a address _).trans ?_
      by_cases haddress : a = address <;> simp [onto, change, creates, slot?, haddress]
  | slot a key value =>
      refine (overlay.shown_setStorage a address key value).trans ?_
      by_cases haddress : a = address
      · rw [if_pos haddress]
        apply Shown.ext
        · rfl
        · simp [onto, creates]
        · funext k
          by_cases hkey : key = k
          · simp [onto, slot?, haddress, hkey]
          · simp [onto, slot?, haddress, hkey, Ne.symm hkey]
      · simp [onto, change, creates, slot?, haddress]

/-- An edit of something else leaves a slot. -/
theorem slots_apply {edit : Edit} {key : Word} (h : ∀ value, edit ≠ .slot address key value)
    (overlay : Overlay) :
    ((edit.apply overlay).shown address).slots key = (overlay.shown address).slots key := by
  rw [shown_apply]
  change (edit.slot? address key).getD _ = _
  cases hslot : edit.slot? address key with
  | none => rfl
  | some value => exact absurd (eq_of_slot?_eq_some hslot) (h value)

/-- An edit that leaves the code of an account leaves the codes, and one that does not files no
code but the new one. -/
theorem getElem?_codes_apply (h : overlay.FilesCodes) {edit : Edit} {hash : Hash}
    (hedit : ¬ edit.Concerns (.code hash)) :
    (edit.apply overlay).codes[hash]? = overlay.codes[hash]? := by
  cases edit with
  | balance a _ | nonce a _ => exact h.getElem?_codes_editAccount a (fun _ => rfl) hash
  | code a bytes =>
      refine (overlay.getElem?_codes_fileCode (.plain bytes) hash).trans (if_neg ?_)
      rintro ⟨-, rfl, -⟩
      exact hedit (.inr rfl)
  | slot a key value => rfl

theorem blockHashes_apply (edit : Edit) (overlay : Overlay) :
    (edit.apply overlay).blockHashes = overlay.blockHashes := by
  cases edit with
  | balance a _ | nonce a _ | code a _ => exact overlay.blockHashes_editAccount a _
  | slot a key value => rfl

theorem filesCodes_apply (h : overlay.FilesCodes) (edit : Edit) :
    (edit.apply overlay).FilesCodes := by
  cases edit with
  | balance a _ | nonce a _ | code a _ => exact h.editAccount a _
  | slot a key value =>
      intro address
      rw [shown_apply]
      exact h address

theorem isFork_apply (edit : Edit) (overlay : Overlay) :
    (edit.apply overlay).isFork = overlay.isFork := by
  cases edit with
  | balance a _ | nonce a _ | code a _ => exact overlay.isFork_editAccount a _
  | slot a key value => rfl

/-- The last of the values that edits give to a piece of state. -/
def last? (value? : Edit → Option α) (edits : List Edit) : Option α :=
  (edits.filterMap value?).getLast?

theorem last?_concat (value? : Edit → Option α) (edits : List Edit) (edit : Edit) :
    last? value? (edits ++ [edit]) = (value? edit).or (last? value? edits) := by
  cases h : value? edit <;> simp [last?, h]

/-- The account at `address` as edits leave it that start from nothing. -/
def account (address : Address) (edits : List Edit) : Account where
  balance := (last? (balance? address) edits).getD 0
  nonce := (last? (nonce? address) edits).getD 0
  code := .plain ((last? (code? address) edits).getD (Bytes.ofList []))

/-- What is shown of the account at `address` after edits that start from nothing. -/
def shown (address : Address) (edits : List Edit) : Shown where
  account := account address edits
  isAbsent := !edits.any (creates address)
  slots key := (last? (slot? address key) edits).getD 0

theorem account_concat (address : Address) (edits : List Edit) (edit : Edit) :
    account address (edits ++ [edit]) = edit.change address (account address edits) := by
  unfold account
  simp only [last?_concat]
  cases edit with
  | balance a _ | nonce a _ | code a _ =>
      by_cases haddress : a = address <;> simp [change, balance?, nonce?, code?, haddress]
  | slot a key value => simp [change, balance?, nonce?, code?]

theorem shown_concat (address : Address) (edits : List Edit) (edit : Edit) :
    shown address (edits ++ [edit]) = edit.onto address (shown address edits) := by
  apply Shown.ext
  · exact account_concat address edits edit
  · simp [shown, onto]
  · funext key
    simp only [shown, onto, last?_concat]
    cases edit.slot? address key <;> rfl

end Edit

namespace Read

variable {overlay other : Overlay}

/-- What a read tells. -/
abbrev Result : Read → Type
  | .account _ => Option Account
  | .storage _ _ => Word
  | .code _ => Bytes
  | .blockHash _ => Hash
  | .balanceOf _ => Word
  | .nonceOf _ => UInt64
  | .storageOf _ _ => Word

/-- Reads from an overlay, and keeps what is found. -/
def perform (overlay : Overlay) : (read : Read) → read.Result × Overlay
  | .account address => overlay.readAccount address
  | .storage address key => overlay.readStorage address key
  | .code hash => overlay.readCode hash
  | .blockHash number => overlay.readBlockHash number
  | .balanceOf address => (overlay.balanceOf address, overlay)
  | .nonceOf address => (overlay.nonceOf address, overlay)
  | .storageOf address key => (overlay.storageOf address key, overlay)

def told (overlay : Overlay) (read : Read) : read.Result := (read.perform overlay).1

/-- The read tells of an account or its storage. -/
def OfAccount : Read → Prop
  | .code _ | .blockHash _ => False
  | _ => True

theorem told_congr (h : ∀ address, overlay.shown address = other.shown address) {read : Read}
    (hread : read.OfAccount) : read.told overlay = read.told other := by
  cases read with
  | account address =>
      refine (overlay.fst_readAccount address).trans ?_
      rw [h]
      exact (other.fst_readAccount address).symm
  | storage address key =>
      refine (overlay.fst_readStorage address key).trans ?_
      rw [h]
      exact (other.fst_readStorage address key).symm
  | code hash => exact hread.elim
  | blockHash number => exact hread.elim
  | balanceOf address => exact congrArg (fun shown => shown.account.balance) (h address)
  | nonceOf address => exact congrArg (fun shown => shown.account.nonce) (h address)
  | storageOf address key => exact congrArg (fun shown => shown.slots key) (h address)

/-- No read changes what is shown of an account. -/
theorem shown_perform (overlay : Overlay) (read : Read) (address : Address) :
    (read.perform overlay).2.shown address = overlay.shown address := by
  cases read with
  | account a => exact overlay.shown_readAccount a address
  | storage a key => exact overlay.shown_readStorage a address key
  | code hash => exact overlay.shown_readCode hash address
  | blockHash number => exact overlay.shown_readBlockHash number address
  | balanceOf a | nonceOf a | storageOf a key => rfl

theorem isFork_perform (overlay : Overlay) (read : Read) :
    (read.perform overlay).2.isFork = overlay.isFork := by
  have haccount (address : Address) : (overlay.readAccount address).2.isFork = overlay.isFork := by
    obtain hsame | ⟨-, hassumed⟩ := overlay.snd_readAccount address
    · rw [hsame]
    · rw [hassumed]
      rfl
  cases read with
  | account address => exact haccount address
  | storage address key =>
      refine Eq.trans ?_ (haccount address)
      change (overlay.readStorage address key).2.isFork = _
      unfold Overlay.readStorage
      dsimp only
      split
      next => rfl
      next => rfl
  | code hash =>
      change (overlay.readCode hash).2.isFork = _
      unfold Overlay.readCode
      split
      next => rfl
      next => rfl
  | blockHash number =>
      change (overlay.readBlockHash number).2.isFork = _
      unfold Overlay.readBlockHash
      split
      next => rfl
      next => rfl
  | balanceOf address | nonceOf address | storageOf address key => rfl

theorem mem_codes_perform (read : Read) {hash : Hash} (h : hash ∈ overlay.codes) :
    hash ∈ (read.perform overlay).2.codes := by
  cases read with
  | account address =>
      rw [perform, overlay.codes_readAccount]
      exact h
  | storage address key =>
      rw [perform, overlay.codes_readStorage]
      exact h
  | code other =>
      change hash ∈ (overlay.readCode other).2.codes
      unfold Overlay.readCode
      split
      next => exact h
      next => simp [h]
  | blockHash number =>
      change hash ∈ (overlay.readBlockHash number).2.codes
      unfold Overlay.readBlockHash
      split
      next => exact h
      next => exact h
  | balanceOf address | nonceOf address | storageOf address key => exact h

theorem fst_readCode_congr {hash : Hash} (h : overlay.codes[hash]? = other.codes[hash]?) :
    (overlay.readCode hash).1 = (other.readCode hash).1 := by
  unfold Overlay.readCode
  rw [h]
  cases other.codes[hash]? with
  | none => rfl
  | some bytes => rfl

theorem fst_readBlockHash_congr {number : Nat} (h : overlay.blockHashes = other.blockHashes) :
    (overlay.readBlockHash number).1 = (other.readBlockHash number).1 := by
  unfold Overlay.readBlockHash Overlay.blockHash?
  rw [h]
  cases other.blockHashes[number]? with
  | none => rfl
  | some hash => rfl

/-- An edit of one piece of state changes nothing that is read at another. -/
theorem told_apply_of_not_concerns (h : overlay.FilesCodes) {edit : Edit} {read : Read}
    (hread : ¬ edit.Concerns read) : read.told (edit.apply overlay) = read.told overlay := by
  cases read with
  | account address =>
      have hcreates : edit.creates address = false := by
        simpa using mt Edit.concerns_of_creates hread
      change (Overlay.readAccount _ address).1 = (overlay.readAccount address).1
      rw [Overlay.fst_readAccount, overlay.fst_readAccount, Edit.shown_apply]
      simp only [Edit.onto, hcreates, Bool.not_false, Bool.and_true,
        Edit.change_of_creates_eq_false hcreates]
  | storage address key =>
      change (Overlay.readStorage _ address key).1 = (overlay.readStorage address key).1
      rw [Overlay.fst_readStorage, overlay.fst_readStorage]
      refine Edit.slots_apply ?_ overlay
      rintro value rfl
      exact hread (.inl rfl)
  | code hash => exact fst_readCode_congr (Edit.getElem?_codes_apply h hread)
  | blockHash number => exact fst_readBlockHash_congr (edit.blockHashes_apply overlay)
  | balanceOf address =>
      change ((edit.apply overlay).shown address).account.balance = _
      rw [Edit.shown_apply]
      exact Edit.balance_change hread _
  | nonceOf address =>
      change ((edit.apply overlay).shown address).account.nonce = _
      rw [Edit.shown_apply]
      exact Edit.nonce_change hread _
  | storageOf address key =>
      refine Edit.slots_apply ?_ overlay
      rintro value rfl
      exact hread (.inr rfl)

end Read

namespace Use

/-- Makes an edit or a read. -/
def apply (overlay : Overlay) : Use → Overlay
  | .edit made => made.apply overlay
  | .read made => (made.perform overlay).2

def edit? : Use → Option Edit
  | .edit made => some made
  | .read _ => none

theorem isFork_apply (overlay : Overlay) (use : Use) :
    (use.apply overlay).isFork = overlay.isFork := by
  cases use with
  | edit edit => exact edit.isFork_apply overlay
  | read read => exact read.isFork_perform overlay

/-- Only an edit of its code changes the code of an account. -/
theorem code_shown_apply {use : Use} {address : Address}
    (h : ∀ bytes, use ≠ .edit (.code address bytes)) (overlay : Overlay) :
    ((use.apply overlay).shown address).account.code = (overlay.shown address).account.code := by
  cases use with
  | edit edit =>
      change ((edit.apply overlay).shown address).account.code = _
      rw [Edit.shown_apply]
      exact Edit.code_change (fun bytes hsame => h bytes (congrArg Use.edit hsame)) _
  | read read =>
      exact congrArg (fun shown => shown.account.code) (read.shown_perform overlay address)

/-- The edits of a history. -/
def edits (uses : List Use) : List Edit := uses.filterMap edit?

/-- The state after a history that starts from nothing. -/
def after (uses : List Use) : Overlay := uses.foldl apply .empty

theorem after_concat (uses : List Use) (use : Use) :
    after (uses ++ [use]) = use.apply (after uses) := by
  rw [after, List.foldl_append]
  rfl

/-- After any history, an account is shown as its edits have left it. -/
theorem shown_after (uses : List Use) (address : Address) :
    (after uses).shown address = Edit.shown address (edits uses) := by
  induction uses using List.reverseRecOn with
  | nil => rfl
  | append_singleton uses use ih =>
      rw [after_concat, edits, List.filterMap_append]
      cases use with
      | edit edit =>
          change (edit.apply (after uses)).shown address = Edit.shown address (edits uses ++ [edit])
          rw [Edit.shown_apply, Edit.shown_concat, ih]
      | read read =>
          change (read.perform (after uses)).2.shown address = Edit.shown address (edits uses ++ [])
          rw [Read.shown_perform, List.append_nil, ih]

theorem filesCodes_after (uses : List Use) : (after uses).FilesCodes := by
  induction uses using List.reverseRecOn with
  | nil =>
      intro address hcode
      cases hcode
  | append_singleton uses use ih =>
      rw [after_concat]
      cases use with
      | edit edit => exact Edit.filesCodes_apply ih edit
      | read read =>
          exact ih.mono (read.shown_perform _) fun hash hmem => read.mem_codes_perform hmem

end Use

/-! ## Histories with operations -/

/-- A use of a state of its own, or an operation that an executor performs on it. -/
inductive Action where
  | use (use : Use)
  | perform (executor : Executor) (op : Executor.Operation)

/-- Takes an action. -/
def Action.apply (db : Database) : Action → Database
  | .use made => { db with overlay := made.apply db.overlay }
  | .perform executor op => (db.run (executor.perform op)).2

namespace Edit

/-- A state tells of an account what edits have written to it last. -/
structure Told (edits : List Edit) (address : Address) (state : Overlay) : Prop where
  balanceOf : state.balanceOf address = (last? (balance? address) edits).getD 0
  nonceOf : state.nonceOf address = (last? (nonce? address) edits).getD 0
  storageOf : ∀ key, state.storageOf address key = (last? (slot? address key) edits).getD 0
  storage : ∀ key,
    (state.readStorage address key).1 = (last? (slot? address key) edits).getD 0
  isPresent : (state.readAccount address).1.isSome ↔ ∃ edit ∈ edits, edit.creates address
  account : ∀ account ∈ (state.readAccount address).1,
    account.balance = (last? (balance? address) edits).getD 0 ∧
      account.nonce = (last? (nonce? address) edits).getD 0 ∧
      account.code.hash = keccak256 ((last? (code? address) edits).getD (Bytes.ofList []))

end Edit

theorem keccak256_nil : keccak256 (Bytes.ofList []) = Hash.empty := by decide +kernel

theorem Code.hash_plain (bytes : Bytes) : (Code.plain bytes).hash = keccak256 bytes := by
  unfold Code.hash
  split
  next hempty =>
    obtain rfl : bytes = ByteArray.empty := by simpa [Code.isEmpty] using hempty
    exact keccak256_nil.symm
  next => rfl

namespace Use

variable (uses : List Use) (address : Address)

theorem told_after : Edit.Told (edits uses) address (after uses) := by
  have hshown := shown_after uses address
  have hread : ((after uses).readAccount address).1 =
      if (edits uses).any (Edit.creates address) then some (Edit.account address (edits uses))
      else none := by
    rw [Overlay.fst_readAccount, hshown]
    unfold Edit.shown
    cases (edits uses).any (Edit.creates address) <;> rfl
  refine ⟨?_, ?_, ?_, ?_, ?_, ?_⟩
  · exact congrArg (fun shown => shown.account.balance) hshown
  · exact congrArg (fun shown => shown.account.nonce) hshown
  · exact fun key => congrArg (fun shown => shown.slots key) hshown
  · intro key
    rw [Overlay.fst_readStorage, hshown]
    rfl
  · rw [hread]
    cases hany : (edits uses).any (Edit.creates address)
    · simpa using hany
    · simpa using hany
  · intro account haccount
    rw [hread] at haccount
    split at haccount
    next =>
      cases haccount
      exact ⟨rfl, rfl, Code.hash_plain _⟩
    next => cases haccount

end Use

namespace Overlay.AbsentAreEmpty

variable {overlay : Overlay}

/-- An edit that makes no account exist changes none. -/
theorem edit (h : overlay.AbsentAreEmpty) (edit : Edit) :
    (edit.apply overlay).AbsentAreEmpty := by
  intro address
  rw [Edit.shown_apply, Edit.onto]
  cases hcreates : edit.creates address with
  | true => simp
  | false =>
      rw [Edit.change_of_creates_eq_false hcreates, Bool.not_false, Bool.and_true]
      exact h address

theorem use (h : overlay.AbsentAreEmpty) (use : Use) : (use.apply overlay).AbsentAreEmpty := by
  cases use with
  | edit edit => exact h.edit edit
  | read read => exact h.mono (read.shown_perform overlay)

theorem action {db : Database} (h : db.overlay.AbsentAreEmpty) (action : Action) :
    (action.apply db).overlay.AbsentAreEmpty := by
  cases action with
  | use use => exact h.use use
  | perform executor op => exact lasting_absentAreEmpty.perform executor op h

theorem actions {db : Database} (h : db.overlay.AbsentAreEmpty) (actions : List Action) :
    (actions.foldl Action.apply db).overlay.AbsentAreEmpty := by
  induction actions generalizing db with
  | nil => exact h
  | cons action rest ih => exact ih (h.action action)

theorem empty : Overlay.empty.AbsentAreEmpty := fun _ _ => rfl

end Overlay.AbsentAreEmpty

namespace Use

theorem absentAreEmpty_after (uses : List Use) : (after uses).AbsentAreEmpty := by
  induction uses using List.reverseRecOn with
  | nil => exact .empty
  | append_singleton uses use ih =>
      rw [after_concat]
      exact ih.use use

theorem edits_append (earlier later : List Use) :
    edits (earlier ++ later) = edits earlier ++ edits later :=
  List.filterMap_append

/-- Whatever was edited and read, and in whatever order, the reads of an account tell what was
written last: zero where nothing was, and no account where none of its fields was. An edit changes
nothing that is read of another piece of state, and nothing else of the account that it changes. A
read, wherever it stands in a history, changes nothing that is told of accounts later. The ways to
read a field agree after any further uses and any operations of executors among them. -/
theorem reads_tell_last_edits (uses : List Use) (address : Address) :
    Edit.Told (edits uses) address (after uses) ∧
      (∀ edit read, ¬ edit.Concerns read →
        Read.told (after (uses ++ [.edit edit])) read = Read.told (after uses) read) ∧
      (∀ edit, ((after (uses ++ [.edit edit])).readAccount address).1.getD {} =
        edit.change address (((after uses).readAccount address).1.getD {})) ∧
      (∀ made later read, read.OfAccount →
        Read.told (after (uses ++ .read made :: later)) read =
          Read.told (after (uses ++ later)) read) ∧
      ∀ (source : Source) (actions : List Action),
        (actions.foldl Action.apply { overlay := after uses, source }).overlay.Consistent
          address := by
  refine ⟨told_after uses address, ?_, ?_, ?_, ?_⟩
  · intro edit read hread
    rw [after_concat]
    exact Read.told_apply_of_not_concerns (filesCodes_after uses) hread
  · intro edit
    rw [(absentAreEmpty_after _).getD_readAccount, (absentAreEmpty_after _).getD_readAccount,
      after_concat]
    exact congrArg Shown.account (edit.shown_apply (after uses) address)
  · intro made later read hread
    refine Read.told_congr ?_ hread
    intro other
    rw [shown_after, shown_after, edits_append, edits_append]
    rfl
  · intro source actions
    exact (Overlay.AbsentAreEmpty.actions (absentAreEmpty_after uses) actions).consistent address

/-- An account that is read before it is written to, in between, and beside another one of which
only a slot is written. -/
theorem reads_tell_last_edits_of_interleaved :
    let uses : List Use :=
      [.read (.storage 0xa 1), .edit (.balance 0xa 7), .edit (.slot 0xb 1 9), .read (.account 0xc),
        .edit (.slot 0xa 1 4), .read (.storage 0xa 2), .edit (.code 0xa (Bytes.ofList [0x60, 0])),
        .edit (.slot 0xa 1 5), .edit (.balance 0xa 8)]
    (after uses).balanceOf 0xa = 8 ∧ (after uses).nonceOf 0xa = 0 ∧
      ((after uses).readStorage 0xa 1).1 = 5 ∧ ((after uses).readStorage 0xa 2).1 = 0 ∧
      (∀ account ∈ ((after uses).readAccount 0xa).1,
        account.code.hash = keccak256 (Bytes.ofList [0x60, 0])) ∧
      ¬ (Edit.slot 0xa 2 3).Concerns (.storage 0xa 1) ∧
      Read.told (after (uses ++ [.edit (.slot 0xa 2 3)])) (.storage 0xa 1) =
        Read.told (after uses) (.storage 0xa 1) ∧
      (Read.account 0xb).OfAccount ∧
      Read.told (after (uses ++ [.read (.storage 0xb 4)])) (.account 0xb) =
        Read.told (after uses) (.account 0xb) := by
  intro uses
  obtain ⟨htold, hedit, -, hread, -⟩ := reads_tell_last_edits uses 0xa
  have hother : ¬ (Edit.slot 0xa 2 3).Concerns (.storage 0xa 1) := by simp [Edit.Concerns]
  refine ⟨htold.balanceOf, htold.nonceOf, htold.storage 1, htold.storage 2, ?_, hother,
    hedit _ _ hother, trivial, ?_⟩
  · intro account haccount
    exact (htold.account account haccount).2.2
  · have hsame := hread (.storage 0xb 4) [] (.account 0xb) trivial
    rwa [List.append_nil] at hsame

end Use

end ForkReplay
