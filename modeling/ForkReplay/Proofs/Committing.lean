import ForkReplay.Proofs.Database

/-!
# What a commit leaves

A commit goes through the accounts of a world one by one, and each of them changes the
overlay at its own address only. So what an overlay holds of an account afterwards
depends on what it held before and on the account's own entry in the world.
-/

namespace ForkReplay

/-! ## Folding over a map -/

section Fold

variable {K V S R : Type} {step : S → K → V → S} {read : S → R} {key : K}

theorem read_foldl_of_not_mem (hother : ∀ state other value, other ≠ key →
      read (step state other value) = read state) (entries : List (K × V)) (start : S)
    (hkey : ∀ value, (key, value) ∉ entries) :
    read (entries.foldl (fun state entry => step state entry.1 entry.2) start) = read start := by
  induction entries generalizing start with
  | nil => rfl
  | cons entry rest ih =>
      have hne : entry.1 ≠ key := by
        rintro rfl
        exact hkey entry.2 List.mem_cons_self
      rw [List.foldl_cons, ih _ (fun value hmem => hkey value (List.mem_cons_of_mem _ hmem)),
        hother _ _ _ hne]

variable [Ord K] [Std.TransOrd K]

/-- What no entry of a map changes is read after all of them as before. -/
theorem read_foldl_of_kept (read : S → R)
    (hkept : ∀ state key value, read (step state key value) = read state)
    (map : Std.ExtTreeMap K V) (start : S) : read (map.foldl step start) = read start := by
  rw [Std.ExtTreeMap.foldl_eq_foldl_toList]
  generalize map.toList = entries
  induction entries generalizing start with
  | nil => rfl
  | cons entry rest ih => rw [List.foldl_cons, ih, hkept]

variable [Std.LawfulEqOrd K]

/-- Where each entry of a map changes what is read at its own key only, what is read after
all entries depends on the one entry at that key. -/
theorem read_foldl (read : S → R) (key : K) (change : V → R → R)
    (hself : ∀ state value, read (step state key value) = change value (read state))
    (hother : ∀ state other value, other ≠ key → read (step state other value) = read state)
    (map : Std.ExtTreeMap K V) (start : S) :
    read (map.foldl step start) =
      match map[key]? with
      | none => read start
      | some value => change value (read start) := by
  rw [Std.ExtTreeMap.foldl_eq_foldl_toList]
  cases hentry : map[key]? with
  | none =>
      refine read_foldl_of_not_mem hother _ _ ?_
      intro value hmem
      rw [Std.ExtTreeMap.mem_toList_iff_getElem?_eq_some, hentry] at hmem
      cases hmem
  | some value =>
      obtain ⟨before, after, hsplit⟩ := List.append_of_mem
        (Std.ExtTreeMap.mem_toList_iff_getElem?_eq_some.mpr hentry)
      -- The keys are distinct, so this one occurs neither before nor after its entry.
      have hdistinct := map.distinct_keys_toList
      rw [hsplit, List.pairwise_append, List.pairwise_cons] at hdistinct
      obtain ⟨-, ⟨hafter, -⟩, hbefore⟩ := hdistinct
      rw [hsplit, List.foldl_append, List.foldl_cons, read_foldl_of_not_mem hother, hself,
        read_foldl_of_not_mem hother]
      · intro other hmem
        exact hbefore _ hmem _ List.mem_cons_self Std.ReflOrd.compare_self
      · intro other hmem
        exact hafter _ hmem Std.ReflOrd.compare_self

end Fold

/-! ## One account -/

namespace AccessedAccount

/-- What is held of a touched account after the commit, by what was held before. -/
def written (entry : AccessedAccount) (held : HeldAccount) : HeldAccount :=
  if entry.destroyed then { standing := .absent }
  else
    { account := entry.account
      storage := entry.slots.foldl (fun storage key slot => storage.insert key slot.present)
        (if entry.created then ∅ else held.storage)
      standing := if entry.created || held.standing = .cleared then .cleared else .present }

variable {entry : AccessedAccount} {held : HeldAccount} {key : Word}

theorem written_of_destroyed (h : entry.destroyed = true) :
    entry.written held = { standing := .absent } := by
  rw [written, if_pos h]

/-- A slot that the transaction has accessed is stored with its last value. The others
stay as they were, or are gone if the transaction created the account. -/
theorem getElem?_storage_written (h : entry.destroyed = false) :
    (entry.written held).storage[key]? =
      match entry.slots[key]? with
      | some slot => some slot.present
      | none => if entry.created then none else held.storage[key]? := by
  rw [written, if_neg (by simp [h])]
  rw [read_foldl (fun storage : WordMap Word => storage[key]?) key fun slot _ => some slot.present]
  · cases entry.slots[key]? with
    | some slot => rfl
    | none => by_cases hcreated : entry.created <;> simp [hcreated]
  · intro storage slot
    exact Std.ExtTreeMap.getElem?_insert_self
  · intro storage other slot hne
    rw [Std.ExtTreeMap.getElem?_insert, if_neg (by simpa using hne)]

theorem standing_written (h : entry.destroyed = false) :
    (entry.written held).standing =
      if entry.created || held.standing = .cleared then .cleared else .present := by
  rw [written, if_neg (by simp [h])]

theorem account_written (h : entry.destroyed = false) :
    (entry.written held).account = entry.account := by
  rw [written, if_neg (by simp [h])]

end AccessedAccount

/-! ## The whole world -/

namespace Overlay

/-- Filing a code changes the codes alone. -/
theorem fileCode_eq (overlay : Overlay) (code : Code) :
    ∃ codes, overlay.fileCode code = { overlay with codes } := by
  unfold fileCode
  split
  next => exact ⟨_, rfl⟩
  next => exact ⟨_, rfl⟩

theorem getElem?_commitAccount (overlay : Overlay) (address other : Address)
    (entry : AccessedAccount) :
    (overlay.commitAccount other entry).accounts[address]? =
      if entry.touched ∧ other = address then some (entry.written (overlay.held other))
      else overlay.accounts[address]? := by
  unfold commitAccount AccessedAccount.written
  cases htouched : entry.touched with
  | false => simp
  | true =>
      cases hdestroyed : entry.destroyed with
      | true => simp [getElem?_hold]
      | false =>
          obtain ⟨codes, hfiled⟩ := overlay.fileCode_eq entry.account.code
          simp [getElem?_hold, hfiled]

/-- What a commit leaves at an address is decided by the entry there. -/
theorem getElem?_commit (overlay : Overlay) (world : World) (address : Address) :
    (overlay.commit world).accounts[address]? =
      match world.accounts[address]? with
      | none => overlay.accounts[address]?
      | some entry =>
          if entry.touched then some (entry.written (overlay.held address))
          else overlay.accounts[address]? := by
  -- What is held before counts in `written`, so it is part of what is read.
  refine (read_foldl (fun overlay : Overlay => overlay.accounts[address]?) address
    (fun entry before =>
      if entry.touched then some (entry.written (before.getD { standing := .absent }))
      else before) ?_ ?_ world.accounts overlay).trans ?_
  · intro overlay entry
    rw [getElem?_commitAccount]
    simp [held]
  · intro overlay other entry hne
    rw [getElem?_commitAccount, if_neg (fun h => hne h.2)]
  · cases world.accounts[address]? with
    | none => rfl
    | some entry => rfl

/-- Writing back an account changes accounts and codes alone. -/
theorem commitAccount_eq (overlay : Overlay) (address : Address) (entry : AccessedAccount) :
    ∃ accounts codes, overlay.commitAccount address entry = { overlay with accounts, codes } := by
  unfold commitAccount
  split
  next => exact ⟨_, _, rfl⟩
  next =>
    dsimp only
    split
    next => exact ⟨_, _, rfl⟩
    next =>
      obtain ⟨codes, hfiled⟩ := overlay.fileCode_eq entry.account.code
      rw [hfiled]
      exact ⟨_, _, rfl⟩

theorem blockHashes_commit (overlay : Overlay) (world : World) :
    (overlay.commit world).blockHashes = overlay.blockHashes := by
  refine read_foldl_of_kept blockHashes (fun overlay address entry => ?_) world.accounts overlay
  obtain ⟨accounts, codes, heq⟩ := overlay.commitAccount_eq address entry
  rw [heq]

theorem isFork_commit (overlay : Overlay) (world : World) :
    (overlay.commit world).isFork = overlay.isFork := by
  refine read_foldl_of_kept isFork (fun overlay address entry => ?_) world.accounts overlay
  obtain ⟨accounts, codes, heq⟩ := overlay.commitAccount_eq address entry
  rw [heq]

end Overlay

end ForkReplay
