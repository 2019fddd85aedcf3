import ForkReplay.Proofs.OwnState

/-!
# Codes under their digests

A state of its own files the codes of its accounts under their digests. The first use that
concerns a digest settles what is read under it: a deployment files its bytes, and a read of
a digest that is not filed yet files empty code. So the code of an account is read under its
digest as it was deployed, unless somebody has asked for the digest before.
-/

namespace ForkReplay

namespace Overlay

theorem getElem?_codes_empty (hash : Hash) :
    empty.codes[hash]? = if hash = Hash.empty ∨ hash = 0 then some (Bytes.ofList []) else none := by
  simp only [empty, Std.ExtTreeMap.getElem?_insert, Std.LawfulEqCmp.compare_eq_iff_eq,
    Std.ExtTreeMap.getElem?_empty, eq_comm (a := hash)]
  by_cases hempty : Hash.empty = hash
  · rw [if_pos hempty, if_pos (.inl hempty)]
  · rw [if_neg hempty]
    exact if_congr (or_iff_right hempty).symm rfl rfl

theorem fst_readCode (overlay : Overlay) (hash : Hash) :
    (overlay.readCode hash).1 = overlay.codes[hash]?.getD (Bytes.ofList []) := by
  unfold readCode
  cases overlay.codes[hash]? with
  | some bytes => rfl
  | none => rfl

theorem getElem?_codes_readCode (overlay : Overlay) (asked hash : Hash) :
    (overlay.readCode asked).2.codes[hash]? =
      overlay.codes[hash]?.or (if asked = hash then some (Bytes.ofList []) else none) := by
  unfold readCode
  by_cases hsame : asked = hash
  · subst hsame
    cases hasked : overlay.codes[asked]? with
    | some bytes => simp [hasked]
    | none => simp
  · cases hasked : overlay.codes[asked]? with
    | some bytes => simp [hsame]
    | none => simp [Std.ExtTreeMap.getElem?_insert, hsame]

end Overlay

namespace Use

variable {uses : List Use} {hash : Hash} {bytes : Bytes} {address : Address}

/-- What a use files under a digest if nothing is filed there. -/
def files? (hash : Hash) : Use → Option Bytes
  | .edit (.code _ bytes) =>
      if (Code.plain bytes).isEmpty = false ∧ keccak256 bytes = hash then some bytes else none
  | .read (.code asked) => if asked = hash then some (Bytes.ofList []) else none
  | _ => none

theorem getElem?_codes_apply {overlay : Overlay} (h : overlay.FilesCodes) (use : Use)
    (hash : Hash) :
    (use.apply overlay).codes[hash]? = overlay.codes[hash]?.or (use.files? hash) := by
  cases use with
  | edit edit =>
      cases edit with
      | code address bytes =>
          refine (overlay.getElem?_codes_fileCode (.plain bytes) hash).trans ?_
          rw [Code.hash_plain, files?]
          by_cases hmem : hash ∈ overlay.codes
          · simp [hmem]
          · simp [hmem, Code.bytes]
      | balance address value | nonce address value | slot address key value =>
          refine Eq.trans ?_ Option.or_none.symm
          exact Edit.getElem?_codes_apply h (by simp [Edit.Concerns])
  | read read =>
      cases read with
      | code asked => exact overlay.getElem?_codes_readCode asked hash
      | account address =>
          refine Eq.trans ?_ Option.or_none.symm
          exact congrArg (·[hash]?) (overlay.codes_readAccount address)
      | storage address key =>
          refine Eq.trans ?_ Option.or_none.symm
          exact congrArg (·[hash]?) (overlay.codes_readStorage address key)
      | blockHash number =>
          refine Eq.trans ?_ Option.or_none.symm
          change (overlay.readBlockHash number).2.codes[hash]? = _
          unfold Overlay.readBlockHash
          split
          next => rfl
          next => rfl
      | balanceOf address | nonceOf address | storageOf address key => exact Option.or_none.symm

/-- What is found under a digest was there from the start, or was filed by the first use that
files something there. -/
theorem getElem?_codes_after (uses : List Use) (hash : Hash) :
    (after uses).codes[hash]? = Overlay.empty.codes[hash]?.or (uses.findSome? (files? hash)) := by
  induction uses using List.reverseRecOn with
  | nil => exact Option.or_none.symm
  | append_singleton uses use ih =>
      rw [after_concat, getElem?_codes_apply (filesCodes_after uses), ih, List.findSome?_append,
        Option.or_assoc]
      cases hfiles : use.files? hash with
      | none => simp [hfiles]
      | some bytes => simp [hfiles]

/-- The code with this digest that a use deploys. -/
def deployed? (hash : Hash) : Use → Option Bytes
  | .edit (.code _ bytes) => if keccak256 bytes = hash then some bytes else none
  | _ => none

/-- A digest is asked for before a code that has it is deployed. The digest zero stands for no
code from the start. -/
def Forestalled (uses : List Use) (hash : Hash) : Prop :=
  hash = 0 ∨ .read (.code hash) ∈ uses.takeWhile fun use => (use.deployed? hash).isNone

instance (uses : List Use) (hash : Hash) : Decidable (Forestalled uses hash) :=
  inferInstanceAs (Decidable (_ ∨ _))

/-- The codes of accounts in a history: those that are deployed, and the empty one. -/
def codes (uses : List Use) : List Bytes :=
  Bytes.ofList [] :: uses.filterMap fun
    | .edit (.code _ bytes) => some bytes
    | _ => none

/-- Codes with one digest are one code. -/
def CollisionFree (uses : List Use) : Prop :=
  ∀ bytes ∈ codes uses, ∀ other ∈ codes uses, keccak256 bytes = keccak256 other → bytes = other

instance (uses : List Use) : Decidable (CollisionFree uses) :=
  inferInstanceAs (Decidable (∀ bytes ∈ codes uses, _))

theorem mem_codes_of_mem (h : .edit (.code address bytes) ∈ uses) : bytes ∈ codes uses :=
  List.mem_cons_of_mem _ (List.mem_filterMap.mpr ⟨_, h, rfl⟩)

theorem mem_of_deployed? {use : Use} (h : use.deployed? hash = some bytes) (huse : use ∈ uses) :
    bytes ∈ codes uses ∧ keccak256 bytes = hash := by
  cases use with
  | read read => cases h
  | edit edit =>
      cases edit with
      | balance address value | nonce address value | slot address key value => cases h
      | code address deployed =>
          simp only [deployed?, Option.ite_none_right_eq_some, Option.some.injEq] at h
          obtain ⟨hhash, rfl⟩ := h
          exact ⟨mem_codes_of_mem huse, hhash⟩

theorem mem_of_last? (h : Edit.last? (Edit.code? address) (edits uses) = some bytes) :
    .edit (.code address bytes) ∈ uses := by
  obtain ⟨edit, hedit, hcode⟩ := List.mem_filterMap.mp (List.mem_of_getLast? h)
  obtain ⟨use, huse, hmade⟩ := List.mem_filterMap.mp hedit
  cases use with
  | read read => cases hmade
  | edit made =>
      cases hmade
      cases edit with
      | balance a value | nonce a value | slot a key value => cases hcode
      | code a deployed =>
          obtain ⟨rfl, rfl⟩ : a = address ∧ deployed = bytes := by simpa [Edit.code?] using hcode
          exact huse

/-- A use files the code that it deploys, or nothing under the digest that it asks for. -/
theorem files?_eq (hhash : hash ≠ Hash.empty) (use : Use) :
    use.files? hash = (use.deployed? hash).or
      (if use = .read (.code hash) then some (Bytes.ofList []) else none) := by
  cases use with
  | read read =>
      cases read with
      | code asked => simp [files?, deployed?]
      | _ => simp [files?, deployed?]
  | edit edit =>
      cases edit with
      | code address bytes =>
          by_cases hsame : keccak256 bytes = hash
          · have hcode : (Code.plain bytes).isEmpty = false := by
              rw [← Bool.not_eq_true]
              intro hempty
              apply hhash
              rw [← hsame, ← Code.hash_plain, Code.hash, if_pos hempty]
            simp [files?, deployed?, hsame, hcode]
          · simp [files?, deployed?, hsame]
      | _ => simp [files?, deployed?]

/-- The first use that files something under a digest is a deployment, unless the digest was
asked for earlier. -/
theorem findSome?_files? (hhash : hash ≠ Hash.empty) (uses : List Use) :
    uses.findSome? (files? hash) =
      if .read (.code hash) ∈ uses.takeWhile fun use => (use.deployed? hash).isNone then
        some (Bytes.ofList [])
      else uses.findSome? (deployed? hash) := by
  induction uses with
  | nil => rfl
  | cons use rest ih =>
      rw [List.findSome?_cons, List.takeWhile_cons, files?_eq hhash, List.findSome?_cons, ih]
      cases hdeployed : use.deployed? hash with
      | some bytes => simp
      | none =>
          by_cases hread : use = .read (.code hash)
          · simp [hread]
          · simp [hread, Ne.symm hread]

/-- Under the digest of an account's code its bytes are found, unless the digest was asked for
before: then nothing is. -/
theorem getElem?_codes_of_last? (hfree : CollisionFree uses)
    (hlast : Edit.last? (Edit.code? address) (edits uses) = some bytes) :
    (after uses).codes[keccak256 bytes]? =
      some (if Forestalled uses (keccak256 bytes) then Bytes.ofList [] else bytes) := by
  have hmem := mem_of_last? hlast
  rw [getElem?_codes_after, Overlay.getElem?_codes_empty]
  by_cases hempty : keccak256 bytes = Hash.empty
  · -- The digest of the empty code is filed from the start.
    obtain rfl : bytes = Bytes.ofList [] :=
      hfree _ (mem_codes_of_mem hmem) _ List.mem_cons_self (hempty.trans keccak256_nil.symm)
    simp [hempty]
  · by_cases hzero : keccak256 bytes = 0
    · rw [if_pos (.inr hzero), if_pos (.inl hzero)]
      rfl
    · unfold Forestalled
      rw [if_neg (not_or.mpr ⟨hempty, hzero⟩), Option.none_or, findSome?_files? hempty]
      simp only [hzero, false_or]
      split
      next => rfl
      next =>
        -- Somebody deploys a code with this digest, and there is only one.
        cases hfound : uses.findSome? (deployed? (keccak256 bytes)) with
        | none =>
            have hnone := List.findSome?_eq_none_iff.mp hfound _ hmem
            simp [deployed?] at hnone
        | some found =>
            obtain ⟨use, huse, hdeployed⟩ := List.exists_of_findSome?_eq_some hfound
            obtain ⟨hcode, hhash⟩ := mem_of_deployed? hdeployed huse
            rw [hfree _ hcode _ (mem_codes_of_mem hmem) hhash]

/-- What is read under the digest of the code that was deployed to an account last. -/
theorem fst_readCode_after (hfree : CollisionFree uses)
    (hlast : Edit.last? (Edit.code? address) (edits uses) = some bytes) :
    (((after uses).readAccount address).2.readCode (keccak256 bytes)).1 =
      if Forestalled uses (keccak256 bytes) then Bytes.ofList [] else bytes := by
  rw [Overlay.fst_readCode, Overlay.codes_readAccount, getElem?_codes_of_last? hfree hlast]
  rfl

/-- Whatever was edited and read, and in whatever order: the code of an account that was
deployed to is read under its digest as it was deployed last, as long as the codes of the history
have different digests and this digest was not asked for before a code with it was deployed. If it
was, the code reads as empty for good. -/
theorem code_reads_as_deployed (uses : List Use) (hfree : CollisionFree uses) (address : Address)
    (bytes : Bytes) (hlast : Edit.last? (Edit.code? address) (edits uses) = some bytes) :
    ∃ account, ((after uses).readAccount address).1 = some account ∧
      account.code.hash = keccak256 bytes ∧
      (((after uses).readAccount address).2.readCode account.code.hash).1 =
        if Forestalled uses (keccak256 bytes) then Bytes.ofList [] else bytes := by
  have htold := told_after uses address
  have hcreates : ∃ edit ∈ edits uses, edit.creates address :=
    ⟨_, List.mem_filterMap.mpr ⟨_, mem_of_last? hlast, rfl⟩, decide_eq_true rfl⟩
  obtain ⟨account, haccount⟩ := Option.isSome_iff_exists.mp (htold.isPresent.mpr hcreates)
  have hhash : account.code.hash = keccak256 bytes := by
    rw [(htold.account account haccount).2.2, hlast]
    rfl
  refine ⟨account, haccount, hhash, ?_⟩
  rw [hhash]
  exact fst_readCode_after hfree hlast

theorem keccak256_stop : keccak256 (Bytes.ofList [0x00]) =
    0xbc36789e7a1e281436464229828f817d6612f7b477d66591ff96a9e064bcc98a := by
  decide +kernel

theorem keccak256_push : keccak256 (Bytes.ofList [0x60, 0x00]) =
    0x7ad118d6cc8642c86c03827f276d8b791a65e5c99a3845faf186be720a1455d := by
  decide +kernel

/-- A code that two accounts have, of which one gets another code, with reads of its own digest
and of an unknown one after it was deployed. -/
theorem code_reads_as_deployed_to_both :
    let uses : List Use :=
      [.edit (.code 0xa (Bytes.ofList [0x00])), .edit (.code 0xb (Bytes.ofList [0x00])),
        .read (.code (keccak256 (Bytes.ofList [0x00]))), .read (.code 7), .edit (.balance 0xb 5),
        .edit (.code 0xa (Bytes.ofList [0x60, 0x00]))]
    CollisionFree uses ∧
      Edit.last? (Edit.code? 0xb) (edits uses) = some (Bytes.ofList [0x00]) ∧
      ∃ account, ((after uses).readAccount 0xb).1 = some account ∧
        (((after uses).readAccount 0xb).2.readCode account.code.hash).1 = Bytes.ofList [0x00] := by
  intro uses
  have hfree : CollisionFree uses := by
    simp [CollisionFree, codes, uses, keccak256_nil, keccak256_stop, keccak256_push, Hash.empty]
  have hlast : Edit.last? (Edit.code? 0xb) (edits uses) = some (Bytes.ofList [0x00]) := rfl
  have hfirst : ¬ Forestalled uses (keccak256 (Bytes.ofList [0x00])) := by
    simp [Forestalled, uses, deployed?, keccak256_stop]
  obtain ⟨account, haccount, -, hcode⟩ := code_reads_as_deployed uses hfree 0xb _ hlast
  exact ⟨hfree, hlast, account, haccount, hcode.trans (if_neg hfirst)⟩

/-- The digest of a single stop is asked for, and then the code is deployed: it reads as empty. -/
theorem code_reads_as_empty_of_forestalled :
    let uses : List Use :=
      [.read (.code (keccak256 (Bytes.ofList [0x00]))), .edit (.code 0xb (Bytes.ofList [0x00]))]
    CollisionFree uses ∧
      Edit.last? (Edit.code? 0xb) (edits uses) = some (Bytes.ofList [0x00]) ∧
      ∀ account, ((after uses).readAccount 0xb).1 = some account →
        (((after uses).readAccount 0xb).2.readCode account.code.hash).1 ≠
          Bytes.ofList [0x00] := by
  intro uses
  have hfree : CollisionFree uses := by
    simp [CollisionFree, codes, uses, keccak256_nil, keccak256_stop, Hash.empty]
  have hlast : Edit.last? (Edit.code? 0xb) (edits uses) = some (Bytes.ofList [0x00]) := rfl
  have hforestalled : Forestalled uses (keccak256 (Bytes.ofList [0x00])) :=
    .inr List.mem_cons_self
  refine ⟨hfree, hlast, ?_⟩
  intro account haccount
  rw [((told_after uses 0xb).account account haccount).2.2, hlast, Option.getD_some,
    fst_readCode_after hfree hlast, if_pos hforestalled]
  decide

end Use

end ForkReplay
