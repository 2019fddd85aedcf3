import ForkReplay.Evm.Validity

/-!
# What the checks of a transaction ask for

Each check passes under a condition that can be read without going through its branches.
-/

namespace ForkReplay

/-- Whether an account has code of its own, neither none nor a delegation. -/
def Account.ownsCode (account : Account) : Bool :=
  !account.code.isEmpty && account.code.delegate?.isNone

namespace Evm

variable {config : Config} {block : BlockEnv} {tx : Transaction} {caller : Account}

theorem bind_eq_ok {ε : Type} {first : Except ε Unit} {rest : Unit → Except ε Unit} :
    (first >>= rest) = .ok () ↔ first = .ok () ∧ rest () = .ok () := by
  cases first with
  | error cause => simp [bind, Except.bind]
  | ok value => simp [bind, Except.bind]

theorem checkBlock_eq_ok {fork : HardFork} :
    checkBlock fork block = .ok () ↔
      (fork.has .merge → block.prevRandao.isSome) ∧ (fork.has .cancun → block.blob.isSome) := by
  unfold checkBlock
  cases hmerge : fork.has .merge <;> cases hcancun : fork.has .cancun <;>
    cases block.prevRandao <;> cases block.blob <;> simp

theorem checkTransaction_eq_ok :
    checkTransaction config block tx = .ok () ↔
      checkChain config tx = .ok () ∧ checkKind config.fork block tx = .ok () ∧
        tx.gasLimit ≤ block.gasLimit ∧
        (config.fork.has .shanghai → tx.callee = none → tx.data.size ≤ Gas.maxInitCodeSize) := by
  rw [checkTransaction, bind_eq_ok, bind_eq_ok]
  refine and_congr_right fun _ => and_congr_right fun _ => ?_
  split
  next habove => simp [UInt64.not_le.mpr habove]
  next hwithin =>
    rw [and_iff_right (UInt64.not_lt.mp hwithin)]
    cases config.fork.has .shanghai <;> cases tx.callee <;> simp

theorem checkIntrinsicGas_eq_ok {gas : IntrinsicGas} :
    checkIntrinsicGas gas tx = .ok () ↔
      gas.initial ≤ tx.gasLimit.toNat ∧ gas.floor ≤ tx.gasLimit.toNat := by
  unfold checkIntrinsicGas
  dsimp only
  split
  next hinitial => simp [Nat.not_le_of_lt hinitial]
  next hinitial =>
    rw [and_iff_right (Nat.le_of_not_lt hinitial)]
    split
    next hfloor => simp [Nat.not_le_of_lt hfloor]
    next hfloor => simp [Nat.le_of_not_lt hfloor]

/-- A caller has no code of its own, its nonce is that of the transaction where that counts,
and it can pay for all that the transaction may take. -/
theorem checkCaller_eq_ok :
    checkCaller config tx caller = .ok () ↔
      ¬ caller.ownsCode ∧ (config.checksNonce → tx.nonce = caller.nonce) ∧
        ∃ cost, maxSpending? tx = some cost ∧ cost ≤ caller.balance.toNat := by
  have hnonce : (config.checksNonce → tx.nonce = caller.nonce) ↔
      ¬ (config.checksNonce && caller.nonce < tx.nonce) ∧
        ¬ (config.checksNonce && tx.nonce < caller.nonce) := by
    cases config.checksNonce with
    | false => simp
    | true => simp [UInt64.le_antisymm_iff]
  rw [hnonce, checkCaller, Account.ownsCode]
  split
  next hown => simp [hown]
  next hown =>
    rw [and_iff_right hown]
    split
    next hhigh => simp [hhigh]
    next hhigh =>
      split
      next hlow => simp [hlow]
      next hlow =>
        rw [and_iff_right ⟨hhigh, hlow⟩]
        cases maxSpending? tx with
        | none => simp
        | some cost => simp

theorem checkCaller_of_ownsCode (h : caller.ownsCode) :
    checkCaller config tx caller = .error .callerWithCode := if_pos h

/-! ## Fees -/

theorem baseFee_le_of_checkPlainFee {baseFee : Nat} (h : checkPlainFee tx baseFee = .ok ()) :
    baseFee ≤ tx.gasPrice := by
  unfold checkPlainFee at h
  split at h
  next => cases h
  next hnot => exact Nat.le_of_not_lt hnot

theorem baseFee_le_of_checkDynamicFee {baseFee : Nat} (h : checkDynamicFee tx baseFee = .ok ()) :
    baseFee ≤ min tx.gasPrice (baseFee + tx.priorityFee.getD 0) := by
  unfold checkDynamicFee at h
  dsimp only at h
  split at h
  next => cases h
  next =>
    split at h
    next => cases h
    next hnot => exact Nat.le_of_not_lt hnot

/-- A transaction of an Ethereum kind pays the base fee at least. -/
theorem baseFee_le_of_checkKind {fork : HardFork} (h : checkKind fork block tx = .ok ())
    (hkind : tx.kind ≤ 4) :
    block.baseFee.toNat ≤ tx.effectiveGasPrice block.baseFee.toNat := by
  have hplain (hlow : tx.kind < 2) (hfee : checkPlainFee tx block.baseFee.toNat = .ok ()) :
      block.baseFee.toNat ≤ tx.effectiveGasPrice block.baseFee.toNat := by
    rw [Transaction.effectiveGasPrice, if_pos hlow]
    exact baseFee_le_of_checkPlainFee hfee
  have hdynamic (hhigh : ¬ tx.kind < 2)
      (hfee : checkDynamicFee tx block.baseFee.toNat = .ok ()) :
      block.baseFee.toNat ≤ tx.effectiveGasPrice block.baseFee.toNat := by
    have hprice := baseFee_le_of_checkDynamicFee hfee
    rw [Transaction.effectiveGasPrice, if_neg hhigh]
    cases htip : tx.priorityFee with
    | none => exact Nat.le_trans hprice (Nat.min_le_left _ _)
    | some tip =>
        rw [htip] at hprice
        exact hprice
  rw [UInt8.le_iff_toNat_le] at hkind
  rw [UInt8.lt_iff_toNat_lt] at hplain hdynamic
  unfold checkKind at h
  dsimp only at h
  split at h
  next heq => exact hplain (heq ▸ by decide) h
  next heq => exact hplain (heq ▸ by decide) (bind_eq_ok.mp h).2
  next heq => exact hdynamic (heq ▸ by decide) (bind_eq_ok.mp h).2
  next heq => exact hdynamic (heq ▸ by decide) (bind_eq_ok.mp (bind_eq_ok.mp h).2).1
  next heq => exact hdynamic (heq ▸ by decide) (bind_eq_ok.mp (bind_eq_ok.mp h).2).1
  next h0 h1 h2 h3 h4 =>
    have hfour : (4 : UInt8).toNat = 4 := rfl
    simp only [imp_false] at h0 h1 h2 h3 h4
    omega

/-- No transaction pays more for gas than its highest fee. -/
theorem effectiveGasPrice_le (tx : Transaction) (baseFee : Nat) :
    tx.effectiveGasPrice baseFee ≤ tx.gasPrice := by
  unfold Transaction.effectiveGasPrice
  split
  next => exact Nat.le_refl _
  next =>
    split
    next => exact Nat.le_refl _
    next => exact Nat.min_le_left _ _

theorem price_le_of_checkBlobs {price : Nat} (h : checkBlobs tx price = .ok ()) :
    price ≤ tx.maxFeePerBlobGas := by
  unfold checkBlobs at h
  split at h
  next => cases h
  next hnot => exact Nat.le_of_not_lt hnot

/-- A transaction with blobs allows for their price. -/
theorem blobPrice_le_of_checkKind {fork : HardFork} (h : checkKind fork block tx = .ok ())
    (hkind : tx.kind = 3) : (block.blob.map BlobGas.price).getD 0 ≤ tx.maxFeePerBlobGas := by
  unfold checkKind at h
  rw [hkind] at h
  exact price_le_of_checkBlobs (bind_eq_ok.mp (bind_eq_ok.mp h).2).2

/-- What a transaction pays before it runs leaves its value of the most that it may take. -/
theorem prepayment_add_value_le {fork : HardFork} {cost : Nat}
    (h : checkKind fork block tx = .ok ()) (hcost : maxSpending? tx = some cost) :
    prepayment block tx + tx.value.toNat ≤ cost := by
  have hgas : tx.gasLimit.toNat * tx.effectiveGasPrice block.baseFee.toNat ≤
      tx.gasLimit.toNat * tx.gasPrice := Nat.mul_le_mul_left _ (effectiveGasPrice_le tx _)
  unfold maxSpending? at hcost
  unfold prepayment
  dsimp only at hcost ⊢
  by_cases hkind : tx.kind = 3
  · have hblobs := Nat.mul_le_mul_left (gasPerBlob * tx.blobHashes.length)
      (blobPrice_le_of_checkKind h hkind)
    rw [if_pos hkind] at hcost ⊢
    split at hcost
    next => cases hcost
    next =>
      cases hcost
      omega
  · rw [if_neg hkind] at hcost ⊢
    split at hcost
    next => cases hcost
    next =>
      cases hcost
      omega

end Evm

end ForkReplay
