import ForkReplay.Evm.Stage

/-!
# Delegation by authorization

An authorization list lets accounts without code of their own name another account
whose code runs for them. An entry that does not apply is passed over.
-/

namespace ForkReplay

/-- Whether an authorization applies to the account of its signer: the account has no
code of its own and its nonce is the signed one. -/
def Authorization.applies (authorization : Authorization) (account : Account) : Bool :=
  (account.code.isEmpty || account.code.delegate?.isSome) &&
    authorization.nonce = account.nonce

/-- The code that an authorization gives to the account of its signer. -/
def Authorization.code (authorization : Authorization) : Code :=
  if authorization.address = 0 then default else .delegation authorization.address

namespace Evm

open Stage

/-- Applies an authorization list, and counts the signers whose accounts exist. An
entry for another chain, without a signer, or out of turn is passed over. -/
def applyAuthorizations (config : Config) : List Authorization → World → Nat → Stage (World × Nat)
  | [], world, existing => return (world, existing)
  | authorization :: rest, world, existing => do
      let foreign := authorization.chainId ≠ 0 ∧
        authorization.chainId ≠ BitVec.ofNat 256 config.chainId.toNat
      match authorization.authority with
      | none => applyAuthorizations config rest world existing
      | some authority =>
          if foreign ∨ authorization.nonce = Account.lastNonce then
            applyAuthorizations config rest world existing
          else do
            obtainAccount world authority
            let overlay ← get
            let world := world.load overlay authority
            let entry := world.accessed overlay authority
            if !authorization.applies entry.account then
              applyAuthorizations config rest world existing
            else
              let isNew := entry.account.isEmpty && overlay.isAbsent authority && !entry.touched
              let account := { entry.account with
                nonce := entry.account.nonce + 1
                code := authorization.code }
              let world := world.put authority { entry with account, touched := true }
              applyAuthorizations config rest world (if isNew then existing else existing + 1)

end Evm

end ForkReplay
