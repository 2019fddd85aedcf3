import ForkReplay.Node.Query
import ForkReplay.State.Overlay

/-!
# Lookups of a node's state

The state after one block, as a node tells it. Every lookup of an account or a slot
names that block, and so does nothing else.
-/

namespace ForkReplay.Node

def Failure.lookupMessage (failure : Failure) : String := "Transport error: " ++ failure.message

/-- The account made of three replies. Of several failures that of the balance counts
first and that of the nonce last; code without a meaning counts before the nonce. -/
def account (nonce : Except Failure UInt64) (balance : Except Failure Word)
    (code : Except Failure Bytes) : Except LookupFailure Account :=
  match balance, code with
  | .error failure, _ | .ok _, .error failure => .error (.failed failure.lookupMessage)
  | .ok balance, .ok bytes =>
      match Code.ofStored? bytes, nonce with
      | none, _ => .error .crashed
      | some _, .error failure => .error (.failed failure.lookupMessage)
      | some code, .ok nonce => .ok { nonce, balance, code }

/-- The hash of a block in a reply. A block that is not there has none. -/
def blockHash : Except Failure (Option BlockReport) → Except LookupFailure Hash
  | .error failure => .error (.failed failure.lookupMessage)
  | .ok none => .error .crashed
  | .ok (some report) => .ok report.hash

/-- Looks up state after the block with the given number. -/
def lookup (number : UInt64) : (lookup : Lookup) → Asking lookup.Reply
  | .account address =>
      .ask (.state .nonce address number) fun nonce =>
        .ask (.state .balance address number) fun balance =>
          .ask (.state .code address number) fun code => .done (account nonce balance code)
  | .slot address key =>
      .ask (.state (.slot key) address number) fun value =>
        .done (value.mapError fun failure => .failed failure.lookupMessage)
  | .blockHash block =>
      .ask (.block (.number (UInt64.ofNat block)) false) fun report => .done (blockHash report)

/-- Answers the lookups of a computation with the state after the given block. -/
def forkAt {α : Type} (number : UInt64) (computation : Lookups α) : Asking α :=
  computation.interpret (lookup number)

end ForkReplay.Node
