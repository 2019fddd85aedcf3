import ForkReplay.Evm.Validity

/-!
# Stages of a transaction

A stage may look up state, which the overlay keeps, and it may fail, which keeps what
the overlay had learned until then.
-/

namespace ForkReplay.Evm

/-- A stage of a transaction: it may look up state, and it may fail. -/
abbrev Stage := ExceptT Failure (StateT Overlay Lookups)

namespace Stage

/-- Goes on only if a check passes. -/
def check (result : Except Invalid Unit) : Stage Unit :=
  match result with
  | .ok () => pure ()
  | .error cause => throw (.invalid cause)

/-- The value of a reply, or the failure it stands for. -/
def accept {α : Type} (reply : Except LookupFailure α) : Stage α :=
  match reply with
  | .ok value => pure value
  | .error (.failed message) => throw (.database message)
  | .error .crashed => throw .crashed

/-- Runs a dialogue about lookups as a stage. -/
def ofLookups {α : Type} (dialogue : Lookups α) : Stage α :=
  ExceptT.lift (StateT.lift dialogue)

/-- Runs lookups from the overlay as it is, and keeps what they have found. -/
def keeping {α : Type} (lookups : Overlay → Lookups (Except LookupFailure α × Overlay)) :
    Stage α := do
  let (reply, overlay) ← ofLookups (lookups (← get))
  set overlay
  accept reply

/-- Looks up state for as long as some is missing, at most `rounds` times. -/
def obtain (missing : Overlay → Option Lookup) (rounds : Nat) : Stage Unit :=
  keeping (Overlay.supply missing rounds)

/-- Makes sure that an account can be accessed. -/
def obtainAccount (world : World) (address : Address) : Stage Unit :=
  obtain (fun overlay => world.missingAccount? overlay address) 1

end Stage

end ForkReplay.Evm
