import ForkReplay.Replay.Outcome
import ForkReplay.Replay.ReplayError

/-!
# Responses

The flat answer to a replay request. It is `OK` when the transaction was executed,
also if it reverted, and `FAILED` when it could not be replayed.
-/

namespace ForkReplay

/-- Whether a replay came to an outcome. -/
inductive ReplayStatus where
  | ok
  | failed
deriving DecidableEq, Repr

/-- The written form of a status. -/
def ReplayStatus.text : ReplayStatus → String
  | .ok => "OK"
  | .failed => "FAILED"

/-- The flat answer to a replay request. -/
structure Response where
  /-- The written status. -/
  status : String := ReplayStatus.failed.text
  /-- What kept the replay from an outcome. -/
  message : String := ""
  /-- Why the transaction did not succeed. -/
  revertText : String := ""
  gasUsed : UInt64 := 0
deriving DecidableEq, Repr, Inhabited

namespace Response

def failed (message : String) : Response := { message }

def isOk (response : Response) : Bool := response.status = ReplayStatus.ok.text

/-- The response to a replay with the given result. -/
def ofResult : Except ReplayError Outcome → Response
  | .ok outcome =>
      { status := ReplayStatus.ok.text, revertText := outcome.revertText
        gasUsed := outcome.gasUsed }
  | .error error => failed error.message

def toJson (response : Response) : Json :=
  .object
    [("status", .string response.status), ("message", .string response.message),
     ("transaction_revert_message", .string response.revertText),
     ("gas_used", .nat response.gasUsed.toNat)]

/-- The response that a JSON value stands for: an object with all members, or an array
of all values. -/
def ofJson? : Json → Option Response
  | .array [status, message, revertText, gasUsed] =>
      return ⟨← status.string?, ← message.string?, ← revertText.string?, ← gasUsed.uint64?⟩
  | json => do
      let status ← json.member? "status" >>= Json.string?
      let message ← json.member? "message" >>= Json.string?
      let revertText ← json.member? "transaction_revert_message" >>= Json.string?
      let gasUsed ← json.member? "gas_used" >>= Json.uint64?
      return ⟨status, message, revertText, gasUsed⟩

end Response

end ForkReplay
