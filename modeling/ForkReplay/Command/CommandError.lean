import ForkReplay.Replay.ReplayError
import ForkReplay.Text.Hex
import ForkReplay.Text.Quoted

/-!
# Errors of the command line

Everything that keeps a command from its end, and the wording of each.
-/

namespace ForkReplay

def Text.Hex.DecodeError.message : DecodeError → String
  | .oddLength => "odd number of digits"
  | .invalidByte byte position =>
      s!"invalid character {quoteByte byte} at position {position}"

namespace Command

/-- Why a command did not succeed. -/
inductive CommandError where
  | simulation (error : ReplayError)
  /-- The replay came to no outcome. -/
  | replayFailed (message : String)
  | invalidHex (error : Text.Hex.DecodeError)
  | invalidInput (detail : String)
  /-- The log file could not be set up. -/
  | logging (detail : String)
deriving DecidableEq, Repr

def CommandError.message : CommandError → String
  | .simulation error => error.message
  | .replayFailed message => "Replay failed: " ++ message
  | .invalidHex error => "Invalid hex string: " ++ error.message
  | .invalidInput detail => "Invalid input: " ++ detail
  | .logging detail => "Failed to set up logging: " ++ detail

end Command

end ForkReplay
