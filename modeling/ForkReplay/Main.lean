import ForkReplay.Command.Run

/-!
# The program

Reads the command line, sets up the log file, runs the command and prints its report.
There is no transport in here: every endpoint is out of reach.
-/

namespace ForkReplay.Command

/-- How the program is used. -/
def usage : String :=
  "Usage: ohio [OPTIONS] <COMMAND>\n\nCommands:\n" ++
    "  replay  Replay a mined transaction on a fork of its block\n" ++
    "  call    Execute a call against a fork\n" ++
    "  head    Follow new blocks\n" ++
    "  help    Print this message"

def versionText : String := "ohio 0.1.0"

/-- What is printed in place of a command, and the exit code. -/
def Refusal.text : Refusal → String × UInt32
  | .help => (usage, 0)
  | .version => (versionText, 0)
  | .helpOnNothing => (usage, 2)
  | .unknownArgument => ("error: unexpected argument", 2)
  | .invalidSubcommand => ("error: unrecognized subcommand", 2)
  | .missingSubcommand => ("error: a subcommand is required", 2)
  | .missingArgument => ("error: a required argument was not provided", 2)
  | .invalidValue => ("error: a value is missing or is not one of the possible values", 2)
  | .malformedValue => ("error: a value is not valid", 2)
  | .argumentConflict => ("error: an argument was given more than once", 2)
  | .tooManyValues => ("error: a flag takes no value", 2)

/-- Answers a contact with a world in which no endpoint can be reached. -/
def unreachable : (contact : Contact Empty) → contact.Reply
  | .dial _ => .error "no transport"

/-- Runs a command that contacts the world. -/
def report (invocation : Invocation) : Report :=
  match invocation.task with
  | .replay txHash json => (runReplay invocation.connect txHash json).run unreachable
  | .call call => (runCall invocation.connect call).run unreachable
  | .head _ =>
      match (connectHead invocation.connect).run unreachable with
      | .error error => .failed error
      | .ok connection => connection.node.elim

/-- The error of a log file that the system would not create. -/
def logError (path : String) : IO.Error → CommandError
  | .noFileOrDirectory .. => LogArguments.creationError path "No such file or directory" 2
  | .permissionDenied .. => LogArguments.creationError path "Permission denied" 13
  | .inappropriateType .. => LogArguments.creationError path "Is a directory" 21
  | error => .logging s!"cannot create {path}: {error}"

/-- Creates the log file, if there is one. -/
def setUpLog (log : LogArguments) : IO (Except CommandError Unit) := do
  match log.file with
  | none => return .ok ()
  | some path =>
      try
        IO.FS.writeFile path ""
        return .ok ()
      catch error => return .error (logError path error)

/-- Prints a report and returns the exit code. -/
def Report.print (report : Report) : IO UInt32 := do
  for line in report.lines do IO.println line
  match report.result with
  | .ok () => return 0
  | .error error =>
      IO.eprintln error.message
      return 1

end ForkReplay.Command

open ForkReplay.Command in
def main (words : List String) : IO UInt32 := do
  match Invocation.parse words (← IO.getEnv "OHIO_WS_URL") with
  | .error refusal =>
      let (text, code) := refusal.text
      if code = 0 then IO.println text else IO.eprintln text
      return code
  | .ok invocation =>
      match ← setUpLog invocation.log with
      | .error error =>
          IO.eprintln error.message
          return 1
      | .ok () => (report invocation).print
