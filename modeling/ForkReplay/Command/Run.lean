import ForkReplay.Command.Invocation
import ForkReplay.Json.Writer
import ForkReplay.Replay.HeadFeed
import ForkReplay.Replay.Session

/-!
# Running commands

What each command prints and how it ends. Replays and calls are dialogues that come to
a report. Following the head has no end of its own, so the command comes to a
connection, and what it prints then is up to `HeadFollower`.
-/

namespace ForkReplay.Command

/-- What a command printed, and how it ended. -/
structure Report where
  lines : List String := []
  result : Except CommandError Unit

/-- The report of a command that printed nothing. -/
def Report.failed (error : CommandError) : Report := { result := .error error }

def responseLines (response : Response) : List String :=
  ["status:        " ++ response.status, s!"gas used:      {response.gasUsed}"] ++
    (if response.revertText.isEmpty then [] else ["revert reason: " ++ response.revertText]) ++
    (if response.message.isEmpty then [] else ["message:       " ++ response.message])

/-- The report of a replay. A response that failed is an error as well. -/
def Report.ofResponse (json : Bool) (response : Response) : Report where
  lines := if json then [response.toJson.pretty] else responseLines response
  result := if response.isOk then .ok () else .error (.replayFailed response.message)

def outcomeLines (outcome : Outcome) : List String :=
  let last := match outcome with
    | .success _ _ output _ => "output:   " ++ Text.Hex.ofBytes output
    | .revert _ message => "reverted: " ++ message
    | .halt _ reason => "halted:   " ++ reason
  [s!"gas used: {outcome.gasUsed}", last]

def Report.ofOutcome (json : Bool) : Except ReplayError Outcome → Report
  | .ok outcome =>
      { lines := if json then [outcome.toJson.pretty] else outcomeLines outcome, result := .ok () }
  | .error error => .failed (.simulation error)

variable {N : Type}

def runReplay (connect : ConnectArguments) (txHash : String) (json : Bool)
    (precompiles : Evm.Precompiles := Evm.Precompiles.basic) : Contacting N Report :=
  match connect.settings with
  | .error error => return .failed error
  | .ok settings => do
      let (result, session) ← ({ settings, precompiles } : Session N).connect
      match result with
      | .error error => return .failed (.simulation error)
      | .ok () => return .ofResponse json (← session.replay txHash)

/-- Executes a call. The request is read before anything is connected. -/
def runCall (connect : ConnectArguments) (call : CallArguments)
    (precompiles : Evm.Precompiles := Evm.Precompiles.basic) : Contacting N Report :=
  match call.request, connect.settings with
  | .error error, _ | .ok _, .error error => return .failed error
  | .ok request, .ok settings => do
      let outcome ← ExceptT.run do
        let connection : Connection N ← Connection.connect settings true precompiles
        Connection.onNode connection.node (connection.simulator.call request call.block)
      return .ofOutcome call.json outcome

def connectHead (connect : ConnectArguments) :
    Contacting N (Except CommandError (Connection N)) :=
  match connect.settings with
  | .error error => return .error error
  | .ok settings => do
      let result ← (Connection.connect settings).run
      return result.mapError .simulation

def headFollower (count : Option Nat) : HeadFollower := { left := count }

end ForkReplay.Command
