import ForkReplay.Command.HexArgument
import ForkReplay.Command.Scan
import ForkReplay.Replay.Executor
import ForkReplay.Replay.Settings

/-!
# Invocations

What a command line asks for: where the log goes, how the node is reached, and what is
done there.
-/

namespace ForkReplay.Command

structure ConnectArguments where
  /-- The endpoint, which counts before that of the network. -/
  rpc : Option String := none
  network : Option Network := none
  fork : ForkName := .prague
  chainId : Option UInt64 := none
  skipSenders : List Address := []
deriving DecidableEq

structure LogArguments where
  /-- How often more was asked for, at most 255. -/
  verbosity : Nat := 0
  file : Option String := none
  noColor : Bool := false
deriving DecidableEq

structure CallArguments where
  callee : Address
  caller : Option Address := none
  input : String := ""
  value : Word := 0
  gas : Option UInt64 := none
  /-- The block after which the call runs; the newest if none. -/
  block : Option UInt64 := none
  json : Bool := false
deriving DecidableEq

/-- What is done. -/
inductive Task where
  | replay (txHash : String) (json : Bool)
  | call (arguments : CallArguments)
  /-- Follows the head of the chain for a number of blocks, or without end. -/
  | head (count : Option Nat)
deriving DecidableEq

/-- What a command line asks for. -/
structure Invocation where
  log : LogArguments
  connect : ConnectArguments
  task : Task
deriving DecidableEq

namespace ConnectArguments

/-- The connection that the arguments of a command describe. The endpoint in the
environment counts where none is given. -/
def ofScan (scan : Scan) (endpoint : Option String) : ConnectArguments where
  rpc := (scan.value? .rpc).or endpoint
  network := scan.value? .network >>= Network.parse?
  fork := (scan.value? .hardfork >>= ForkName.ofName?).getD .prague
  chainId := scan.value? .chainId >>= Text.Numeral.uint64?
  skipSenders := (scan.values .skipSender).filterMap Address.parse?

def url (arguments : ConnectArguments) : Except CommandError String :=
  match arguments.rpc, arguments.network with
  | some url, _ => .ok url
  | none, some network => .ok network.endpoint
  | none, none => .error (.invalidInput "either --rpc, --network or OHIO_WS_URL is required")

/-- The settings of the simulator. A network implies its chain id. -/
def settings (arguments : ConnectArguments) : Except CommandError Settings := do
  return {
    url := ← arguments.url
    fallback := arguments.fork.hardFork
    skipSenders := arguments.skipSenders
    chainId := arguments.chainId.or (arguments.network.map Network.chainId) }

end ConnectArguments

namespace LogArguments

/-- The logging that the arguments before and after the command describe. Those after it
count first. -/
def ofScans (outer inner : Scan) : LogArguments where
  verbosity := min 255 ((if inner.has .verbose then inner else outer).values .verbose).length
  file := (inner.value? .logFile).or (outer.value? .logFile)
  noColor := inner.has .noColor || outer.has .noColor

/-- The name of the level that is logged; none if nothing is. -/
def level (arguments : LogArguments) : Option String :=
  match arguments.verbosity with
  | 0 => none
  | 1 => some "ERROR"
  | 2 => some "WARN"
  | 3 => some "INFO"
  | 4 => some "DEBUG"
  | _ => some "TRACE"

/-- Which parts of the program log at which level. -/
def directive (arguments : LogArguments) : Option String :=
  arguments.level.map fun level => s!"ohio={level},ohio_sim={level}"

/-- The error of a log file that cannot be created, with what the system says of it. -/
def creationError (path reason : String) (code : Nat) : CommandError :=
  .logging s!"cannot create {path}: {reason} (os error {code})"

end LogArguments

def CallArguments.request (arguments : CallArguments) : Except CommandError CallRequest := do
  return {
    caller := arguments.caller.getD CallRequest.defaultCaller
    callee := arguments.callee
    data := ← decodeHex arguments.input
    value := arguments.value
    gasLimit := arguments.gas }

/-- What the arguments of a command ask for. -/
def Task.ofScan (level : Level) (scan : Scan) : Except Refusal Task :=
  match level with
  | .top => .error .missingSubcommand
  | .replay =>
      match scan.value? .txHash with
      | none => .error .missingArgument
      | some txHash => .ok (.replay txHash (scan.has .json))
  | .call =>
      match scan.value? .callee >>= Address.parse? with
      | none => .error .missingArgument
      | some callee =>
          .ok (.call {
            callee
            caller := scan.value? .caller >>= Address.parse?
            input := (scan.value? .input).getD ""
            value := (scan.value? .value >>= Argument.word?).getD 0
            gas := scan.value? .gas >>= Text.Numeral.uint64?
            block := scan.value? .block >>= Text.Numeral.uint64?
            json := scan.has .json })
  | .head => .ok (.head (scan.value? .count >>= Argument.positive?))

/-- Reads a command line without the name of the program. -/
def Invocation.parse (words : List String) (endpoint : Option String) :
    Except Refusal Invocation := do
  let (outer, level, inner) ← Scan.commandLine {} words
  return {
    log := .ofScans outer inner
    connect := .ofScan inner endpoint
    task := ← Task.ofScan level inner }

end ForkReplay.Command
