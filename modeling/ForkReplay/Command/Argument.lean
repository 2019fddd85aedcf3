import ForkReplay.Chain.Network
import ForkReplay.Command.ForkName
import ForkReplay.Text.Numeral

/-!
# Arguments

The arguments that the program takes: how they are written, what they do when they are
given, and which values they accept.
-/

namespace ForkReplay.Command

/-- Why a command line is refused, or what it asks for in place of a command. -/
inductive Refusal where
  | unknownArgument
  | invalidSubcommand
  /-- There are arguments, but no command. -/
  | missingSubcommand
  | missingArgument
  /-- A value is missing, or is none of the values to choose from. -/
  | invalidValue
  /-- A value does not have the form that its argument asks for. -/
  | malformedValue
  /-- An argument is given more than once. -/
  | argumentConflict
  /-- A flag is given a value. -/
  | tooManyValues
  | help
  | version
  /-- There is nothing to do, so help is shown. -/
  | helpOnNothing
deriving DecidableEq, Repr

inductive Argument where
  | help | version | verbose | logFile | noColor
  | rpc | network | hardfork | chainId | skipSender
  | txHash | json | callee | caller | input | value | gas | block | count
deriving DecidableEq, Repr

/-- What an argument does when it is given. -/
inductive Action where
  /-- Takes one value, once. -/
  | set
  /-- Takes one value each time. -/
  | append
  /-- Is given at most once, without a value. -/
  | flag
  /-- Counts how often it is given. -/
  | count
  | help
  | version
deriving DecidableEq, Repr

namespace Argument

/-- The names that follow two dashes. -/
def longs : Argument → List String
  | .help => ["help"]
  | .version => ["version"]
  | .verbose => []
  | .logFile => ["log.file", "log-file"]
  | .noColor => ["log.no-color", "log-no-color"]
  | .rpc => ["rpc"]
  | .network => ["network"]
  | .hardfork => ["hardfork"]
  | .chainId => ["chain-id"]
  | .skipSender => ["skip-sender"]
  | .txHash => []
  | .json => ["json"]
  | .callee => ["to"]
  | .caller => ["from"]
  | .input => ["input"]
  | .value => ["value"]
  | .gas => ["gas"]
  | .block => ["block"]
  | .count => ["count"]

/-- The letter that follows one dash. -/
def short? : Argument → Option Char
  | .help => some 'h'
  | .version => some 'V'
  | .verbose => some 'v'
  | .network => some 'n'
  | _ => none

def action : Argument → Action
  | .help => .help
  | .version => .version
  | .verbose => .count
  | .noColor | .json => .flag
  | .skipSender => .append
  | _ => .set

def takesValue (argument : Argument) : Bool :=
  argument.action = .set || argument.action = .append

/-- A word below `2 ^ 256`, as a numeral. -/
def word? (text : String) : Option Word :=
  ((Text.Numeral.parse? text.toList).filter (· < Word.size)).map (BitVec.ofNat 256)

/-- A number of blocks, at least one. -/
def positive? (text : String) : Option Nat :=
  ((Text.Numeral.uint64? text).map UInt64.toNat).filter (0 < ·)

/-- Why the argument does not accept a value, if it does not. -/
def refusal? (argument : Argument) (text : String) : Option Refusal :=
  match argument with
  | .logFile => if text.isEmpty then some .invalidValue else none
  | .hardfork => if (ForkName.ofName? text).isNone then some .invalidValue else none
  | .network => if (Network.parse? text).isNone then some .malformedValue else none
  | .chainId | .gas | .block =>
      if (Text.Numeral.uint64? text).isNone then some .malformedValue else none
  | .count => if (positive? text).isNone then some .malformedValue else none
  | .value => if (word? text).isNone then some .malformedValue else none
  | .skipSender | .callee | .caller =>
      if (Address.parse? text).isNone then some .malformedValue else none
  | _ => none

end Argument

/-- Where arguments stand: before the command, or after it. -/
inductive Level where
  | top | replay | call | head
deriving DecidableEq, Repr

namespace Level

/-- The arguments that may stand anywhere. -/
def anywhere : List Argument := [.help, .verbose, .logFile, .noColor]

/-- The arguments that say how the node is reached. -/
def connecting : List Argument := [.rpc, .network, .hardfork, .chainId, .skipSender]

def options : Level → List Argument
  | .top => .version :: anywhere
  | .replay => .json :: connecting ++ anywhere
  | .call => [.callee, .caller, .input, .value, .gas, .block, .json] ++ connecting ++ anywhere
  | .head => .count :: connecting ++ anywhere

/-- The argument that is given by its place alone. -/
def positional? : Level → Option Argument
  | .replay => some .txHash
  | _ => none

def required : Level → List Argument
  | .replay => [.txHash]
  | .call => [.callee]
  | _ => []

def long? (level : Level) (name : String) : Option Argument :=
  level.options.find? fun argument => argument.longs.contains name

def short? (level : Level) (letter : Char) : Option Argument :=
  level.options.find? fun argument => argument.short? = some letter

end Level

/-- The words that name a command, with the level that each opens; `help` opens none. -/
def subcommands : List (String × Option Level) :=
  [("replay", some .replay), ("call", some .call), ("head", some .head), ("help", none)]

/-- What a word opens: the command that it names, or the only one whose name it begins. -/
def subcommand? (word : String) : Option (Option Level) :=
  match subcommands.filter fun entry => word.toList.isPrefixOf entry.1.toList with
  | [entry] => some entry.2
  | _ => (subcommands.find? fun entry => entry.1 = word).map Prod.snd

end ForkReplay.Command
