import ForkReplay.Command.Argument

/-!
# Scanning command lines

The words of a command line are matched with arguments from left to right. An option
whose value is the next word stays pending until another argument or the end comes, and
its value is looked at only then. After two dashes alone every word stands for itself.
-/

namespace ForkReplay.Command

/-- A word of the command line by its form. -/
inductive Form where
  /-- Two dashes alone. -/
  | dashes
  /-- A name after two dashes, with the value after an equals sign. -/
  | long (name : String) (value : Option String)
  /-- Letters after one dash. -/
  | short (letters : List Char)
  | plain
deriving DecidableEq, Repr

def Form.ofString (word : String) : Form :=
  match word.toList with
  | ['-', '-'] => .dashes
  | '-' :: '-' :: body =>
      match body.span (· ≠ '=') with
      | (name, '=' :: value) => .long (String.ofList name) (some (String.ofList value))
      | (name, _) => .long (String.ofList name) none
  | '-' :: letter :: letters => .short (letter :: letters)
  | _ => .plain

/-- What was found on one level so far. -/
structure Scan where
  /-- The arguments with their values, in order; a flag's value is empty. -/
  given : List (Argument × String) := []
  /-- An argument that was not acted upon yet. -/
  pending : Option (Argument × Option String) := none
  /-- Whether the next word is the value of the pending option. -/
  awaitsValue : Bool := false
  /-- Whether two dashes came, after which nothing is an option. -/
  isPlain : Bool := false
  /-- Whether the argument that is given by its place came. -/
  hasPositional : Bool := false
deriving DecidableEq, Repr

namespace Scan

def values (scan : Scan) (argument : Argument) : List String :=
  scan.given.filterMap fun entry => if entry.1 = argument then some entry.2 else none

def value? (scan : Scan) (argument : Argument) : Option String := (scan.values argument).head?

def has (scan : Scan) (argument : Argument) : Bool := !(scan.values argument).isEmpty

def give (scan : Scan) (argument : Argument) (value : String) : Scan :=
  { scan with given := scan.given ++ [(argument, value)] }

def accept (scan : Scan) (argument : Argument) (value : String) : Except Refusal Scan :=
  match argument.refusal? value with
  | some refusal => .error refusal
  | none => .ok (scan.give argument value)

/-- Does what an argument does when it is given. -/
def act (scan : Scan) (argument : Argument) (value : Option String) : Except Refusal Scan :=
  match argument.action, value with
  | .help, _ => .error .help
  | .version, _ => .error .version
  | .count, _ => .ok (scan.give argument "")
  | .flag, _ => if scan.has argument then .error .argumentConflict else .ok (scan.give argument "")
  | .set, none | .append, none => .error .invalidValue
  | .set, some value =>
      if scan.has argument then .error .argumentConflict else scan.accept argument value
  | .append, some value => scan.accept argument value

/-- Acts upon the pending argument. -/
def settle (scan : Scan) : Except Refusal Scan :=
  match scan.pending with
  | none => .ok scan
  | some (argument, value) => { scan with pending := none, awaitsValue := false }.act argument value

/-- Settles, and acts upon another argument. -/
def take (scan : Scan) (argument : Argument) (value : Option String) : Except Refusal Scan :=
  scan.settle >>= fun scan => scan.act argument value

/-- Settles, and keeps an option pending whose value is the next word. -/
def await (scan : Scan) (argument : Argument) : Except Refusal Scan :=
  scan.settle.map fun scan => { scan with pending := some (argument, none), awaitsValue := true }

/-- Takes an option by its name. A wrong name or use is noticed before what is pending. -/
def long (level : Level) (scan : Scan) (name : String) (value : Option String) :
    Except Refusal Scan :=
  match level.long? name with
  | none => .error .unknownArgument
  | some argument =>
      if argument.takesValue then
        match value with
        | some value => scan.take argument (some value)
        | none => scan.await argument
      else if value.isSome then .error .tooManyValues
      else scan.take argument none

/-- Takes options by their letters. What follows the letter of an option with a value is
that value, after an equals sign or not. -/
def short (level : Level) : Scan → List Char → Except Refusal Scan
  | scan, [] => .ok scan
  | scan, letter :: rest =>
      match level.short? letter with
      | none => .error .unknownArgument
      | some argument =>
          if argument.takesValue then
            match rest with
            | [] => scan.await argument
            | '=' :: value => scan.take argument (some (String.ofList value))
            | value => scan.take argument (some (String.ofList value))
          else scan.take argument none >>= fun scan => short level scan rest

/-- What is said of a word that nothing on the level takes. -/
def stray (level : Level) (scan : Scan) (word : String) : Refusal :=
  if level = .top ∧ ¬ (scan.isPlain ∧ (subcommand? word).isSome) then .invalidSubcommand
  else .unknownArgument

/-- Takes a word by its place. -/
def place (level : Level) (scan : Scan) (word : String) : Except Refusal Scan :=
  match level.positional? with
  | none => .error (stray level scan word)
  | some argument =>
      if scan.hasPositional then .error (stray level scan word)
      else scan.settle.map fun scan =>
        { scan with pending := some (argument, some word), hasPositional := true }

/-- Takes a word that is no option. -/
def plain (level : Level) (scan : Scan) (word : String) : Except Refusal Scan :=
  match scan.awaitsValue, scan.pending with
  | true, some (argument, _) =>
      .ok { scan with pending := some (argument, some word), awaitsValue := false }
  | _, _ => place level scan word

def word (level : Level) (scan : Scan) (text : String) : Except Refusal Scan :=
  if scan.isPlain then place level scan text
  else
    match Form.ofString text with
    | .dashes => .ok { scan with isPlain := true }
    | .long name value => long level scan name value
    | .short letters => short level scan letters
    | .plain => plain level scan text

/-- Takes all words of a level that opens no other. -/
def words (level : Level) : Scan → List String → Except Refusal Scan
  | scan, [] => do
      let scan ← scan.settle
      if level.required.all scan.has then return scan else throw .missingArgument
  | scan, text :: rest => word level scan text >>= fun scan => words level scan rest

/-- What `help` comes to when it is followed by the given words. -/
def helpRefusal : List String → Refusal
  | [] => .help
  | [name] => if subcommands.any fun entry => entry.1 = name then .help else .invalidSubcommand
  | _ => .invalidSubcommand

/-- The command that a word opens, where a command may stand. -/
def opens? (scan : Scan) (text : String) : Option (Option Level) :=
  if scan.isPlain ∨ scan.awaitsValue then none else subcommand? text

/-- Takes the words before the command, and then those of the command. -/
def commandLine : Scan → List String → Except Refusal (Scan × Level × Scan)
  | scan, [] => do
      let scan ← scan.settle
      throw (if scan.given.isEmpty then .helpOnNothing else .missingSubcommand)
  | scan, text :: rest =>
      match scan.opens? text with
      | some none => throw (helpRefusal rest)
      | some (some level) => do
          let inner ← words level {} rest
          return (← scan.settle, level, inner)
      | none => word .top scan text >>= fun scan => commandLine scan rest

end Scan

end ForkReplay.Command
