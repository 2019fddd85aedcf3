import ForkReplay.Chain.HardFork
import ForkReplay.Replay.ReplayError

/-!
# Settings

How a simulator reaches its node and which rules it applies.
-/

namespace ForkReplay

structure Settings where
  /-- The websocket endpoint of the node. -/
  url : String
  /-- The rules of chains without a known schedule. -/
  fallback : HardFork := .prague
  /-- Further senders to pass over at the start of a block. -/
  skipSenders : List Address := []
  /-- The chain id; asked from the node if none. -/
  chainId : Option UInt64 := none
deriving DecidableEq

namespace Settings

/-- What follows `ws://` or `wss://` in the endpoint, blanks at its ends aside. -/
def authority? (settings : Settings) : Option (List Char) :=
  match Text.trimChars settings.url.toList with
  | 'w' :: 's' :: 's' :: ':' :: '/' :: '/' :: rest => some rest
  | 'w' :: 's' :: ':' :: '/' :: '/' :: rest => some rest
  | _ => none

/-- Checks that the endpoint is the address of a websocket. A host is taken to be
missing if nothing or a slash follows the scheme. -/
def validate (settings : Settings) : Except ReplayError Unit :=
  match settings.authority? with
  | none => .error (.invalidUrl settings.url "expected a ws:// or wss:// URL")
  | some [] | some ('/' :: _) => .error (.invalidUrl settings.url "missing host")
  | some _ => .ok ()

end Settings

end ForkReplay
