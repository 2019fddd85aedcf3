import ForkReplay.Command.CommandError

/-!
# Byte strings on the command line

Pairs of digits after an optional leader, with blanks at both ends allowed. Nothing at
all is the empty byte string.
-/

namespace ForkReplay.Command

/-- Reads a byte string. An odd length in bytes of UTF-8 is noticed before any wrong
character is. -/
def decodeHex (text : String) : Except CommandError Bytes :=
  let digits := Text.Hex.stripLeader (Text.trimChars text.toList)
  let length := (String.ofList digits).utf8ByteSize
  if length % 2 = 1 then
    .error (.invalidInput s!"Invalid hex string length: {length} (must be even)")
  else (Text.Hex.decode digits).mapError .invalidHex

end ForkReplay.Command
