import ForkReplay.Text.Hex

/-!
# Quoted bytes

A byte shown as the character of its value between single quotes. What cannot be
printed is escaped.
-/

namespace ForkReplay.Text

/-- Whether the character with this value below 256 shows on paper. Controls, the
no-break space and the soft hyphen do not. -/
def isPrintable (value : Nat) : Bool :=
  (0x20 ≤ value && value < 0x7f) || (0xa0 < value && value ≠ 0xad)

/-- A byte as a quoted character. -/
def quoteByte (byte : UInt8) : String :=
  let value := byte.toNat
  let inner :=
    match Char.ofNat value with
    | '\x00' => "\\0"
    | '\t' => "\\t"
    | '\n' => "\\n"
    | '\r' => "\\r"
    | '\'' => "\\'"
    | '\\' => "\\\\"
    | c =>
        if isPrintable value then c.toString
        else "\\u\x7b" ++ String.ofList (Nat.toDigits 16 value) ++ "\x7d"
  "'" ++ inner ++ "'"

end ForkReplay.Text
