/-!
# Numerals

Numbers in base ten, or after a leader in base sixteen, eight or two. Underscores
may stand anywhere among the digits, and there may be no digits at all.
-/

namespace ForkReplay.Text.Numeral

/-- The value of an ASCII digit or letter, if the base has that digit. -/
def digit? (base : Nat) (c : Char) : Option Nat :=
  let value :=
    if c.isDigit then c.toNat - '0'.toNat
    else if 'a' ≤ c ∧ c ≤ 'z' then c.toNat - 'a'.toNat + 10
    else if 'A' ≤ c ∧ c ≤ 'Z' then c.toNat - 'A'.toNat + 10
    else base
  if value < base then some value else none

/-- The number that the digits spell after `value`, most significant first. -/
def extend? (base value : Nat) : List Char → Option Nat
  | [] => some value
  | '_' :: rest => extend? base value rest
  | c :: rest => (digit? base c).bind fun digit => extend? base (value * base + digit) rest

/-- The number that a numeral stands for. -/
def parse? : List Char → Option Nat
  | '0' :: 'x' :: digits | '0' :: 'X' :: digits => extend? 16 0 digits
  | '0' :: 'o' :: digits | '0' :: 'O' :: digits => extend? 8 0 digits
  | '0' :: 'b' :: digits | '0' :: 'B' :: digits => extend? 2 0 digits
  | digits => extend? 10 0 digits

/-- The number that decimal digits spell, with an optional plus sign. -/
def plain? (chars : List Char) : Option Nat :=
  let digits := match chars with
    | '+' :: digits => digits
    | digits => digits
  if digits.isEmpty ∨ digits.contains '_' then none else extend? 10 0 digits

/-- The number below `2 ^ 64` that decimal digits spell. -/
def uint64? (text : String) : Option UInt64 :=
  ((plain? text.toList).filter (· < UInt64.size)).map UInt64.ofNat

end ForkReplay.Text.Numeral
