import ForkReplay.Json
import ForkReplay.Text.Hex

/-!
# Reading JSON

A strict reader: one value between optional blanks, no comments, no trailing
commas. Of several members of one name the last counts. A surrogate escape has to
come in a pair. Texts that are nested too deeply are refused, and so are numbers that
are too large for a double.
-/

namespace ForkReplay.Json

/-- The blanks that may stand between tokens. -/
def isSpace (c : Char) : Bool := c == ' ' || c == '\n' || c == '\r' || c == '\t'

def skipSpace (chars : List Char) : List Char := chars.dropWhile isSpace

/-- The number that four digits of base sixteen spell. -/
def unit? : List Char → Option (Nat × List Char)
  | a :: b :: c :: d :: rest => do
      let value ← Text.Hex.number? [a, b, c, d]
      return (value, rest)
  | _ => none

/-- The character of an escape, after its backslash. -/
def escape? : List Char → Option (Char × List Char)
  | '"' :: rest => some ('"', rest)
  | '\\' :: rest => some ('\\', rest)
  | '/' :: rest => some ('/', rest)
  | 'b' :: rest => some ('\x08', rest)
  | 'f' :: rest => some ('\x0c', rest)
  | 'n' :: rest => some ('\n', rest)
  | 'r' :: rest => some ('\r', rest)
  | 't' :: rest => some ('\t', rest)
  | 'u' :: rest => do
      let (high, rest) ← unit? rest
      if high < 0xd800 ∨ 0xe000 ≤ high then return (Char.ofNat high, rest)
      else if 0xdc00 ≤ high then none
      else
        match rest with
        | '\\' :: 'u' :: rest => do
            let (low, rest) ← unit? rest
            if 0xdc00 ≤ low ∧ low < 0xe000 then
              return (Char.ofNat (0x10000 + (high - 0xd800) * 1024 + (low - 0xdc00)), rest)
            else none
        | _ => none
  | _ => none

/-- The rest of a quoted string after its opening quote. The fuel bounds the
number of characters. -/
def quoted? : Nat → List Char → List Char → Option (String × List Char)
  | 0, _, _ => none
  | fuel + 1, read, chars =>
      match chars with
      | [] => none
      | '"' :: rest => some (String.ofList read.reverse, rest)
      | '\\' :: rest =>
          match escape? rest with
          | none => none
          | some (c, rest) => quoted? fuel (c :: read) rest
      | c :: rest => if c.toNat < 0x20 then none else quoted? fuel (c :: read) rest

/-- The decimal number that the digits spell. -/
def decimalValue (digits : List Char) : Nat :=
  digits.foldl (fun value c => value * 10 + (c.toNat - '0'.toNat)) 0

/-- Splits off leading decimal digits. -/
def splitDigits (chars : List Char) : List Char × List Char :=
  (chars.takeWhile Char.isDigit, chars.dropWhile Char.isDigit)

/-- The fraction of a number, if one follows. -/
def fraction? : List Char → Option (List Char × List Char)
  | '.' :: rest =>
      let (digits, rest) := splitDigits rest
      if digits.isEmpty then none else some ('.' :: digits, rest)
  | chars => some ([], chars)

/-- The exponent of a number, if one follows. -/
def exponent? : List Char → Option (List Char × List Char)
  | mark :: rest =>
      if mark == 'e' || mark == 'E' then
        let (sign, rest) : List Char × List Char :=
          match rest with
          | '+' :: rest => (['+'], rest)
          | '-' :: rest => (['-'], rest)
          | rest => ([], rest)
        let (digits, rest) := splitDigits rest
        if digits.isEmpty then none else some (mark :: sign ++ digits, rest)
      else some ([], mark :: rest)
  | [] => some ([], [])

/-- The exponent that a written one stands for, which is zero if there is none. -/
def exponentValue : List Char → Int
  | [] => 0
  | _ :: '-' :: digits => -(decimalValue digits : Int)
  | _ :: '+' :: digits => decimalValue digits
  | _ :: digits => decimalValue digits

/-- The least magnitude that rounds to infinity as a double. -/
def doubleLimit : Nat := (1 <<< 1024) - (1 <<< 970)

/-- Whether `value * 10 ^ scale` rounds to infinity. A value of so many digits vanishes behind
as many places, and `10 ^ 309` is too large, so that no larger powers are computed. -/
def isTooLarge (value digits : Nat) : Int → Bool
  | .ofNat scale => value != 0 && (308 < scale || doubleLimit ≤ value * Nat.pow 10 scale)
  | .negSucc scale => scale + 1 < digits && doubleLimit * Nat.pow 10 (scale + 1) ≤ value

/-- A number. Leading zeros are refused, and a negative zero is no integer. -/
def number? (chars : List Char) : Option (Json × List Char) := do
  let (sign, rest) : List Char × List Char :=
    match chars with
    | '-' :: rest => (['-'], rest)
    | rest => ([], rest)
  let (digits, rest) := splitDigits rest
  if digits.isEmpty || (digits.length > 1 && digits.head? == some '0') then none
  else
    let (fraction, rest) ← fraction? rest
    let (exponent, rest) ← exponent? rest
    let value := decimalValue digits
    let places := fraction.drop 1
    if isTooLarge (decimalValue (digits ++ places)) (digits.length + places.length)
        (exponentValue exponent - places.length) then none
    else if fraction.isEmpty && exponent.isEmpty && (sign.isEmpty || value != 0) then
      return (.int (if sign.isEmpty then (value : Int) else -(value : Int)), rest)
    else
      return (.decimal (String.ofList (sign ++ digits ++ fraction ++ exponent)), rest)

/-- Adds a member; an earlier one of the same name gives way. -/
def setMember (members : List (String × Json)) (name : String) (value : Json) :
    List (String × Json) :=
  if (lookup name members).isSome then
    members.map fun entry => if entry.1 = name then (name, value) else entry
  else members ++ [(name, value)]

mutual

/-- A value after optional blanks, with so many levels of arrays and objects at most. The fuel
bounds the number of tokens. -/
def value? : Nat → Nat → List Char → Option (Json × List Char)
  | _, 0, _ => none
  | levels, fuel + 1, chars =>
      match skipSpace chars with
      | '\x7b' :: rest =>
          match levels, skipSpace rest with
          | 0, _ => none
          | _ + 1, '\x7d' :: rest => some (.object [], rest)
          | levels + 1, rest => members? levels fuel [] rest
      | '[' :: rest =>
          match levels, skipSpace rest with
          | 0, _ => none
          | _ + 1, ']' :: rest => some (.array [], rest)
          | levels + 1, rest => items? levels fuel [] rest
      | '"' :: rest => (quoted? (rest.length + 1) [] rest).map fun (s, rest) => (.string s, rest)
      | 'n' :: 'u' :: 'l' :: 'l' :: rest => some (.null, rest)
      | 't' :: 'r' :: 'u' :: 'e' :: rest => some (.bool true, rest)
      | 'f' :: 'a' :: 'l' :: 's' :: 'e' :: rest => some (.bool false, rest)
      | chars => number? chars

/-- The items of an array up to its closing bracket. -/
def items? : Nat → Nat → List Json → List Char → Option (Json × List Char)
  | _, 0, _, _ => none
  | levels, fuel + 1, read, chars =>
      match value? levels fuel chars with
      | none => none
      | some (item, rest) =>
          match skipSpace rest with
          | ',' :: rest => items? levels fuel (item :: read) rest
          | ']' :: rest => some (.array (item :: read).reverse, rest)
          | _ => none

/-- The members of an object up to its closing brace. -/
def members? : Nat → Nat → List (String × Json) → List Char → Option (Json × List Char)
  | _, 0, _, _ => none
  | levels, fuel + 1, read, chars =>
      match skipSpace chars with
      | '"' :: rest =>
          match quoted? (rest.length + 1) [] rest with
          | none => none
          | some (name, rest) =>
              match skipSpace rest with
              | ':' :: rest =>
                  match value? levels fuel rest with
                  | none => none
                  | some (value, rest) =>
                      let read := setMember read name value
                      match skipSpace rest with
                      | ',' :: rest => members? levels fuel read rest
                      | '\x7d' :: rest => some (.object read, rest)
                      | _ => none
              | _ => none
      | _ => none

end

/-- How many levels of arrays and objects a text may have. -/
def maxLevels : Nat := 127

/-- The value that a text spells. -/
def parse? (text : String) : Option Json :=
  let chars := text.toList
  match value? maxLevels (chars.length + 1) chars with
  | some (json, rest) => if (skipSpace rest).isEmpty then some json else none
  | none => none

end ForkReplay.Json
