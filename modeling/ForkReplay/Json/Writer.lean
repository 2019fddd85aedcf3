import ForkReplay.Json
import ForkReplay.Text.Hex

/-!
# Writing JSON

The compact form on one line, and an indented form with two blanks per level.
-/

namespace ForkReplay.Json

/-- The characters that stand for `c` inside a quoted string. Only quotes,
backslashes and control characters are escaped. -/
def escapeChar (c : Char) : List Char :=
  match c with
  | '"' => ['\\', '"']
  | '\\' => ['\\', '\\']
  | '\n' => ['\\', 'n']
  | '\r' => ['\\', 'r']
  | '\t' => ['\\', 't']
  | '\x08' => ['\\', 'b']
  | '\x0c' => ['\\', 'f']
  | c =>
      if c.toNat < 0x20 then
        ['\\', 'u', '0', '0', Text.Hex.digit (c.toNat / 16), Text.Hex.digit (c.toNat % 16)]
      else [c]

/-- A quoted string. -/
def quote (s : String) : String :=
  "\"" ++ String.ofList (s.toList.flatMap escapeChar) ++ "\""

/-- The text of a value that holds no other values. -/
def atom : Json → String
  | .null => "null"
  | .bool value => if value then "true" else "false"
  | .int value => toString value
  | .decimal text => text
  | .string value => quote value
  | .array _ => "[]"
  | .object _ => "\x7b\x7d"

mutual

/-- The value on one line without blanks. -/
def compact : Json → String
  | .array items => "[" ++ ",".intercalate (compactItems items) ++ "]"
  | .object members => "\x7b" ++ ",".intercalate (compactMembers members) ++ "\x7d"
  | other => other.atom

/-- The items of an array on one line each. -/
def compactItems : List Json → List String
  | [] => []
  | item :: rest => compact item :: compactItems rest

/-- The members of an object on one line each. -/
def compactMembers : List (String × Json) → List String
  | [] => []
  | (name, value) :: rest => (quote name ++ ":" ++ compact value) :: compactMembers rest

end

/-- A line break followed by the indentation of a level. -/
def lineBreak (level : Nat) : String := "\n" ++ String.ofList (List.replicate (2 * level) ' ')

mutual

/-- The value with one item or member per line, from the given level on. -/
def indented (level : Nat) : Json → String
  | .array [] => "[]"
  | .array items =>
      "[" ++ ",".intercalate (indentedItems (level + 1) items) ++ lineBreak level ++ "]"
  | .object [] => "\x7b\x7d"
  | .object members =>
      "\x7b" ++ ",".intercalate (indentedMembers (level + 1) members) ++ lineBreak level ++ "\x7d"
  | other => other.atom

/-- The items of an array, each on a line of its own. -/
def indentedItems (level : Nat) : List Json → List String
  | [] => []
  | item :: rest => (lineBreak level ++ indented level item) :: indentedItems level rest

/-- The members of an object, each on a line of its own. -/
def indentedMembers (level : Nat) : List (String × Json) → List String
  | [] => []
  | (name, value) :: rest =>
      (lineBreak level ++ quote name ++ ": " ++ indented level value) ::
        indentedMembers level rest

end

/-- The indented form of a value. -/
def pretty (json : Json) : String := json.indented 0

end ForkReplay.Json
