/-!
# JSON values

The data model of JSON. An integer keeps its exact value, and any other number
keeps its text, because no rule of this library computes with fractions.
-/

namespace ForkReplay

/-- A JSON value. Object members keep their order. -/
inductive Json where
  | null
  | bool (value : Bool)
  /-- A number written without a fraction or an exponent. -/
  | int (value : Int)
  /-- Any other number, by its text. -/
  | decimal (text : String)
  | string (value : String)
  | array (items : List Json)
  | object (members : List (String × Json))
deriving Inhabited, Repr

namespace Json

def nat (value : Nat) : Json := .int value

/-- An optional value, `null` when absent. -/
def ofOption {α : Type} (encode : α → Json) : Option α → Json
  | none => .null
  | some value => encode value

/-- The value of the first member called `name`. -/
def lookup (name : String) : List (String × Json) → Option Json
  | [] => none
  | (key, value) :: rest => if key = name then some value else lookup name rest

def member? (json : Json) (name : String) : Option Json :=
  match json with
  | .object members => lookup name members
  | _ => none

/-- The member called `name`, unless it is absent or `null`. -/
def present? (json : Json) (name : String) : Option Json :=
  match json.member? name with
  | some .null => none
  | other => other

/-- Reads an optional member: absent and `null` mean none. -/
def optional? {α : Type} (read : Json → Option α) : Option Json → Option (Option α)
  | none | some .null => some none
  | some json => (read json).map some

def string? : Json → Option String
  | .string value => some value
  | _ => none

def array? : Json → Option (List Json)
  | .array items => some items
  | _ => none

/-- An integer between zero and `2 ^ 64 - 1`. -/
def uint64? : Json → Option UInt64
  | .int value =>
      if 0 ≤ value ∧ value.toNat < UInt64.size then some (UInt64.ofNat value.toNat) else none
  | _ => none

def bool? : Json → Option Bool
  | .bool value => some value
  | _ => none

end Json

end ForkReplay
