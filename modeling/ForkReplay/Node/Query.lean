import ForkReplay.Dialogue
import ForkReplay.Node.Block
import ForkReplay.Node.Failure

/-!
# Queries to a node

What a replay asks a node, what the answers mean, and the form of both on the wire:
a query is sent as a method with parameters, and its result is read back from JSON.
-/

namespace ForkReplay.Node

/-- A block, by its number or as the newest one. -/
inductive BlockTag where
  | latest
  | number (n : UInt64)
deriving DecidableEq, Repr

inductive StateField where
  | nonce
  | balance
  | code
  | slot (key : Word)
deriving DecidableEq, Repr

/-- A question to a node. -/
inductive Query where
  | chainId
  | transaction (hash : Hash)
  /-- A block with its transactions in full, or by their hashes. -/
  | block (tag : BlockTag) (full : Bool)
  /-- State of an account after the block with the given number. -/
  | state (field : StateField) (address : Address) (number : UInt64)
deriving DecidableEq, Repr

/-- What a piece of state is. -/
def StateField.Value : StateField → Type
  | .nonce => UInt64
  | .balance | .slot _ => Word
  | .code => Bytes

/-- What a query asks for. A transaction or a block may be unknown. -/
def Query.Answer : Query → Type
  | .chainId => UInt64
  | .transaction _ => Option TransactionReport
  | .block _ _ => Option BlockReport
  | .state field _ _ => field.Value

abbrev Query.Reply (query : Query) : Type := Except Failure query.Answer

/-- A computation that asks a node. -/
abbrev Asking := Dialogue Query Query.Reply

/-! ## The form on the wire -/

/-- The tag of a block in a request. -/
def BlockTag.text : BlockTag → String
  | .latest => "latest"
  | .number n => Text.Hex.ofNat n.toNat

namespace Query

def method : Query → String
  | .chainId => "eth_chainId"
  | .transaction _ => "eth_getTransactionByHash"
  | .block _ _ => "eth_getBlockByNumber"
  | .state .nonce _ _ => "eth_getTransactionCount"
  | .state .balance _ _ => "eth_getBalance"
  | .state .code _ _ => "eth_getCode"
  | .state (.slot _) _ _ => "eth_getStorageAt"

def params : Query → List Json
  | .chainId => []
  | .transaction hash => [.string (Hash.text hash)]
  | .block tag full => [.string tag.text, .bool full]
  | .state (.slot key) address number =>
      [.string address.text, .string (Text.Hex.ofNat key.toNat),
       .string (BlockTag.number number).text]
  | .state _ address number => [.string address.text, .string (BlockTag.number number).text]

def read? : (query : Query) → Json → Option query.Answer
  | .chainId, json | .state .nonce _ _, json => json.quantity64?
  | .transaction _, json => Json.optional? TransactionReport.ofJson? (some json)
  | .block _ _, json => Json.optional? BlockReport.ofJson? (some json)
  | .state .balance _ _, json | .state (.slot _) _ _, json => json.quantity256?
  | .state .code _ _, json => json.bytes?

/-- The reply that a result or an error on the wire stands for. -/
def reply (query : Query) : Except (Int × String) Json → query.Reply
  | .error (code, message) => .error (.response code message)
  | .ok result =>
      match query.read? result with
      | some answer => .ok answer
      | none => .error .undecodable

end Query

end ForkReplay.Node
