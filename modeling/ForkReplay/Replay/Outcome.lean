import ForkReplay.Abi.Revert
import ForkReplay.Evm.Transact
import ForkReplay.Json.Bytes

/-!
# Outcomes

What a replayed transaction came to, with its revert data read, and the JSON form of
it. In JSON the outcome is an object whose member `status` tells the case.
-/

namespace ForkReplay

/-- What a transaction that could be executed came to. -/
inductive Outcome where
  /-- `output` is the return data, or the deployed code of a creation. -/
  | success (gasUsed gasRefunded : UInt64) (output : Bytes) (created : Option Address)
  | revert (gasUsed : UInt64) (message : String)
  | halt (gasUsed : UInt64) (reason : String)
deriving DecidableEq

namespace Outcome

def gasUsed : Outcome → UInt64
  | .success gasUsed _ _ _ | .revert gasUsed _ | .halt gasUsed _ => gasUsed

def isSuccess : Outcome → Bool
  | .success .. => true
  | _ => false

/-- Why the transaction did not succeed; empty if it did. -/
def revertText : Outcome → String
  | .success .. => ""
  | .revert _ message => message
  | .halt _ reason => reason

/-- The outcome of an execution. -/
def ofResult : Evm.ExecutionResult → Outcome
  | .success gasUsed gasRefunded output created =>
      .success (UInt64.ofNat gasUsed) (UInt64.ofNat gasRefunded) output created
  | .revert gasUsed output => .revert (UInt64.ofNat gasUsed) (Abi.revertMessage output)
  | .halt gasUsed cause => .halt (UInt64.ofNat gasUsed) cause.name

def toJson : Outcome → Json
  | .success gasUsed gasRefunded output created =>
      .object
        [("status", .string "success"), ("gas_used", .nat gasUsed.toNat),
         ("gas_refunded", .nat gasRefunded.toNat), ("output", .string (Text.Hex.ofBytes output)),
         ("created", Json.ofOption (fun address => .string (Address.text address)) created)]
  | .revert gasUsed message =>
      .object
        [("status", .string "revert"), ("gas_used", .nat gasUsed.toNat),
         ("message", .string message)]
  | .halt gasUsed reason =>
      .object
        [("status", .string "halt"), ("gas_used", .nat gasUsed.toNat), ("reason", .string reason)]

/-- The outcome that the values of an array stand for, the case first. -/
def ofItems? : List Json → Option Outcome
  | [.string "success", gasUsed, gasRefunded, output, created] =>
      return .success (← gasUsed.uint64?) (← gasRefunded.uint64?) (← Json.bytes? output)
        (← Json.optional? Json.address? (some created))
  | [.string "revert", gasUsed, message] => return .revert (← gasUsed.uint64?) (← message.string?)
  | [.string "halt", gasUsed, reason] => return .halt (← gasUsed.uint64?) (← reason.string?)
  | _ => none

/-- The outcome that an object stands for. Members may come in any order, and
unknown ones are ignored. -/
def ofObject? (json : Json) : Option Outcome := do
  let status ← json.member? "status" >>= Json.string?
  let gasUsed ← json.member? "gas_used" >>= Json.uint64?
  match status with
  | "success" => do
      let gasRefunded ← json.member? "gas_refunded" >>= Json.uint64?
      let output ← json.member? "output" >>= Json.bytes?
      let created ← Json.optional? Json.address? (json.member? "created")
      return .success gasUsed gasRefunded output created
  | "revert" => return .revert gasUsed (← json.member? "message" >>= Json.string?)
  | "halt" => return .halt gasUsed (← json.member? "reason" >>= Json.string?)
  | _ => none

def ofJson? : Json → Option Outcome
  | .array items => ofItems? items
  | json => ofObject? json

end Outcome

namespace BlockInfo

def toJson (info : BlockInfo) : Json :=
  .object [("number", .nat info.number.toNat), ("timestamp", .nat info.timestamp.toNat)]

/-- The head that a JSON value stands for: an object with both members, or an array of
both values. -/
def ofJson? : Json → Option BlockInfo
  | .array [number, timestamp] => return ⟨← number.uint64?, ← timestamp.uint64?⟩
  | json => return ⟨← json.member? "number" >>= Json.uint64?,
      ← json.member? "timestamp" >>= Json.uint64?⟩

end BlockInfo

end ForkReplay
