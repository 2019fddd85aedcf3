/-!
# Failures of a node

Why a query to a node brings no answer.
-/

namespace ForkReplay.Node

/-- Why a query brought no answer. -/
inductive Failure where
  /-- The node answered with an error. -/
  | response (code : Int) (message : String)
  /-- The node's answer is not of the form that was asked for. -/
  | undecodable
deriving DecidableEq, Repr

def Failure.message : Failure → String
  | .response code message => s!"server returned an error response: error code {code}: {message}"
  | .undecodable => "deserialization error"

end ForkReplay.Node
