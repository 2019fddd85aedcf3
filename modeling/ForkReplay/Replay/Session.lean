import ForkReplay.Replay.Response
import ForkReplay.Replay.Simulator

/-!
# Sessions

A session holds settings and, once it is connected, a simulator with the node it asks.
It answers replay requests with flat responses. An attempt to connect that fails leaves
the session as it was.

Nodes are values of any type `N`. What a session does with the world is a dialogue of
contacts: it dials an endpoint or asks a node, one contact after the other.
-/

namespace ForkReplay

/-- What is done with the world outside. -/
inductive Contact (N : Type) where
  /-- Connects to an endpoint. -/
  | dial (url : String)
  /-- Asks a node. -/
  | ask (node : N) (query : Node.Query)

/-- What a contact brings: a node or what is said of the failure, or the reply to a
query. -/
def Contact.Reply {N : Type} : Contact N → Type
  | .dial _ => Except String N
  | .ask _ query => query.Reply

/-- A computation that contacts the world. -/
abbrev Contacting (N : Type) := Dialogue (Contact N) Contact.Reply

/-- A simulator and the node it asks. -/
structure Connection (N : Type) where
  simulator : Simulator
  node : N

namespace Connection

variable {N : Type}

/-- Runs a computation against a node. -/
def onNode {α : Type} (node : N) (computation : Simulating α) :
    ExceptT ReplayError (Contacting N) α :=
  ExceptT.mk (computation.run.interpret fun query => Dialogue.question (Contact.ask node query))

/-- Makes a simulator for a node. -/
def attach (settings : Settings) (node : N) (canFork : Bool := true)
    (precompiles : Evm.Precompiles := Evm.Precompiles.basic) :
    ExceptT ReplayError (Contacting N) (Connection N) := do
  let simulator ← onNode node (Simulator.start settings canFork precompiles)
  return { simulator, node }

/-- Connects to the endpoint of the settings, blanks at its ends aside. -/
def dial (settings : Settings) : ExceptT ReplayError (Contacting N) N := do
  settings.validate
  let reply : Except String N ←
    ExceptT.lift (Dialogue.question (Contact.dial (Text.trim settings.url)))
  match reply with
  | .ok node => return node
  | .error detail => throw (.connection settings.url detail)

/-- Connects to the endpoint of the settings and makes a simulator for the node there. -/
def connect (settings : Settings) (canFork : Bool := true)
    (precompiles : Evm.Precompiles := Evm.Precompiles.basic) :
    ExceptT ReplayError (Contacting N) (Connection N) := do
  let node ← dial settings
  attach settings node canFork precompiles

end Connection

/-- What a session is made with: its settings, and what there is where it runs. -/
structure Setup where
  settings : Settings
  /-- Whether the state of a node can be forked. -/
  canFork : Bool := true
  precompiles : Evm.Precompiles := Evm.Precompiles.basic

/-- A handle that is connected when it is asked to be. -/
structure Session (N : Type) extends Setup where
  connection : Option (Connection N) := none

namespace Session

variable {N : Type}

def isConnected (session : Session N) : Bool := session.connection.isSome

/-- Takes a new connection, or stays as it is if there is none. -/
def adopt (session : Session N) :
    Except ReplayError (Connection N) → Except ReplayError Unit × Session N
  | .ok connection => (.ok (), { session with connection := some connection })
  | .error error => (.error error, session)

def connect (session : Session N) : Contacting N (Except ReplayError Unit × Session N) :=
  session.adopt <$>
    (Connection.connect session.settings session.canFork session.precompiles).run

/-- Connects to a given node. -/
def attach (session : Session N) (node : N) : Contacting N (Except ReplayError Unit × Session N) :=
  session.adopt <$>
    (Connection.attach session.settings node session.canFork session.precompiles).run

/-- Replays the transaction whose hash the text gives. -/
def outcome (session : Session N) (text : String) : ExceptT ReplayError (Contacting N) Outcome :=
  match Hash.read text with
  | .error error => throw error
  | .ok hash =>
      match session.connection with
      | none => throw .notInitialized
      | some connection =>
          Connection.onNode connection.node (connection.simulator.replay hash)

/-- The response to the request to replay the transaction whose hash the text gives. -/
def replay (session : Session N) (text : String) : Contacting N Response :=
  Response.ofResult <$> (session.outcome text).run

end Session

end ForkReplay
