import ForkReplay.Replay.Session

/-!
# Shared sessions

Clones of a handle share one session behind one lock. An operation is issued, waits for
its turn, holds the lock from its first contact with the world to its last, and returns.
It may be cut off at any time. The lock goes to whoever has waited longest.

Moves are data: what the clones, the lock and the world do is a list of moves, in any
order, and a move that makes no sense at its time does nothing.
-/

namespace ForkReplay

namespace Dialogue

variable {Q : Type} {A : Q → Type} {α β : Type}

/-- A dialogue goes by the given questions and answers, and `rest` is what remains. -/
inductive Follows (start : Dialogue Q A α) :
    List ((q : Q) × A q) → Dialogue Q A α → Prop where
  | start : Follows start [] start
  | answered {exchanges : List ((q : Q) × A q)} {q : Q} {next : A q → Dialogue Q A α}
      (hearlier : Follows start exchanges (.ask q next)) (answer : A q) :
      Follows start (exchanges ++ [⟨q, answer⟩]) (next answer)

variable {exchanges : List ((q : Q) × A q)}

theorem eq_of_follows_done {value : α} {rest : Dialogue Q A α}
    (h : Follows (.done value) exchanges rest) : exchanges = [] ∧ rest = .done value := by
  induction h with
  | start => exact ⟨rfl, rfl⟩
  | answered hearlier answer ih => cases ih.2

/-- A dialogue whose value is changed goes as it did before. -/
theorem exists_follows_of_map {f : α → β} {d : Dialogue Q A α} {rest : Dialogue Q A β}
    (h : Follows (f <$> d) exchanges rest) :
    ∃ rest', Follows d exchanges rest' ∧ rest = f <$> rest' := by
  induction h with
  | start => exact ⟨d, .start, rfl⟩
  | answered hearlier answer ih =>
      obtain ⟨rest', hfollows, hrest⟩ := ih
      cases rest' with
      | done value => cases hrest
      | ask q next =>
          cases hrest
          exact ⟨next answer, .answered hfollows answer, rfl⟩

theorem exists_follows_done_of_map {f : α → β} {d : Dialogue Q A α} {value : β}
    (h : Follows (f <$> d) exchanges (.done value)) :
    ∃ before, Follows d exchanges (.done before) ∧ value = f before := by
  obtain ⟨rest, hfollows, hrest⟩ := exists_follows_of_map h
  cases rest with
  | done before =>
      cases hrest
      exact ⟨before, hfollows, rfl⟩
  | ask q next => cases hrest

end Dialogue

open Dialogue (Follows)

/-! ## Operations -/

/-- What is asked of a session. -/
inductive Request (N : Type) where
  | connect
  /-- Connects to a given node. -/
  | attach (node : N)
  | isConnected
  | connection
  /-- Replays the transaction whose hash the text gives. -/
  | replay (text : String)

/-- What an operation returns. -/
inductive Return (N : Type) where
  | connected (result : Except ReplayError Unit)
  | isConnected (connected : Bool)
  | connection (connection : Option (Connection N))
  | replayed (response : Response)

namespace Session

variable {N : Type}

/-- What an operation does with the session while it holds the lock: the contacts that it
makes, what it returns, and the session that it leaves. -/
def serve (session : Session N) : Request N → Contacting N (Return N × Session N)
  | .connect => (fun ending => (.connected ending.1, ending.2)) <$> session.connect
  | .attach node => (fun ending => (.connected ending.1, ending.2)) <$> session.attach node
  | .isConnected => .done (.isConnected session.isConnected, session)
  | .connection => .done (.connection session.connection, session)
  | .replay text => (fun response => (.replayed response, session)) <$> session.replay text

end Session

/-- A contact with the world and the reply to it. -/
abbrev Contact.Exchange (N : Type) := (contact : Contact N) × contact.Reply

/-- An operation that was issued. -/
structure Operation (N : Type) where
  /-- How many operations were issued before this one. -/
  ticket : Nat
  /-- How many operations had returned when this one was issued. -/
  returnedBefore : Nat
  request : Request N

/-- An operation that holds the lock. -/
structure Holder (N : Type) where
  operation : Operation N
  exchanges : List (Contact.Exchange N) := []
  /-- What the operation still has to do. -/
  rest : Contacting N (Return N × Session N)

/-- An operation that has returned. -/
structure Returned (N : Type) where
  operation : Operation N
  exchanges : List (Contact.Exchange N)
  value : Return N

/-- A session behind a lock, with the operations on it. -/
structure Shared (N : Type) where
  session : Session N
  /-- How many operations were issued. -/
  issued : Nat := 0
  /-- The operations that wait for the lock, the first one first. -/
  waiting : List (Operation N) := []
  holder : Option (Holder N) := none
  /-- The tickets of all operations that were given the lock, in that order. -/
  granted : List Nat := []
  /-- The operations that have returned, in that order. -/
  returned : List (Returned N) := []

/-- Something that a clone, the lock or the world does. -/
inductive Move (N : Type) where
  /-- A clone issues an operation, which waits behind all others. -/
  | issue (request : Request N)
  /-- The lock, if it is free, goes to the operation that has waited longest. -/
  | grant
  /-- The world replies to the contact that the holder of the lock makes. -/
  | reply (answer : (contact : Contact N) → contact.Reply)
  /-- The holder of the lock returns, if it has nothing left to do. -/
  | finish
  /-- A waiting operation is cut off. -/
  | giveUp (position : Nat)
  /-- The holder of the lock is cut off. What its fork may still ask reaches nobody. -/
  | cutOff

namespace Shared

variable {N : Type}

def step (shared : Shared N) : Move N → Shared N
  | .issue request =>
      let operation : Operation N :=
        { ticket := shared.issued, returnedBefore := shared.returned.length, request }
      { shared with issued := shared.issued + 1, waiting := shared.waiting ++ [operation] }
  | .grant =>
      match shared.holder, shared.waiting with
      | none, operation :: waiting =>
          { shared with
            waiting
            granted := shared.granted ++ [operation.ticket]
            holder := some { operation, rest := shared.session.serve operation.request } }
      | _, _ => shared
  | .reply answer =>
      match shared.holder with
      | some ⟨operation, exchanges, .ask contact next⟩ =>
          { shared with
            holder := some
              { operation
                exchanges := exchanges ++ [⟨contact, answer contact⟩]
                rest := next (answer contact) } }
      | _ => shared
  | .finish =>
      match shared.holder with
      | some ⟨operation, exchanges, .done (value, session)⟩ =>
          { shared with
            session
            holder := none
            returned := shared.returned ++ [{ operation, exchanges, value }] }
      | _ => shared
  | .giveUp position => { shared with waiting := shared.waiting.eraseIdx position }
  | .cutOff => { shared with holder := none }

/-- What becomes of a fresh handle by the given moves. -/
def after (setup : Setup) (moves : List (Move N)) : Shared N :=
  moves.foldl step { session := { toSetup := setup } }

/-- What holds at the start and is kept by every step holds after all moves. -/
theorem after_induction {setup : Setup} {motive : Shared N → Prop}
    (start : motive { session := { toSetup := setup } })
    (step : ∀ shared move, motive shared → motive (shared.step move)) (moves : List (Move N)) :
    motive (after setup moves) := by
  refine List.foldlRecOn moves Shared.step start ?_
  intro shared hshared move _
  exact step shared move hshared

end Shared

end ForkReplay
