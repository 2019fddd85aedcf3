import Mathlib.Data.List.Pairwise
import ForkReplay.Proofs.SharedSession

/-!
# Operations in the order of the lock

However operations on a shared session are interleaved and cut off, those that return do
so as if they had run one at a time, in the order in which they were given the lock. The
connection is that of the last attempt to connect that succeeded, and every replay is
answered from the connection at its turn.
-/

namespace ForkReplay

variable {N : Type} {setup : Setup}

/-! ## One operation after the other -/

/-- An operation is served by a session: it makes these contacts, returns this value, and
leaves this session. -/
def Returned.Serves (returned : Returned N) (session after : Session N) : Prop :=
  Dialogue.Follows (session.serve returned.operation.request) returned.exchanges
    (.done (returned.value, after))

/-- The operations are served one at a time, each by the session that the one before it
has left. -/
inductive Serial (first : Session N) : List (Returned N) → Session N → Prop where
  | nil : Serial first [] first
  | snoc {earlier : List (Returned N)} {last : Returned N} {session after : Session N}
      (hearlier : Serial first earlier session) (hlast : last.Serves session after) :
      Serial first (earlier ++ [last]) after

namespace Returned

/-- The operation connected the session. -/
def Succeeded (returned : Returned N) : Prop := returned.value = .connected (.ok ())

/-- The contacts of the operation came to this connection. -/
def Made (returned : Returned N) (setup : Setup) (connection : Connection N) : Prop :=
  match returned.operation.request with
  | .connect =>
      Dialogue.Follows (Connection.connect setup.settings setup.canFork setup.precompiles).run
        returned.exchanges (.done (.ok connection))
  | .attach node =>
      Dialogue.Follows (Connection.attach setup.settings node setup.canFork setup.precompiles).run
        returned.exchanges (.done (.ok connection))
  | _ => False

theorem adopts_or_keeps_of_adopt {session after : Session N} {value : Return N}
    {exchanges : List (Contact.Exchange N)}
    {attempt : Contacting N (Except ReplayError (Connection N))}
    (h : Dialogue.Follows
      ((fun ending => (Return.connected ending.1, ending.2)) <$> (session.adopt <$> attempt))
      exchanges (.done (value, after))) :
    (∃ connection, Dialogue.Follows attempt exchanges (.done (.ok connection)) ∧
        value = .connected (.ok ()) ∧
        after = { session with connection := some connection }) ∨
      value ≠ .connected (.ok ()) ∧ after = session := by
  obtain ⟨ending, hending, hvalue⟩ := Dialogue.exists_follows_done_of_map h
  obtain ⟨result, hresult, rfl⟩ := Dialogue.exists_follows_done_of_map hending
  cases hvalue
  cases result with
  | ok connection => exact .inl ⟨connection, hresult, rfl, rfl⟩
  | error error => exact .inr ⟨nofun, rfl⟩

/-- An operation either connects the session anew, or leaves it as it is. -/
theorem adopts_or_keeps {returned : Returned N} {session after : Session N}
    (h : returned.Serves session after) :
    (∃ connection, returned.Made session.toSetup connection ∧ returned.Succeeded ∧
        after = { session with connection := some connection }) ∨
      ¬ returned.Succeeded ∧ after = session := by
  obtain ⟨⟨ticket, returnedBefore, request⟩, exchanges, value⟩ := returned
  cases request with
  | connect => exact adopts_or_keeps_of_adopt h
  | attach node => exact adopts_or_keeps_of_adopt h
  | isConnected =>
      obtain ⟨-, hvalue⟩ := Dialogue.eq_of_follows_done h
      cases hvalue
      exact .inr ⟨nofun, rfl⟩
  | connection =>
      obtain ⟨-, hvalue⟩ := Dialogue.eq_of_follows_done h
      cases hvalue
      exact .inr ⟨nofun, rfl⟩
  | replay text =>
      obtain ⟨response, -, hvalue⟩ := Dialogue.exists_follows_done_of_map h
      cases hvalue
      exact .inr ⟨nofun, rfl⟩

end Returned

/-- The connection that is held after some operations: that of the last one that connected
the session, if there is one. -/
inductive Stored (setup : Setup) : List (Returned N) → Option (Connection N) → Prop where
  | none {returned : List (Returned N)} (hnone : ∀ operation ∈ returned, ¬ operation.Succeeded) :
      Stored setup returned none
  | last {earlier later : List (Returned N)} {maker : Returned N} {connection : Connection N}
      (hsucceeded : maker.Succeeded) (hmade : maker.Made setup connection)
      (hlater : ∀ operation ∈ later, ¬ operation.Succeeded) :
      Stored setup (earlier ++ maker :: later) (some connection)

namespace Stored

variable {returned : List (Returned N)} {connection : Option (Connection N)}

theorem concat_of_not_succeeded (h : Stored setup returned connection) {last : Returned N}
    (hlast : ¬ last.Succeeded) : Stored setup (returned ++ [last]) connection := by
  cases h with
  | none hnone => exact .none (by simpa [or_imp, forall_and] using ⟨hnone, hlast⟩)
  | last hsucceeded hmade hlater =>
      rw [List.append_assoc, List.cons_append]
      exact .last hsucceeded hmade (by simpa [or_imp, forall_and] using ⟨hlater, hlast⟩)

theorem eq_none (h : Stored setup returned connection)
    (hnone : ∀ operation ∈ returned, ¬ operation.Succeeded) : connection = Option.none := by
  cases h with
  | none => rfl
  | @last earlier later maker connection hsucceeded =>
      exact absurd hsucceeded (hnone maker (by simp))

/-- Once an operation has connected the session, what is held is its connection or a later
one. -/
theorem drop_of_succeeded (h : Stored setup returned connection) {position : Nat}
    {operation : Returned N} (hposition : returned[position]? = some operation)
    (hsucceeded : operation.Succeeded) :
    ∃ made, connection = some made ∧ Stored setup (returned.drop position) (some made) := by
  cases h with
  | none hnone => exact absurd hsucceeded (hnone operation (List.mem_of_getElem? hposition))
  | @last earlier later maker connection hmaker hmade hlater =>
      -- The operation comes no later than the maker, after which none has connected the session.
      have hle : position ≤ earlier.length := by
        by_contra hgt
        have hlt : earlier.length < position := Nat.lt_of_not_le hgt
        rw [List.getElem?_append_right (by omega), List.getElem?_cons,
          if_neg (by omega)] at hposition
        exact hlater operation (List.mem_of_getElem? hposition) hsucceeded
      refine ⟨connection, rfl, ?_⟩
      rw [List.drop_append_of_le_length hle]
      exact .last hmaker hmade hlater

end Stored

namespace Serial

variable {first session : Session N} {returned : List (Returned N)}

/-- What the session was made with stays, and the connection is the last one that was made. -/
theorem stored (h : Serial { toSetup := setup } returned session) :
    session.toSetup = setup ∧ Stored setup returned session.connection := by
  induction h with
  | nil => exact ⟨rfl, .none (by simp)⟩
  | snoc hearlier hlast ih =>
      obtain ⟨hsetup, hstored⟩ := ih
      rcases Returned.adopts_or_keeps hlast with
        ⟨connection, hmade, hsucceeded, rfl⟩ | ⟨hfailed, rfl⟩
      · rw [hsetup] at hmade
        exact ⟨hsetup, .last hsucceeded hmade (by simp)⟩
      · exact ⟨hsetup, hstored.concat_of_not_succeeded hfailed⟩

/-- Each operation is served by the session that those before it have left. -/
theorem exists_serves {before later : List (Returned N)} {operation : Returned N}
    (h : Serial first (before ++ operation :: later) session) :
    ∃ middle after, Serial first before middle ∧ operation.Serves middle after := by
  -- The operations are built up from the front, so the last one is taken off in each step.
  generalize hall : before ++ operation :: later = all at h
  induction h generalizing later with
  | nil => simp at hall
  | @snoc earlier last session after hearlier hlast ih =>
      rcases List.eq_nil_or_concat later with rfl | ⟨rest, final, rfl⟩
      · obtain ⟨rfl, hsame⟩ := List.append_inj' hall rfl
        cases hsame
        exact ⟨session, after, hearlier, hlast⟩
      · rw [List.concat_eq_append, ← List.cons_append, ← List.append_assoc] at hall
        obtain ⟨hall, -⟩ := List.append_inj' hall rfl
        exact ih hall

end Serial

/-! ## Replays -/

/-- How a replay is answered by a session with this connection: the contacts that it makes
and the response. -/
inductive Replayed (text : String) :
    Option (Connection N) → List (Contact.Exchange N) → Response → Prop where
  | malformed (hmalformed : Hash.ofText? text = none) (connection : Option (Connection N)) :
      Replayed text connection []
        (.failed (ReplayError.invalidTransactionHash text).message)
  | notConnected {hash : Hash} (hwellFormed : Hash.ofText? text = some hash) :
      Replayed text none [] (.failed ReplayError.notInitialized.message)
  | connected {hash : Hash} {connection : Connection N}
      {exchanges : List (Contact.Exchange N)} {result : Except ReplayError Outcome}
      (hwellFormed : Hash.ofText? text = some hash)
      (hreplay : Dialogue.Follows
        (Connection.onNode connection.node (connection.simulator.replay hash)).run exchanges
        (.done result)) :
      Replayed text (some connection) exchanges (.ofResult result)

namespace Session

variable {session : Session N} {text : String}

theorem outcome_of_malformed (h : Hash.ofText? text = none) :
    (session.outcome text).run = .done (.error (.invalidTransactionHash text)) := by
  rw [outcome, Hash.read, h]
  rfl

theorem outcome_of_notConnected {hash : Hash} (h : Hash.ofText? text = some hash)
    (hnone : session.connection = none) :
    (session.outcome text).run = .done (.error .notInitialized) := by
  rw [outcome, Hash.read, h]
  dsimp only
  rw [hnone]
  rfl

theorem outcome_of_connected {hash : Hash} {connection : Connection N}
    (h : Hash.ofText? text = some hash) (hsome : session.connection = some connection) :
    (session.outcome text).run =
      (Connection.onNode connection.node (connection.simulator.replay hash)).run := by
  rw [outcome, Hash.read, h]
  dsimp only
  rw [hsome]

theorem replayed_of_follows {exchanges : List (Contact.Exchange N)} {response : Response}
    (h : Dialogue.Follows (session.replay text) exchanges (.done response)) :
    Replayed text session.connection exchanges response := by
  obtain ⟨result, hresult, rfl⟩ := Dialogue.exists_follows_done_of_map h
  cases hhash : Hash.ofText? text with
  | none =>
      rw [outcome_of_malformed hhash] at hresult
      obtain ⟨rfl, hvalue⟩ := Dialogue.eq_of_follows_done hresult
      cases hvalue
      exact .malformed hhash _
  | some hash =>
      cases hconnection : session.connection with
      | none =>
          rw [outcome_of_notConnected hhash hconnection] at hresult
          obtain ⟨rfl, hvalue⟩ := Dialogue.eq_of_follows_done hresult
          cases hvalue
          exact .notConnected hhash
      | some connection =>
          rw [outcome_of_connected hhash hconnection] at hresult
          exact .connected hhash hresult

end Session

/-! ## What every move keeps -/

namespace Shared

variable {shared : Shared N}

/-- Whoever has returned was served in turn, and the holder of the lock is being served by
the session as it is. -/
structure Served (setup : Setup) (shared : Shared N) : Prop where
  returned : Serial { toSetup := setup } shared.returned shared.session
  holder : ∀ holder ∈ shared.holder,
    Dialogue.Follows (shared.session.serve holder.operation.request) holder.exchanges holder.rest

/-- The lock is given in the order of issue, and operations return in the order in which
they were given the lock. -/
structure Queued (shared : Shared N) : Prop where
  issued : ∀ ticket ∈ shared.granted ++ shared.waiting.map Operation.ticket,
    ticket < shared.issued
  granted : (shared.granted ++ shared.waiting.map Operation.ticket).Pairwise (· < ·)
  returned : (shared.returned.map (fun returned => returned.operation.ticket) ++
    shared.holder.toList.map fun holder => holder.operation.ticket).Sublist shared.granted

/-- No operation returns before those that had returned when it was issued. -/
structure Timed (shared : Shared N) : Prop where
  waiting : ∀ operation ∈ shared.waiting, operation.returnedBefore ≤ shared.returned.length
  holder : ∀ holder ∈ shared.holder, holder.operation.returnedBefore ≤ shared.returned.length
  returned : ∀ before operation later, shared.returned = before ++ operation :: later →
    operation.operation.returnedBefore ≤ before.length

/-- The cases of a step: an operation is issued, is given the lock, gets a reply, returns,
or is cut off, or nothing happens. -/
theorem step_cases (shared : Shared N) (move : Move N) :
    (∃ request, shared.step move = { shared with
        issued := shared.issued + 1
        waiting := shared.waiting ++ [⟨shared.issued, shared.returned.length, request⟩] }) ∨
      (∃ operation waiting, shared.holder = none ∧ shared.waiting = operation :: waiting ∧
        shared.step move = { shared with
          waiting
          granted := shared.granted ++ [operation.ticket]
          holder := some { operation, rest := shared.session.serve operation.request } }) ∨
      (∃ operation exchanges contact next reply,
        shared.holder = some ⟨operation, exchanges, .ask contact next⟩ ∧
        shared.step move = { shared with
          holder := some ⟨operation, exchanges ++ [⟨contact, reply⟩], next reply⟩ }) ∨
      (∃ operation exchanges value session,
        shared.holder = some ⟨operation, exchanges, .done (value, session)⟩ ∧
        shared.step move = { shared with
          session
          holder := none
          returned := shared.returned ++ [⟨operation, exchanges, value⟩] }) ∨
      (∃ position, shared.step move =
        { shared with waiting := shared.waiting.eraseIdx position }) ∨
      shared.step move = { shared with holder := none } ∨ shared.step move = shared := by
  cases move with
  | issue request => exact .inl ⟨request, rfl⟩
  | grant =>
      rw [step]
      split
      next operation waiting hholder hwaiting =>
        exact .inr (.inl ⟨operation, waiting, hholder, hwaiting, rfl⟩)
      next => simp
  | reply answer =>
      rw [step]
      split
      next operation exchanges contact next hholder =>
        exact .inr (.inr (.inl ⟨operation, exchanges, contact, next, answer contact, hholder, rfl⟩))
      next => simp
  | finish =>
      rw [step]
      split
      next operation exchanges value session hholder =>
        exact .inr (.inr (.inr (.inl ⟨operation, exchanges, value, session, hholder, rfl⟩)))
      next => simp
  | giveUp position => exact .inr (.inr (.inr (.inr (.inl ⟨position, rfl⟩))))
  | cutOff => simp [step]

theorem Served.step (h : shared.Served setup) (move : Move N) :
    (shared.step move).Served setup := by
  rcases shared.step_cases move with ⟨request, hstep⟩ |
    ⟨operation, waiting, -, -, hstep⟩ |
    ⟨operation, exchanges, contact, next, reply, hholder, hstep⟩ |
    ⟨operation, exchanges, value, session, hholder, hstep⟩ |
    ⟨position, hstep⟩ | hstep | hstep
  all_goals rw [hstep]
  · exact ⟨h.returned, h.holder⟩
  · refine ⟨h.returned, ?_⟩
    rintro holder ⟨⟩
    exact .start
  · refine ⟨h.returned, ?_⟩
    rintro holder ⟨⟩
    exact (h.holder _ hholder).answered reply
  · refine ⟨h.returned.snoc (h.holder _ hholder), ?_⟩
    rintro holder ⟨⟩
  · exact ⟨h.returned, h.holder⟩
  · refine ⟨h.returned, ?_⟩
    rintro holder ⟨⟩
  · exact h

theorem Queued.step (h : shared.Queued) (move : Move N) : (shared.step move).Queued := by
  rcases shared.step_cases move with ⟨request, hstep⟩ |
    ⟨operation, waiting, hholder, hwaiting, hstep⟩ |
    ⟨operation, exchanges, contact, next, reply, hholder, hstep⟩ |
    ⟨operation, exchanges, value, session, hholder, hstep⟩ |
    ⟨position, hstep⟩ | hstep | hstep
  all_goals rw [hstep]
  · refine ⟨?_, ?_, h.returned⟩
    · intro ticket hticket
      simp only [List.map_append, ← List.append_assoc, List.mem_append (s := shared.granted ++ _)]
        at hticket
      rcases hticket with hearlier | hlast
      · exact Nat.lt_succ_of_lt (h.issued ticket hearlier)
      · simp at hlast
        simp [hlast]
    · simp only [List.map_append, ← List.append_assoc]
      refine List.pairwise_append.2 ⟨h.granted, by simp, ?_⟩
      intro earlier hearlier last hlast
      simp at hlast
      exact hlast ▸ h.issued earlier hearlier
  · have hqueue : shared.granted ++ shared.waiting.map Operation.ticket =
        (shared.granted ++ [operation.ticket]) ++ waiting.map Operation.ticket := by
      simp [hwaiting]
    refine ⟨hqueue ▸ h.issued, hqueue ▸ h.granted, ?_⟩
    have hreturned := h.returned
    rw [hholder] at hreturned
    simpa using hreturned.append_right [operation.ticket]
  · refine ⟨h.issued, h.granted, ?_⟩
    have hreturned := h.returned
    rw [hholder] at hreturned
    exact hreturned
  · refine ⟨h.issued, h.granted, ?_⟩
    have hreturned := h.returned
    rw [hholder] at hreturned
    simpa using hreturned
  · have hfewer : (shared.granted ++
        (shared.waiting.eraseIdx position).map Operation.ticket).Sublist
        (shared.granted ++ shared.waiting.map Operation.ticket) :=
      ((List.eraseIdx_sublist ..).map _).append_left _
    exact ⟨fun ticket hticket => h.issued ticket (hfewer.subset hticket),
      h.granted.sublist hfewer, h.returned⟩
  · refine ⟨h.issued, h.granted, ?_⟩
    exact (List.sublist_append_left _ _).trans (by simpa using h.returned)
  · exact h

theorem Timed.step (h : shared.Timed) (move : Move N) : (shared.step move).Timed := by
  rcases shared.step_cases move with ⟨request, hstep⟩ |
    ⟨operation, waiting, hholder, hwaiting, hstep⟩ |
    ⟨operation, exchanges, contact, next, reply, hholder, hstep⟩ |
    ⟨operation, exchanges, value, session, hholder, hstep⟩ |
    ⟨position, hstep⟩ | hstep | hstep
  all_goals rw [hstep]
  · refine ⟨?_, h.holder, h.returned⟩
    intro operation hoperation
    rcases List.mem_append.1 hoperation with hearlier | hlast
    · exact h.waiting operation hearlier
    · obtain rfl := List.mem_singleton.1 hlast
      exact Nat.le_refl _
  · refine ⟨?_, ?_, h.returned⟩
    · exact fun later hlater => h.waiting later (hwaiting ▸ List.mem_cons_of_mem _ hlater)
    · rintro holder ⟨⟩
      exact h.waiting operation (hwaiting ▸ List.mem_cons_self)
  · refine ⟨h.waiting, ?_, h.returned⟩
    rintro holder ⟨⟩
    exact h.holder ⟨operation, exchanges, .ask contact next⟩ hholder
  · refine ⟨?_, nofun, ?_⟩
    · intro later hlater
      rw [List.length_append]
      exact Nat.le_add_right_of_le (h.waiting later hlater)
    intro before returned later hall
    rcases List.eq_nil_or_concat later with rfl | ⟨rest, final, rfl⟩
    · obtain ⟨rfl, hsame⟩ := List.append_inj' hall rfl
      cases hsame
      exact h.holder _ hholder
    · rw [List.concat_eq_append, ← List.cons_append, ← List.append_assoc] at hall
      obtain ⟨hall, -⟩ := List.append_inj' hall rfl
      exact h.returned _ _ _ hall
  · refine ⟨?_, h.holder, h.returned⟩
    exact fun later hlater => h.waiting later ((List.eraseIdx_sublist ..).subset hlater)
  · exact ⟨h.waiting, nofun, h.returned⟩
  · exact h

theorem served_after (setup : Setup) (moves : List (Move N)) :
    (after setup moves).Served setup :=
  after_induction ⟨.nil, nofun⟩ (fun _ move h => h.step move) moves

theorem queued_after (setup : Setup) (moves : List (Move N)) :
    (after setup moves).Queued :=
  after_induction ⟨nofun, .nil, .slnil⟩ (fun _ move h => h.step move) moves

theorem timed_after (setup : Setup) (moves : List (Move N)) :
    (after setup moves).Timed :=
  after_induction ⟨nofun, nofun, by simp⟩ (fun _ move h => h.step move) moves

/-- What an operation changes, it changes by returning: nothing else than the return of a
successful attempt to connect changes the session. -/
theorem session_step (h : shared.Served setup) (move : Move N) :
    (shared.step move).session = shared.session ∨
      ∃ (maker : Returned N) (connection : Connection N),
        (shared.step move).returned = shared.returned ++ [maker] ∧ maker.Succeeded ∧
          maker.Made setup connection ∧
          (shared.step move).session = { toSetup := setup, connection := some connection } := by
  rcases shared.step_cases move with ⟨request, hstep⟩ |
    ⟨operation, waiting, hholder, hwaiting, hstep⟩ |
    ⟨operation, exchanges, contact, next, reply, hholder, hstep⟩ |
    ⟨operation, exchanges, value, session, hholder, hstep⟩ |
    ⟨position, hstep⟩ | hstep | hstep
  all_goals rw [hstep]
  -- Of all cases only the return of an operation can change the session.
  case inr.inr.inr.inl =>
    have hsetup := h.returned.stored.1
    have hserves : Returned.Serves ⟨operation, exchanges, value⟩ shared.session session :=
      h.holder _ hholder
    rcases Returned.adopts_or_keeps hserves with
      ⟨connection, hmade, hsucceeded, rfl⟩ | ⟨-, rfl⟩
    · rw [hsetup] at hmade
      exact .inr ⟨_, connection, rfl, hsucceeded, hmade, by rw [hsetup]⟩
    · exact .inl rfl
  all_goals exact .inl rfl

/-- A session that was connected stays connected. -/
theorem isConnected_step (h : shared.Served setup) (move : Move N)
    (hconnected : shared.session.isConnected) : (shared.step move).session.isConnected := by
  rcases session_step h move with hsame | ⟨maker, connection, -, -, -, hafter⟩
  · rwa [hsame]
  · rw [hafter]
    rfl

/-- A replay that is refused has been answered by the time it holds the lock: it contacts
nobody, also if it is cut off. -/
theorem refused (h : shared.Served setup) {holder : Holder N} {text : String}
    {error : ReplayError} (hholder : holder ∈ shared.holder)
    (hrequest : holder.operation.request = .replay text)
    (hrefused : (shared.session.outcome text).run = .done (.error error)) :
    holder.exchanges = [] ∧
      holder.rest = .done (.replayed (.failed error.message), shared.session) := by
  have hfollows := h.holder holder hholder
  rw [hrequest, Session.serve, Session.replay, hrefused] at hfollows
  exact Dialogue.eq_of_follows_done hfollows

end Shared

/-! ## The order of the lock -/

/-- What holds of a shared session at any time. -/
structure Shared.LockOrdered (setup : Setup) (shared : Shared N) : Prop where
  /-- The lock is given in the order of issue. -/
  granted : shared.granted.Pairwise (· < ·)
  /-- Operations return in the order in which they were given the lock. -/
  returned : (shared.returned.map fun returned => returned.operation.ticket).Sublist shared.granted
  /-- The operations that have returned did so as if each had run alone, in that order. -/
  serial : Serial { toSetup := setup } shared.returned shared.session
  configured : shared.session.toSetup = setup
  stored : Stored setup shared.returned shared.session.connection
  /-- Only the return of an attempt to connect that succeeds changes the session. -/
  session_step (move : Move N) : (shared.step move).session = shared.session ∨
    ∃ (maker : Returned N) (connection : Connection N),
      (shared.step move).returned = shared.returned ++ [maker] ∧ maker.Succeeded ∧
        maker.Made setup connection ∧
        (shared.step move).session = { toSetup := setup, connection := some connection }
  isConnected_step (move : Move N) :
    shared.session.isConnected → (shared.step move).session.isConnected
  /-- A replay is answered from the connection at its turn. That is the connection of an
  attempt that had returned when the replay was issued, or a later one. -/
  replayed {before later : List (Returned N)} {replay : Returned N} {text : String} :
    shared.returned = before ++ replay :: later → replay.operation.request = .replay text →
    ∃ connection response,
      Stored setup before connection ∧ replay.value = .replayed response ∧
        Replayed text connection replay.exchanges response ∧
        ∀ position < replay.operation.returnedBefore, ∀ maker,
          shared.returned[position]? = some maker → maker.Succeeded →
          ∃ made, connection = some made ∧
            Stored setup (before.drop position) (some made)
  /-- A replay of what is no hash ends with its turn. -/
  malformed {holder : Holder N} {text : String} :
    holder ∈ shared.holder → holder.operation.request = .replay text →
    Hash.ofText? text = none →
    holder.exchanges = [] ∧ holder.rest =
      .done (.replayed (.failed (ReplayError.invalidTransactionHash text).message),
        shared.session)
  /-- So does one on a session that was never connected. -/
  notConnected {holder : Holder N} {text : String} {hash : Hash} :
    holder ∈ shared.holder → holder.operation.request = .replay text →
    Hash.ofText? text = some hash → (∀ operation ∈ shared.returned, ¬ operation.Succeeded) →
    holder.exchanges = [] ∧ holder.rest =
      .done (.replayed (.failed ReplayError.notInitialized.message), shared.session)

namespace Shared

variable {shared : Shared N}

theorem replayed_of_served (hserved : shared.Served setup) (htimed : shared.Timed)
    {before later : List (Returned N)} {replay : Returned N} {text : String}
    (hreturned : shared.returned = before ++ replay :: later)
    (hrequest : replay.operation.request = .replay text) :
    ∃ connection response,
      Stored setup before connection ∧ replay.value = .replayed response ∧
        Replayed text connection replay.exchanges response ∧
        ∀ position < replay.operation.returnedBefore, ∀ maker,
          shared.returned[position]? = some maker → maker.Succeeded →
          ∃ made, connection = some made ∧
            Stored setup (before.drop position) (some made) := by
  obtain ⟨middle, after, hbefore, hreplay⟩ := (hreturned ▸ hserved.returned).exists_serves
  obtain ⟨hsetup, hstored⟩ := hbefore.stored
  rw [Returned.Serves, hrequest] at hreplay
  obtain ⟨response, hresponse, hvalue⟩ := Dialogue.exists_follows_done_of_map hreplay
  obtain ⟨hreplayed, -⟩ := Prod.mk.inj hvalue
  refine ⟨middle.connection, response, hstored, hreplayed,
    Session.replayed_of_follows hresponse, ?_⟩
  intro position hposition maker hmaker hsucceeded
  have hle := htimed.returned before replay later hreturned
  rw [hreturned, List.getElem?_append_left (by omega)] at hmaker
  exact hstored.drop_of_succeeded hmaker hsucceeded

/-- Whatever the clones of a handle, the lock and the world do, operations take effect one
at a time in the order of the lock, and those that are cut off have none. -/
theorem lockOrdered_after (setup : Setup) (moves : List (Move N)) :
    (after setup moves).LockOrdered setup := by
  have hserved := served_after setup moves
  have hqueued := queued_after setup moves
  have htimed := timed_after setup moves
  obtain ⟨hconfigured, hstored⟩ := hserved.returned.stored
  constructor
  case granted => exact hqueued.granted.sublist (List.sublist_append_left ..)
  case returned => exact (List.sublist_append_left ..).trans hqueued.returned
  case serial => exact hserved.returned
  case configured => exact hconfigured
  case stored => exact hstored
  case session_step => exact session_step hserved
  case isConnected_step => exact isConnected_step hserved
  case replayed => exact replayed_of_served hserved htimed
  case malformed =>
    intro holder text hholder hrequest hmalformed
    exact refused hserved hholder hrequest (Session.outcome_of_malformed hmalformed)
  case notConnected =>
    intro holder text hash hholder hrequest hwellFormed hnone
    exact refused hserved hholder hrequest
      (Session.outcome_of_notConnected hwellFormed (hstored.eq_none hnone))

end Shared

end ForkReplay
