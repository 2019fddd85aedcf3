/-!
# Dialogues

A computation that asks questions on its way. A dialogue is plain data: either a
value, or a question with what follows each possible answer. It can be run
against answers of any kind, be cut off between two questions, and have its
questions interpreted by asking others.
-/

namespace ForkReplay

/-- A computation of an `α` that may ask questions `q : Q` answered by `A q`. -/
inductive Dialogue (Q : Type) (A : Q → Type) (α : Type) where
  | done (value : α)
  | ask (question : Q) (next : A question → Dialogue Q A α)

namespace Dialogue

variable {Q : Type} {A : Q → Type} {α β γ : Type}

/-- Goes on with `f` at the value of a dialogue. -/
def bind : Dialogue Q A α → (α → Dialogue Q A β) → Dialogue Q A β
  | .done value, f => f value
  | .ask question next, f => .ask question fun answer => (next answer).bind f

instance : Monad (Dialogue Q A) where
  pure := .done
  bind := Dialogue.bind

/-- Asks one question and returns its answer. -/
def question (q : Q) : Dialogue Q A (A q) := .ask q .done

@[simp]
theorem done_bind (value : α) (f : α → Dialogue Q A β) :
    (Dialogue.done value : Dialogue Q A α).bind f = f value := rfl

@[simp]
theorem ask_bind (q : Q) (next : A q → Dialogue Q A α) (f : α → Dialogue Q A β) :
    (Dialogue.ask q next).bind f = .ask q fun answer => (next answer).bind f := rfl

theorem bind_done (d : Dialogue Q A α) : d.bind .done = d := by
  induction d with
  | done value => rfl
  | ask q next ih => simp only [ask_bind, ih]

theorem bind_assoc (d : Dialogue Q A α) (f : α → Dialogue Q A β) (g : β → Dialogue Q A γ) :
    (d.bind f).bind g = d.bind fun value => (f value).bind g := by
  induction d with
  | done value => rfl
  | ask q next ih => simp only [ask_bind, ih]

instance : LawfulMonad (Dialogue Q A) :=
  LawfulMonad.mk' _ bind_done (fun _ _ => rfl) bind_assoc

/-- The value that a dialogue comes to when each question has one answer. -/
def run (answer : (q : Q) → A q) : Dialogue Q A α → α
  | .done value => value
  | .ask question next => (next (answer question)).run answer

/-- The questions that a dialogue asks on that way, in order. -/
def questions (answer : (q : Q) → A q) : Dialogue Q A α → List Q
  | .done _ => []
  | .ask question next => question :: (next (answer question)).questions answer

theorem run_bind (answer : (q : Q) → A q) (d : Dialogue Q A α) (f : α → Dialogue Q A β) :
    (d.bind f).run answer = (f (d.run answer)).run answer := by
  induction d with
  | done value => rfl
  | ask q next ih => simp only [ask_bind, run, ih]

/-- Runs a dialogue against a partner whose answers may depend on what it was asked
before. -/
def runWith {σ : Type} (answer : σ → (q : Q) → A q × σ) : σ → Dialogue Q A α → α × σ
  | state, .done value => (value, state)
  | state, .ask question next =>
      let reply := answer state question
      (next reply.1).runWith answer reply.2

theorem runWith_bind {σ : Type} (answer : σ → (q : Q) → A q × σ) (state : σ)
    (d : Dialogue Q A α) (f : α → Dialogue Q A β) :
    (d.bind f).runWith answer state =
      (f (d.runWith answer state).1).runWith answer (d.runWith answer state).2 := by
  induction d generalizing state with
  | done value => rfl
  | ask q next ih =>
      simp only [ask_bind, runWith]
      exact ih _ _

/-- Against a partner whose answers do not depend on that, the dialogue runs as usual. -/
theorem fst_runWith {σ : Type} (answer : σ → (q : Q) → A q × σ) (fixed : (q : Q) → A q)
    (h : ∀ state q, (answer state q).1 = fixed q) (state : σ) (d : Dialogue Q A α) :
    (d.runWith answer state).1 = d.run fixed := by
  induction d generalizing state with
  | done value => rfl
  | ask q next ih =>
      simp only [runWith, run, h]
      exact ih _ _

/-- The questions that a dialogue asks such a partner, with the answers, in order. -/
def exchanges {σ : Type} (answer : σ → (q : Q) → A q × σ) :
    σ → Dialogue Q A α → List ((q : Q) × A q)
  | _, .done _ => []
  | state, .ask question next =>
      let reply := answer state question
      ⟨question, reply.1⟩ :: (next reply.1).exchanges answer reply.2

theorem exchanges_bind {σ : Type} (answer : σ → (q : Q) → A q × σ) (state : σ)
    (d : Dialogue Q A α) (f : α → Dialogue Q A β) :
    (d.bind f).exchanges answer state =
      d.exchanges answer state ++
        (f (d.runWith answer state).1).exchanges answer (d.runWith answer state).2 := by
  induction d generalizing state with
  | done value => rfl
  | ask q next ih =>
      simp only [ask_bind, exchanges, runWith, List.cons_append]
      exact congrArg _ (ih _ _)

/-- Replaces each question by a dialogue that finds its answer. -/
def interpret {Q' : Type} {A' : Q' → Type} (meaning : (q : Q) → Dialogue Q' A' (A q)) :
    Dialogue Q A α → Dialogue Q' A' α
  | .done value => .done value
  | .ask question next =>
      (meaning question).bind fun answer => (next answer).interpret meaning

theorem interpret_bind {Q' : Type} {A' : Q' → Type} (meaning : (q : Q) → Dialogue Q' A' (A q))
    (d : Dialogue Q A α) (f : α → Dialogue Q A β) :
    (d.bind f).interpret meaning =
      (d.interpret meaning).bind fun value => (f value).interpret meaning := by
  induction d with
  | done value => rfl
  | ask q next ih => simp only [ask_bind, interpret, bind_assoc, ih]

theorem run_interpret {Q' : Type} {A' : Q' → Type} (answer : (q : Q') → A' q)
    (meaning : (q : Q) → Dialogue Q' A' (A q)) (d : Dialogue Q A α) :
    (d.interpret meaning).run answer = d.run fun q => (meaning q).run answer := by
  induction d with
  | done value => rfl
  | ask q next ih => simp only [interpret, run, run_bind, ih]

end Dialogue

end ForkReplay
