import Mathlib.Data.List.Induction
import ForkReplay.Command.Run

/-!
# The order of printed heads

A node announces heads while the command that follows them waits, wakes up, reads and prints, and
neither waits for the other: any number of heads may be published between two wake-ups, and between
a wake-up and its read. Still every head is printed at most once and in the order of publication.
What keeps it so are two counts, of the heads that were published and of those that were seen: a
printed head is older than everything that has not been seen yet.

What happens is a list of moves, in any order, and a move that makes no sense at its time does
nothing.
-/

namespace ForkReplay

/-- A head that was printed. -/
structure PrintedHead where
  /-- How many heads were published when it was read. -/
  position : Nat
  info : BlockInfo

/-- A feed and the command that follows it. -/
structure HeadWatch where
  feed : HeadFeed := {}
  follower : HeadFollower
  /-- Whether the command has woken up and is about to read. -/
  isAwake : Bool := false
  wasInterrupted : Bool := false
  /-- The heads that were printed, the first one first. -/
  printed : List PrintedHead := []

namespace HeadWatch

/-- Something that the node, the command or its user does. -/
inductive Move where
  /-- The node announces something, most often a head. -/
  | announce (announcement : Json)
  /-- The command wakes up, since more was published than it has seen. All of it counts as seen
  from then on. -/
  | wake
  /-- The command reads the newest head, which it has then seen, and prints it. -/
  | read
  /-- The user interrupts the command while it waits. -/
  | interrupt

/-- The head that a move publishes. -/
def Move.head? : Move → Option BlockInfo
  | .announce announcement =>
      (Node.headerOfJson? announcement).map fun (_, header) => .ofHeader header
  | _ => none

/-- The heads that are published by the given moves, in order. -/
def heads (moves : List Move) : List BlockInfo := moves.filterMap Move.head?

/-- Whether the command waits for a head. -/
def isWaiting (watch : HeadWatch) : Bool :=
  !watch.isAwake && !watch.wasInterrupted && !watch.follower.isDone

/-- Wakes up a command that waits, if there is something that it has not seen. -/
def wake (watch : HeadWatch) : HeadWatch :=
  if watch.isWaiting ∧ watch.feed.published ≠ watch.follower.seen then
    { watch with
      isAwake := true
      follower := { watch.follower with seen := watch.feed.published } }
  else watch

/-- Lets a command that is awake read and print. -/
def read (watch : HeadWatch) : HeadWatch :=
  if watch.isAwake then
    { watch with
      isAwake := false
      follower := { seen := watch.feed.published, left := watch.follower.left.map (· - 1) }
      printed := watch.printed ++ [⟨watch.feed.published, watch.feed.newest⟩] }
  else watch

/-- Interrupts a command that waits. -/
def interrupt (watch : HeadWatch) : HeadWatch :=
  if watch.isWaiting then { watch with wasInterrupted := true } else watch

def step (watch : HeadWatch) : Move → HeadWatch
  | .announce announcement => { watch with feed := watch.feed.receive announcement }
  | .wake => watch.wake
  | .read => watch.read
  | .interrupt => watch.interrupt

/-- What becomes of the command with the given count by the given moves. -/
def after (count : Option Nat) (moves : List Move) : HeadWatch :=
  moves.foldl step { follower := Command.headFollower count }

variable {watch : HeadWatch} {count : Option Nat} {news : List BlockInfo}

/-! ## One move -/

/-- What holds between two moves, given the heads that were published. -/
structure InOrder (count : Option Nat) (news : List BlockInfo) (watch : HeadWatch) :
    Prop where
  published : watch.feed.published = news.length
  newest : watch.feed.newest = news.getLast?.getD {}
  seen_le : watch.follower.seen ≤ news.length
  /-- What was printed was seen, -/
  printed_le : ∀ print ∈ watch.printed, print.position ≤ watch.follower.seen
  /-- and who wakes up has seen something newer. -/
  awake : watch.isAwake → 0 < watch.follower.seen ∧
    ∀ print ∈ watch.printed, print.position < watch.follower.seen
  sorted : (watch.printed.map PrintedHead.position).Pairwise (· < ·)
  printed : ∀ print ∈ watch.printed,
    0 < print.position ∧ news[print.position - 1]? = some print.info
  left : watch.follower.left = count.map (· - watch.printed.length)
  within : ∀ limit, count = some limit →
    watch.printed.length ≤ limit ∧ (watch.isAwake → watch.printed.length < limit)

theorem receive_eq (feed : HeadFeed) (announcement : Json) :
    feed.receive announcement =
      match (Move.announce announcement).head? with
      | some info => feed.publish info
      | none => feed := by
  unfold HeadFeed.receive Move.head?
  dsimp only
  cases Node.headerOfJson? announcement with
  | none => rfl
  | some entry => rfl

theorem isDone_iff (h : InOrder count news watch) :
    watch.follower.isDone ↔ count = some watch.printed.length := by
  rw [HeadFollower.isDone, h.left, decide_eq_true_iff]
  cases count with
  | none => simp
  | some limit =>
      have hwithin := (h.within limit rfl).1
      simp only [Option.map_some, Option.some.injEq]
      omega

/-- What was printed stays where it was published. -/
theorem InOrder.announce (h : InOrder count news watch) (announcement : Json) :
    InOrder count (news ++ (Move.announce announcement).head?.toList)
      (watch.step (.announce announcement)) := by
  rw [step, receive_eq]
  cases (Move.announce announcement).head? with
  | none =>
      rw [Option.toList_none, List.append_nil]
      exact h
  | some info =>
      exact {
        published := by
          rw [Option.toList_some, List.length_append]
          exact congrArg (· + 1) h.published
        newest := by
          rw [Option.toList_some, List.getLast?_concat]
          rfl
        seen_le := by
          rw [List.length_append]
          exact Nat.le_add_right_of_le h.seen_le
        printed_le := h.printed_le
        awake := h.awake
        sorted := h.sorted
        printed := by
          intro print hprint
          obtain ⟨hpositive, hinfo⟩ := h.printed print hprint
          refine ⟨hpositive, ?_⟩
          obtain ⟨hposition, -⟩ := List.getElem?_eq_some_iff.mp hinfo
          rw [List.getElem?_append_left hposition]
          exact hinfo
        left := h.left
        within := h.within }

theorem InOrder.wake (h : InOrder count news watch) :
    InOrder count news watch.wake := by
  unfold HeadWatch.wake
  split
  next hwake =>
    obtain ⟨hwaiting, hunseen⟩ := hwake
    have hmore : watch.follower.seen < watch.feed.published := by
      have hseen := h.seen_le
      rw [← h.published] at hseen
      omega
    have hdone : ¬ watch.follower.isDone := by
      intro hdone
      simp [isWaiting, hdone] at hwaiting
    exact {
      published := h.published
      newest := h.newest
      seen_le := Nat.le_of_eq h.published
      printed_le := fun print hprint =>
        Nat.le_trans (h.printed_le print hprint) (Nat.le_of_lt hmore)
      awake := fun _ => ⟨Nat.zero_lt_of_lt hmore, fun print hprint =>
        Nat.lt_of_le_of_lt (h.printed_le print hprint) hmore⟩
      sorted := h.sorted
      printed := h.printed
      left := h.left
      within := fun limit hlimit => ⟨(h.within limit hlimit).1, fun _ =>
        Nat.lt_of_le_of_ne (h.within limit hlimit).1 fun heq =>
          hdone ((isDone_iff h).mpr (hlimit.trans (congrArg some heq.symm)))⟩ }
  next => exact h

/-- Who reads has seen something newer than all that was printed, and reads what is newer still. -/
theorem InOrder.read (h : InOrder count news watch) :
    InOrder count news watch.read := by
  unfold HeadWatch.read
  split
  next hawake =>
    obtain ⟨hpositive, hnewer⟩ := h.awake hawake
    have hseen := h.seen_le
    have hlast : news[news.length - 1]? = some watch.feed.newest := by
      have hsome : news ≠ [] := List.ne_nil_of_length_pos (by omega)
      rw [← List.getLast?_eq_getElem?, h.newest, List.getLast?_eq_some_getLast hsome]
      rfl
    exact {
      published := h.published
      newest := h.newest
      seen_le := Nat.le_of_eq h.published
      printed_le := by
        intro print hprint
        dsimp only
        rw [h.published]
        rcases List.mem_append.mp hprint with hearlier | hlatest
        · exact Nat.le_trans (h.printed_le print hearlier) hseen
        · rw [List.mem_singleton.mp hlatest]
          exact Nat.le_of_eq h.published
      awake := nofun
      sorted := by
        rw [List.map_append, List.pairwise_append]
        refine ⟨h.sorted, List.pairwise_singleton _ _, ?_⟩
        intro position hposition latest hlatest
        obtain ⟨print, hprint, rfl⟩ := List.mem_map.mp hposition
        rw [List.mem_singleton.mp hlatest]
        dsimp only
        rw [h.published]
        exact Nat.lt_of_lt_of_le (hnewer print hprint) hseen
      printed := by
        intro print hprint
        rcases List.mem_append.mp hprint with hearlier | hlatest
        · exact h.printed print hearlier
        · rw [List.mem_singleton.mp hlatest]
          dsimp only
          rw [h.published]
          exact ⟨by omega, hlast⟩
      left := by
        dsimp only
        rw [h.left, List.length_append]
        cases count with
        | none => rfl
        | some limit => exact congrArg some (Nat.sub_sub ..)
      within := by
        intro limit hlimit
        have hless := (h.within limit hlimit).2 hawake
        rw [List.length_append]
        exact ⟨hless, nofun⟩ }
  next => exact h

theorem InOrder.interrupt (h : InOrder count news watch) :
    InOrder count news watch.interrupt := by
  unfold HeadWatch.interrupt
  split
  next => exact { h with }
  next => exact h

theorem InOrder.step (h : InOrder count news watch) (move : Move) :
    InOrder count (news ++ move.head?.toList) (watch.step move) := by
  cases move with
  | announce announcement => exact h.announce announcement
  | wake => exact (List.append_nil news).symm ▸ h.wake
  | read => exact (List.append_nil news).symm ▸ h.read
  | interrupt => exact (List.append_nil news).symm ▸ h.interrupt

/-! ## All moves -/

end HeadWatch

end ForkReplay
