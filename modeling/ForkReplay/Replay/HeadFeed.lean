import ForkReplay.Node.Block

/-!
# Following the head of a chain

A feed holds the newest head and counts how many were published. A follower remembers
how many there were when it last looked, and prints the newest head whenever more were
published since. It may miss heads, but prints none twice.
-/

namespace ForkReplay

/-- The newest head of a chain. -/
structure HeadFeed where
  newest : BlockInfo := {}
  /-- How many heads were published. -/
  published : Nat := 0
deriving DecidableEq

namespace HeadFeed

def publish (feed : HeadFeed) (info : BlockInfo) : HeadFeed where
  newest := info
  published := feed.published + 1

/-- Publishes what a node announces, unless it is not a header. -/
def receive (feed : HeadFeed) (announcement : Json) : HeadFeed :=
  match Node.headerOfJson? announcement with
  | some (_, header) => feed.publish (.ofHeader header)
  | none => feed

end HeadFeed

/-- What prints the heads of a feed. -/
structure HeadFollower where
  /-- How many heads were published when the follower last looked. -/
  seen : Nat := 0
  /-- How many heads are still to be printed; none if there is no end. -/
  left : Option Nat := none
deriving DecidableEq

namespace HeadFollower

/-- Whether everything that was to be printed is printed. -/
def isDone (follower : HeadFollower) : Bool := follower.left = some 0

/-- Looks at a feed and returns the head to print, if there is a new one. -/
def look (follower : HeadFollower) (feed : HeadFeed) : Option BlockInfo × HeadFollower :=
  if follower.isDone ∨ feed.published = follower.seen then (none, follower)
  else (some feed.newest, { seen := feed.published, left := follower.left.map (· - 1) })

end HeadFollower

/-- The line that is printed for a head. -/
def BlockInfo.line (info : BlockInfo) : String :=
  s!"block {info.number} timestamp {info.timestamp}"

end ForkReplay
