import Mathlib.Data.List.TakeWhile
import ForkReplay.Chain.Address

/-!
# The part of a block before a transaction

A block may list a hash more than once or not at all. What comes before a transaction
is what comes before its first occurrence, and the whole block if there is none.
-/

namespace ForkReplay

variable {α : Type} {hashOf : α → Hash} {target : Hash} {all earlier : List α}

/-- `earlier` is the part of a list before the first entry with the given hash. -/
def BeforeFirst (hashOf : α → Hash) (target : Hash) (all earlier : List α) : Prop :=
  (∀ entry ∈ earlier, hashOf entry ≠ target) ∧
    (all = earlier ∨ ∃ hit rest, hashOf hit = target ∧ all = earlier ++ hit :: rest)

theorem beforeFirst_takeWhile (hashOf : α → Hash) (target : Hash) (all : List α) :
    BeforeFirst hashOf target all (all.takeWhile fun entry => hashOf entry ≠ target) := by
  induction all with
  | nil => exact ⟨by simp, .inl rfl⟩
  | cons entry rest ih =>
      by_cases hhash : hashOf entry = target
      · rw [List.takeWhile_cons_of_neg (by simpa using hhash)]
        exact ⟨by simp, .inr ⟨entry, rest, hhash, rfl⟩⟩
      · rw [List.takeWhile_cons_of_pos (by simpa using hhash)]
        obtain ⟨hother, hall⟩ := ih
        refine ⟨List.forall_mem_cons.mpr ⟨hhash, hother⟩, ?_⟩
        rcases hall with hall | ⟨hit, later, hhit, hall⟩
        · exact .inl (congrArg (List.cons entry) hall)
        · exact .inr ⟨hit, later, hhit, congrArg (List.cons entry) hall⟩

/-- There is only one such part. -/
theorem BeforeFirst.takeWhile_eq (h : BeforeFirst hashOf target all earlier) :
    (all.takeWhile fun entry => hashOf entry ≠ target) = earlier := by
  obtain ⟨hother, rfl | ⟨hit, rest, hhit, rfl⟩⟩ := h
  · exact List.takeWhile_eq_self_iff.mpr (by simpa using hother)
  · rw [List.takeWhile_append_of_pos (by simpa using hother),
      List.takeWhile_cons_of_neg (by simpa using hhit), List.append_nil]

/-- In a list without repeated hashes, what comes before an entry is what stands
before it. -/
theorem beforeFirst_of_nodup {entry : α} {rest : List α}
    (hdistinct : ((earlier ++ entry :: rest).map hashOf).Nodup) :
    BeforeFirst hashOf (hashOf entry) (earlier ++ entry :: rest) earlier := by
  refine ⟨?_, .inr ⟨entry, rest, rfl, rfl⟩⟩
  intro other hother hsame
  rw [List.map_append, List.nodup_append] at hdistinct
  exact hdistinct.2.2 _ (List.mem_map_of_mem hother) _ (by simp) hsame

end ForkReplay
