import Mathlib.Algebra.GroupWithZero.Nat
import Mathlib.Logic.Function.Iterate
import ForkReplay.Chain.Block

/-!
# The series behind the price of blob gas

An exponential is approximated in integers by a loop over three numbers, which rests once
nothing is left to add. The terms of the price are what the loop adds up, so the loop ends,
and with exact arithmetic the price is what it comes to. A greater excess makes every term
greater, and a greater update fraction makes every term but the first smaller.
-/

namespace ForkReplay

namespace BlobPrice

/-! ## The loop -/

/-- The numbers of the loop. -/
structure Round where
  index : Nat := 1
  output : Nat := 0
  accumulated : Nat
deriving DecidableEq

/-- One round of the loop. -/
def Round.next (numerator denominator : Nat) (round : Round) : Round :=
  if round.accumulated = 0 then round
  else
    { index := round.index + 1
      output := round.output + round.accumulated
      accumulated := round.accumulated * numerator / (denominator * round.index) }

/-- The numbers of the loop after so many rounds. -/
def rounds (factor numerator denominator count : Nat) : Round :=
  (Round.next numerator denominator)^[count] { accumulated := factor * denominator }

/-- The loop for `factor * exp (numerator / denominator)` ends, and comes to this value. -/
def FakeExponential (factor numerator denominator value : Nat) : Prop :=
  ∃ count, (rounds factor numerator denominator count).accumulated = 0 ∧
    value = (rounds factor numerator denominator count).output / denominator

/-! ## The terms -/

variable {registers : Registers} {excess greater fraction smaller : Nat}
  {positive : 0 < fraction} {positive' : 0 < smaller} {index term : Nat}

theorem terms_zero (index : Nat) : terms registers excess fraction positive index 0 = [] := by
  rw [terms, dif_pos rfl]

theorem terms_of_ne_zero (h : term ≠ 0) :
    terms registers excess fraction positive index term =
      term :: terms registers excess fraction positive (index + 1)
        (registers.keep (term * excess) / (fraction * (index + 1))) := by
  rw [terms, dif_neg h]

theorem ne_zero_of_mem_terms {member : Nat}
    (h : member ∈ terms registers excess fraction positive index term) : member ≠ 0 := by
  fun_induction terms registers excess fraction positive index term with
  | case1 => cases h
  | case2 index term hterm ih =>
      rcases List.mem_cons.mp h with rfl | hlater
      · exact hterm
      · exact ih hlater

theorem getD_terms_zero :
    (terms registers excess fraction positive index term)[0]?.getD 0 = term := by
  by_cases h : term = 0
  · subst h
    rw [terms_zero]
    rfl
  · rw [terms_of_ne_zero h]
    rfl

/-- The series is over where it has no term left. -/
theorem length_le_of_getD_eq_zero {count : Nat}
    (h : (terms registers excess fraction positive index term)[count]?.getD 0 = 0) :
    (terms registers excess fraction positive index term).length ≤ count := by
  by_contra hlt
  rw [List.getElem?_eq_getElem (Nat.lt_of_not_le hlt), Option.getD_some] at h
  exact ne_zero_of_mem_terms (List.getElem_mem _) h

/-- The loop adds up the terms of the series one by one. -/
theorem iterate_next (excess : Nat) (positive : 0 < fraction) (count index output term : Nat) :
    let series := terms .unbounded excess fraction positive index term
    (Round.next excess fraction)^[count] ⟨index + 1, output, term⟩ =
      ⟨index + 1 + min count series.length, output + (series.take count).sum,
        series[count]?.getD 0⟩ := by
  -- Later rounds start from other numbers, so all of them are general.
  induction count generalizing index output term with
  | zero => simp [getD_terms_zero]
  | succ count ih =>
      by_cases hterm : term = 0
      · subst hterm
        have hrest : Round.next excess fraction ⟨index + 1, output, 0⟩ =
            ⟨index + 1, output, 0⟩ := if_pos rfl
        rw [Function.iterate_succ_apply, hrest, ih]
        simp [terms_zero]
      · have hnext : Round.next excess fraction ⟨index + 1, output, term⟩ =
            ⟨index + 1 + 1, output + term, term * excess / (fraction * (index + 1))⟩ :=
          if_neg hterm
        rw [Function.iterate_succ_apply, hnext, ih, terms_of_ne_zero hterm]
        simp only [List.length_cons, List.take_succ_cons, List.sum_cons, List.getElem?_cons_succ,
          Round.mk.injEq]
        refine ⟨?_, Nat.add_assoc .., rfl⟩
        rw [Nat.add_min_add_right]
        exact Nat.add_right_comm ..

theorem rounds_eq (excess : Nat) (positive : 0 < fraction) (count : Nat) :
    let series := terms .unbounded excess fraction positive 0 fraction
    rounds 1 excess fraction count =
      ⟨1 + min count series.length, (series.take count).sum, series[count]?.getD 0⟩ := by
  have h := iterate_next excess positive count 0 0 fraction
  simp only [Nat.zero_add] at h
  rw [rounds, Nat.one_mul]
  exact h

/-! ## The price -/

theorem price_unbounded (excess : Nat) (positive : 0 < fraction) :
    price .unbounded excess fraction positive =
      (terms .unbounded excess fraction positive 0 fraction).sum / fraction :=
  congrArg (· / fraction) List.sum_eq_foldl_nat.symm

/-- The loop ends, and with the price. -/
theorem fakeExponential_iff (excess : Nat) (positive : 0 < fraction) {value : Nat} :
    FakeExponential 1 excess fraction value ↔ value = price .unbounded excess fraction positive := by
  rw [price_unbounded]
  constructor
  · rintro ⟨count, hends, rfl⟩
    rw [rounds_eq excess positive] at hends ⊢
    rw [List.take_of_length_le (length_le_of_getD_eq_zero hends)]
  · rintro rfl
    refine ⟨(terms .unbounded excess fraction positive 0 fraction).length, ?_⟩
    rw [rounds_eq excess positive]
    simp

/-- The first term makes a price of one. -/
theorem price_unbounded_eq_succ (excess : Nat) (positive : 0 < fraction) :
    price .unbounded excess fraction positive =
      (terms .unbounded excess fraction positive 1 excess).sum / fraction + 1 := by
  have hsecond : fraction * excess / (fraction * (0 + 1)) = excess := by
    rw [Nat.zero_add, Nat.mul_one, Nat.mul_div_cancel_left excess positive]
  rw [price_unbounded, terms_of_ne_zero (Nat.pos_iff_ne_zero.mp positive), List.sum_cons,
    Nat.add_div_left _ positive]
  change (terms _ _ _ _ (0 + 1) (fraction * excess / _)).sum / fraction + 1 = _
  rw [hsecond]

/-! ## Greater and smaller series -/

/-- A list of numbers that is nowhere above another one has a smaller sum. -/
theorem sum_le_sum_of_getD_le {numbers others : List Nat}
    (h : ∀ count : Nat, numbers[count]?.getD 0 ≤ others[count]?.getD 0) :
    numbers.sum ≤ others.sum := by
  induction numbers generalizing others with
  | nil => exact Nat.zero_le _
  | cons number numbers ih =>
      cases others with
      | nil =>
          have hrest := @ih [] fun count => h (count + 1)
          have hfirst : number ≤ 0 := h 0
          rw [List.sum_cons, Nat.le_zero.mp hfirst]
          exact Nat.le_trans (Nat.le_of_eq (Nat.zero_add _)) hrest
      | cons other others =>
          rw [List.sum_cons, List.sum_cons]
          exact Nat.add_le_add (h 0) (ih fun count => h (count + 1))

/-- Each term grows with the excess and shrinks with the update fraction. -/
theorem getD_terms_le (hexcess : excess ≤ greater) (hfraction : smaller ≤ fraction)
    {more : Nat} (hterm : term ≤ more) (count : Nat) :
    (terms .unbounded excess fraction positive index term)[count]?.getD 0 ≤
      (terms .unbounded greater smaller positive' index more)[count]?.getD 0 := by
  induction count generalizing index term more with
  | zero =>
      rw [getD_terms_zero, getD_terms_zero]
      exact hterm
  | succ count ih =>
      by_cases hzero : term = 0
      · subst hzero
        rw [terms_zero]
        exact Nat.zero_le _
      · have hmore : more ≠ 0 := fun h => hzero (Nat.le_zero.mp (h ▸ hterm))
        rw [terms_of_ne_zero hzero, terms_of_ne_zero hmore, List.getElem?_cons_succ,
          List.getElem?_cons_succ]
        refine ih (Nat.div_le_div (Nat.mul_le_mul hterm hexcess) ?_ ?_)
        · exact Nat.mul_le_mul_right _ hfraction
        · exact Nat.mul_ne_zero (by omega) (by omega)

/-- The price grows with the excess and shrinks with the update fraction. -/
theorem price_unbounded_le (hexcess : excess ≤ greater) (hfraction : smaller ≤ fraction)
    (positive : 0 < fraction) (positive' : 0 < smaller) :
    price .unbounded excess fraction positive ≤ price .unbounded greater smaller positive' := by
  -- The first terms are the fractions themselves, which the quotients take away.
  rw [price_unbounded_eq_succ, price_unbounded_eq_succ]
  refine Nat.succ_le_succ (Nat.div_le_div ?_ hfraction (by omega))
  exact sum_le_sum_of_getD_le fun count => getD_terms_le hexcess hfraction hexcess count

theorem price_unbounded_zero (positive : 0 < fraction) :
    price .unbounded 0 fraction positive = 1 := by
  rw [price_unbounded_eq_succ, terms_zero]
  exact congrArg (· + 1) (Nat.zero_div fraction)

end BlobPrice

/-- The update fraction under the given rules. -/
def HardFork.updateFraction (fork : HardFork) : Nat :=
  if fork.has .prague then 5007716 else 3338477

theorem HardFork.updateFraction_pos (fork : HardFork) : 0 < fork.updateFraction := by
  unfold updateFraction
  split
  next => decide
  next => decide

theorem BlobGas.price_under (fork : HardFork) (excess : UInt64)
    (registers : BlobPrice.Registers) :
    (BlobGas.under fork excess registers).price =
      BlobPrice.price registers excess.toNat fork.updateFraction fork.updateFraction_pos := by
  cases hprague : fork.has .prague with
  | true => simp only [under, HardFork.updateFraction, hprague, BlobPrice.pragueFraction, if_true]
  | false =>
      simp only [under, HardFork.updateFraction, hprague, BlobPrice.cancunFraction,
        Bool.false_eq_true, if_false]

end ForkReplay
