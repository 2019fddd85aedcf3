/-!
# The price of blob gas

The price grows exponentially with the excess blob gas of a block. It is the
integer part of a truncated power series: each term follows from the one before
by a product and a rounded-down quotient, until a term is zero.

The products and the sum are kept in registers. Registers of a fixed width lose what
does not fit, and a price that comes of such a loss has nothing to do with the series.
-/

namespace ForkReplay.BlobPrice

/-- What keeps the numbers of a computation. Nothing grows by being kept. -/
structure Registers where
  keep : Nat → Nat
  keep_le : ∀ value, keep value ≤ value

namespace Registers

/-- Registers that keep every number as it is. -/
def unbounded : Registers where
  keep value := value
  keep_le := Nat.le_refl

/-- Registers of so many bits, which keep the lowest ones. -/
def ofWidth (bits : Nat) : Registers where
  keep value := value % (1 <<< bits)
  keep_le value := Nat.mod_le value _

end Registers

/-- The terms of the series for `exp (excess / fraction)`, scaled by `fraction`,
from the one with index `index` on. The divisors are small and need no register. -/
def terms (registers : Registers) (excess fraction : Nat) (positive : 0 < fraction)
    (index term : Nat) : List Nat :=
  if h : term = 0 then []
  else
    term :: terms registers excess fraction positive (index + 1)
      (registers.keep (term * excess) / (fraction * (index + 1)))
  termination_by (excess + 1 - fraction * (index + 1), term)
  decreasing_by
    by_cases hle : fraction * (index + 1) ≤ excess
    · apply Prod.Lex.left
      have : fraction * (index + 1 + 1) = fraction * (index + 1) + fraction := Nat.mul_succ _ _
      omega
    · have hstep : fraction * (index + 1 + 1) = fraction * (index + 1) + fraction :=
        Nat.mul_succ _ _
      have hzero : excess + 1 - fraction * (index + 1 + 1) = 0 := by omega
      have hzero' : excess + 1 - fraction * (index + 1) = 0 := by omega
      rw [hzero, hzero']
      apply Prod.Lex.right
      apply Nat.lt_of_le_of_lt (Nat.div_le_div_right (registers.keep_le _))
      apply (Nat.div_lt_iff_lt_mul (by omega)).mpr
      exact Nat.mul_lt_mul_of_pos_left (by omega) (Nat.pos_of_ne_zero h)

/-- The price of a unit of blob gas for the given excess and update fraction. -/
def price (registers : Registers) (excess fraction : Nat) (positive : 0 < fraction) : Nat :=
  let series := terms registers excess fraction positive 0 fraction
  series.foldl (fun sum term => registers.keep (sum + term)) 0 / fraction

/-- The update fraction before Prague. -/
def cancunFraction : Nat := 3338477

/-- The update fraction from Prague on. -/
def pragueFraction : Nat := 5007716

end ForkReplay.BlobPrice
