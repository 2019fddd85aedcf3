import ForkReplay.Proofs.BlobSeries

/-!
# The width of blob prices

A price is computed in registers of 128 bits. They keep all numbers of the computation up to a
certain excess of blob gas, which depends on the update fraction; up to there the price is
exact. From the next excess on some product does not fit, and the price that comes of what is
left of it is another one.
-/

namespace ForkReplay

namespace BlobPrice

/-- All numbers of the loop are below `2 ^ bits`: its products, its divisors and its sum. -/
def Fits (bits numerator denominator : Nat) : Prop :=
  ∀ count, (rounds 1 numerator denominator count).accumulated * numerator < 2 ^ bits ∧
    denominator * (rounds 1 numerator denominator count).index < 2 ^ bits ∧
    (rounds 1 numerator denominator count).output < 2 ^ bits

variable {bits excess greater fraction : Nat} {positive : 0 < fraction} {index term : Nat}

theorem sum_take_le_sum (numbers : List Nat) (count : Nat) :
    (numbers.take count).sum ≤ numbers.sum := by
  have hparts := congrArg List.sum (List.take_append_drop count numbers)
  rw [List.sum_append] at hparts
  omega

/-- What fits is told by the terms of the series. -/
theorem fits_iff (positive : 0 < fraction) :
    Fits bits excess fraction ↔
      let series := terms .unbounded excess fraction positive 0 fraction
      (∀ member ∈ series, member * excess < 2 ^ bits) ∧
        fraction * (1 + series.length) < 2 ^ bits ∧ series.sum < 2 ^ bits := by
  unfold Fits
  simp only [rounds_eq excess positive]
  constructor
  · intro h
    refine ⟨fun member hmember => ?_, ?_, ?_⟩
    · obtain ⟨position, hposition⟩ := List.mem_iff_getElem?.mp hmember
      have hproduct := (h position).1
      rw [hposition] at hproduct
      exact hproduct
    · have hdivisor := (h (terms .unbounded excess fraction positive 0 fraction).length).2.1
      rw [Nat.min_self] at hdivisor
      exact hdivisor
    · have hsum := (h (terms .unbounded excess fraction positive 0 fraction).length).2.2
      rw [List.take_length] at hsum
      exact hsum
  · rintro ⟨hproducts, hdivisor, hsum⟩ count
    refine ⟨?_, ?_, Nat.lt_of_le_of_lt (sum_take_le_sum _ _) hsum⟩
    · cases hmember : (terms .unbounded excess fraction positive 0 fraction)[count]? with
      | none => exact Nat.lt_of_le_of_lt (Nat.le_of_eq (Nat.zero_mul _)) (Nat.two_pow_pos bits)
      | some member => exact hproducts member (List.mem_of_getElem? hmember)
    · refine Nat.lt_of_le_of_lt (Nat.mul_le_mul_left _ ?_) hdivisor
      exact Nat.add_le_add_left (Nat.min_le_right _ _) 1

/-- With a smaller excess no number of the loop is greater. -/
theorem rounds_le (hexcess : excess ≤ greater) (positive : 0 < fraction) (count : Nat) :
    (rounds 1 excess fraction count).accumulated ≤ (rounds 1 greater fraction count).accumulated ∧
      (rounds 1 excess fraction count).index ≤ (rounds 1 greater fraction count).index ∧
      (rounds 1 excess fraction count).output ≤ (rounds 1 greater fraction count).output := by
  have hterms (position : Nat) :=
    @getD_terms_le excess greater fraction fraction positive positive 0 fraction hexcess
      (Nat.le_refl _) fraction (Nat.le_refl _) position
  have hlength : (terms .unbounded excess fraction positive 0 fraction).length ≤
      (terms .unbounded greater fraction positive 0 fraction).length := by
    refine length_le_of_getD_eq_zero (Nat.le_zero.mp ?_)
    refine Nat.le_trans (hterms _) (Nat.le_of_eq ?_)
    rw [List.getElem?_eq_none (Nat.le_refl _)]
    rfl
  rw [rounds_eq excess positive, rounds_eq greater positive]
  refine ⟨hterms count, ?_, sum_le_sum_of_getD_le fun position => ?_⟩
  · exact Nat.add_le_add_left (by omega) 1
  · rw [List.getElem?_take, List.getElem?_take]
    split
    next => exact hterms position
    next => exact Nat.le_refl _

theorem Fits.of_le (h : Fits bits greater fraction) (hexcess : excess ≤ greater)
    (positive : 0 < fraction) : Fits bits excess fraction := by
  intro count
  obtain ⟨hproduct, hdivisor, hsum⟩ := h count
  obtain ⟨haccumulated, hindex, houtput⟩ := rounds_le hexcess positive count
  exact ⟨Nat.lt_of_le_of_lt (Nat.mul_le_mul haccumulated hexcess) hproduct,
    Nat.lt_of_le_of_lt (Nat.mul_le_mul_left _ hindex) hdivisor,
    Nat.lt_of_le_of_lt houtput hsum⟩

/-! ## Exact prices -/

theorem keep_of_lt {value : Nat} (h : value < 2 ^ bits) :
    (Registers.ofWidth bits).keep value = value := by
  change value % (1 <<< bits) = value
  rw [Nat.one_shiftLeft]
  exact Nat.mod_eq_of_lt h

/-- Registers that lose no product give the terms of the series. -/
theorem terms_ofWidth
    (h : ∀ member ∈ terms .unbounded excess fraction positive index term,
      member * excess < 2 ^ bits) :
    terms (.ofWidth bits) excess fraction positive index term =
      terms .unbounded excess fraction positive index term := by
  fun_induction terms .unbounded excess fraction positive index term with
  | case1 => exact terms_zero _
  | case2 index term hterm ih =>
      rw [terms_of_ne_zero hterm, keep_of_lt (h term List.mem_cons_self)]
      exact congrArg _ (ih fun member hmember => h member (List.mem_cons_of_mem _ hmember))

theorem foldl_keep {numbers : List Nat} {start : Nat} (h : start + numbers.sum < 2 ^ bits) :
    numbers.foldl (fun sum number => (Registers.ofWidth bits).keep (sum + number)) start =
      numbers.foldl (fun sum number => sum + number) start := by
  induction numbers generalizing start with
  | nil => rfl
  | cons number numbers ih =>
      rw [List.sum_cons, ← Nat.add_assoc] at h
      rw [List.foldl_cons, List.foldl_cons, keep_of_lt (by omega)]
      exact ih h

/-- Where everything fits, the price is exact, and fits as well. -/
theorem price_ofWidth (h : Fits bits excess fraction) (positive : 0 < fraction) :
    price (.ofWidth bits) excess fraction positive = price .unbounded excess fraction positive ∧
      price .unbounded excess fraction positive < 2 ^ bits := by
  obtain ⟨hproducts, -, hsum⟩ := (fits_iff positive).mp h
  constructor
  · unfold price
    dsimp only
    rw [terms_ofWidth hproducts, foldl_keep (by rw [Nat.zero_add]; exact hsum)]
    rfl
  · rw [price_unbounded]
    exact Nat.lt_of_le_of_lt (Nat.div_le_self _ _) hsum

/-! ## Series term by term -/

/-- As many terms of the series as are asked for, or all if there are fewer. -/
def firstTerms (registers : Registers) (excess fraction : Nat) : Nat → Nat → Nat → List Nat
  | 0, _, _ => []
  | count + 1, index, term =>
      if term = 0 then []
      else
        term :: firstTerms registers excess fraction count (index + 1)
          (registers.keep (term * excess) / (fraction * (index + 1)))

/-- If there are fewer terms than were asked for, these are all. -/
theorem terms_eq_firstTerms {registers : Registers} {count : Nat}
    (h : (firstTerms registers excess fraction count index term).length < count) :
    terms registers excess fraction positive index term =
      firstTerms registers excess fraction count index term := by
  induction count generalizing index term with
  | zero => exact absurd h (Nat.not_lt_zero _)
  | succ count ih =>
      rw [firstTerms] at h ⊢
      split at h
      next hterm => rw [if_pos hterm, hterm, terms_zero]
      next hterm =>
        rw [if_neg hterm, terms_of_ne_zero hterm]
        exact congrArg _ (ih (Nat.lt_of_succ_lt_succ h))

/-- Everything fits, as far as these terms tell. -/
def FitsFirst (bits excess fraction count : Nat) : Prop :=
  let series := firstTerms .unbounded excess fraction count 0 fraction
  (∀ member ∈ series, member * excess < 2 ^ bits) ∧
    fraction * (1 + series.length) < 2 ^ bits ∧ series.sum < 2 ^ bits

instance (bits excess fraction count : Nat) : Decidable (FitsFirst bits excess fraction count) :=
  inferInstanceAs (Decidable (_ ∧ _ ∧ _))

theorem fits_iff_fitsFirst {count : Nat} (positive : 0 < fraction)
    (h : (firstTerms .unbounded excess fraction count 0 fraction).length < count) :
    Fits bits excess fraction ↔ FitsFirst bits excess fraction count := by
  rw [fits_iff positive, terms_eq_firstTerms h]
  rfl

end BlobPrice

open BlobPrice

/-! ## The limit of 128 bits -/

namespace HardFork

/-- The greatest excess of blob gas for which 128 bits are enough. -/
def excessLimit (fork : HardFork) : Nat :=
  if fork.has .prague then 284284038 else 192204552

/-- The series at either limit and right above it, whose terms can be counted. -/
theorem fitsFirst_limits :
    ∀ limit ∈ [(5007716, 284284038), (3338477, 192204552)], ∀ beyond ∈ [0, 1],
      (firstTerms .unbounded (limit.2 + beyond) limit.1 200 0 limit.1).length < 200 ∧
        (FitsFirst 128 (limit.2 + beyond) limit.1 200 ↔ beyond = 0) := by
  decide +kernel

theorem fits_iff (fork : HardFork) (excess : Nat) :
    Fits 128 excess fork.updateFraction ↔ excess ≤ fork.excessLimit := by
  have hmem : (fork.updateFraction, fork.excessLimit) ∈
      [(5007716, 284284038), (3338477, 192204552)] := by
    unfold updateFraction excessLimit
    split
    next => exact List.mem_cons_self
    next => exact List.mem_cons_of_mem _ List.mem_cons_self
  have hends (beyond : Nat) (hbeyond : beyond ∈ [0, 1]) :
      Fits 128 (fork.excessLimit + beyond) fork.updateFraction ↔ beyond = 0 := by
    obtain ⟨hall, hfits⟩ := fitsFirst_limits _ hmem _ hbeyond
    exact (fits_iff_fitsFirst fork.updateFraction_pos hall).trans hfits
  constructor
  · intro h
    by_contra hgreater
    have hnext := h.of_le (Nat.lt_of_not_le hgreater) fork.updateFraction_pos
    exact Nat.one_ne_zero ((hends 1 (by decide)).mp hnext)
  · intro h
    exact ((hends 0 (by decide)).mpr rfl).of_le h fork.updateFraction_pos

end HardFork

/-- 128 bits are enough for the blob gas of a header up to the limit, and not beyond it. Up to
the limit the environment of its block is the one that exact arithmetic gives, with the price
that the loop for the exponential comes to. -/
theorem BlockContext.blob_price_exact_up_to_limit (header : Header) (fork : HardFork) :
    let context := BlockContext.ofHeader header
    let excess := (header.excessBlobGas.getD 0).toNat
    (Fits 128 excess fork.updateFraction ↔ excess ≤ fork.excessLimit) ∧
      (excess ≤ fork.excessLimit →
        context.env fork = context.env fork .unbounded ∧
          ∃ blob, (context.env fork).blob = some blob ∧
            FakeExponential 1 excess fork.updateFraction blob.price ∧ blob.price < 2 ^ 128) := by
  intro context excess
  refine ⟨fork.fits_iff excess, fun hlimit => ?_⟩
  obtain ⟨hexact, hbound⟩ := price_ofWidth ((fork.fits_iff excess).mpr hlimit)
    fork.updateFraction_pos
  have hprice := BlobGas.price_under fork (header.excessBlobGas.getD 0) (.ofWidth 128)
  have hblob : BlobGas.under fork (header.excessBlobGas.getD 0) (.ofWidth 128) =
      BlobGas.under fork (header.excessBlobGas.getD 0) .unbounded := by
    refine congrArg (BlobGas.mk (header.excessBlobGas.getD 0)) ?_
    exact hprice.trans (hexact.trans (BlobGas.price_under fork _ .unbounded).symm)
  refine ⟨?_, _, rfl, ?_, ?_⟩
  · exact congrArg (fun blob => { context.env fork with blob := some blob }) hblob
  · exact (fakeExponential_iff excess fork.updateFraction_pos).mpr (hprice.trans hexact)
  · exact Nat.lt_of_le_of_lt (Nat.le_of_eq (hprice.trans hexact)) hbound

/-- A header with one more unit of excess than the limit before Prague. Its block has another
price than the exponential, since a product of the loop does not fit into 128 bits. -/
theorem BlockContext.blob_price_wraps :
    let header : Header :=
      { number := 1, timestamp := 0, beneficiary := 0, gasLimit := 0, baseFee := none,
        difficulty := 0, mixHash := some 0, excessBlobGas := some 192204553 }
    (∃ count, 2 ^ 128 ≤
        (rounds 1 192204553 (HardFork.updateFraction .cancun) count).accumulated * 192204553) ∧
      FakeExponential 1 192204553 (HardFork.updateFraction .cancun)
        10079296854086811361005191 ∧
      ((BlockContext.ofHeader header).env .cancun).blob =
        some ⟨192204553, 5089730449835472321748656⟩ := by
  have hkept := @terms_eq_firstTerms 192204553 3338477 (by decide) 0 3338477 (.ofWidth 128) 200
    (by decide +kernel)
  have hprice : (BlobGas.under .cancun 192204553).price = 5089730449835472321748656 := by
    rw [BlobGas.price_under]
    change BlobPrice.price _ 192204553 3338477 _ = _
    unfold price
    rw [hkept]
    decide +kernel
  refine ⟨⟨57, by decide +kernel⟩, ⟨200, by decide +kernel, by decide +kernel⟩, ?_⟩
  exact congrArg (fun price => some (BlobGas.mk 192204553 price)) hprice

end ForkReplay
