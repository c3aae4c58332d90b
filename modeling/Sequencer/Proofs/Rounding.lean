import Mathlib.Algebra.Order.Field.Power
import Mathlib.Algebra.Order.Ring.Rat
import Mathlib.Tactic.Positivity
import Sequencer.Number.Shortest

/-!
# What rounds to a value

Magnitudes grow with their rank, so the decimals that round to different ranks lie apart: the spans of
two neighbours meet in the middle between them, and the middle belongs to the one of even rank only.
Whatever the search for a short decimal comes to, it stays in the span it searches. Hence the decimal
of a value determines its rank, however few digits it has.

## Main definitions

* `Decimal.value`: what a decimal stands for.

## Main results

* `Binary64.units_strictMono`: a higher rank is a greater magnitude.
* `Binary64.eq_of_contains`: no decimal rounds to two ranks.
* `RoundingSpan.contains_search`: the search ends with a decimal that rounds to the magnitude.
* `Binary64.rank_eq_of_value_eq`: values whose decimals are equal have the same rank.
-/

namespace Sequencer

/-- What a decimal stands for. -/
def Decimal.value (d : Decimal) : ℚ :=
  d.digits * 10 ^ d.exponent

theorem Decimal.value_scaled (digits power scale : Nat) :
    (⟨digits, (power : Int) - scale⟩ : Decimal).value * 10 ^ scale = digits * 10 ^ power := by
  rw [value, mul_assoc, ← zpow_natCast, ← zpow_add₀ (by norm_num), sub_add_cancel, zpow_natCast]

namespace RoundingSpan

variable {span : RoundingSpan} {step digits x : Nat}

theorem contains_eq_true_iff : span.contains x = true ↔
    span.lower < x ∧ x < span.upper ∨ span.closed = true ∧ (x = span.lower ∨ x = span.upper) := by
  simp [contains]

/-- A decimal in a span lies between its ends, and at an end only if the span is closed. -/
theorem bounds_of_contains (proper : span.lower < span.upper) (inside : span.contains x = true) :
    span.lower ≤ x ∧ x ≤ span.upper ∧ (x = span.lower ∨ x = span.upper → span.closed = true) := by
  rcases contains_eq_true_iff.mp inside with ⟨above, below⟩ | ⟨closed, atEnd⟩
  · exact ⟨above.le, below.le, fun atEnd => by omega⟩
  · exact ⟨by omega, by omega, fun _ => closed⟩

theorem nearer_eq (span : RoundingSpan) (step below : Nat) :
    span.nearer step below = below ∨ span.nearer step below = below + 1 := by
  unfold nearer
  dsimp only
  split
  · exact Or.inl rfl
  · exact Or.inr rfl

/-- What is found among the multiples of a step rounds to the magnitude. -/
theorem contains_of_onGrid (found : span.onGrid step = some digits) :
    span.contains (digits * step) = true := by
  unfold onGrid at found
  dsimp only at found
  split at found
  · next below above =>
    cases found
    -- Both multiples round to the magnitude, so it does not matter which one is nearer.
    rcases span.nearer_eq step (span.value / step) with same | same
    · rw [same]
      exact below
    · rw [same]
      exact above
  · next below _ =>
    cases found
    exact below
  · next _ above =>
    cases found
    exact above
  · cases found

/-- The search ends with a decimal that rounds to the magnitude. -/
theorem contains_search (inside : span.contains span.value = true) (power : Nat) :
    span.contains ((span.search power).1 * 10 ^ (span.search power).2) = true := by
  induction power with
  | zero => simpa [search] using inside
  | succ power ih =>
    unfold search
    cases found : span.onGrid (Nat.pow 10 (power + 1)) with
    | none => exact ih
    | some digits => exact contains_of_onGrid found

end RoundingSpan

namespace Binary64

/-! ### Magnitudes by rank -/

theorem units_add (exponent : Nat) {fraction : Nat} (small : fraction < fractionCount) :
    units (exponent * fractionCount + fraction) =
      if exponent = 0 then fraction else (fractionCount + fraction) * 2 ^ (exponent - 1) := by
  have quotient : (exponent * fractionCount + fraction) / fractionCount = exponent := by
    rw [Nat.mul_comm, Nat.mul_add_div (by decide), Nat.div_eq_of_lt small, Nat.add_zero]
  have remainder : (exponent * fractionCount + fraction) % fractionCount = fraction :=
    Nat.mul_add_mod_of_lt small
  rw [units, quotient, remainder]
  rfl

theorem units_lt_units_succ (rank : Nat) : units rank < units (rank + 1) := by
  obtain ⟨exponent, fraction, small, rfl⟩ : ∃ exponent fraction, fraction < fractionCount ∧
      rank = exponent * fractionCount + fraction :=
    ⟨_, _, Nat.mod_lt rank (by decide), (Nat.div_add_mod' rank fractionCount).symm⟩
  -- Either the fraction goes up by one, or it was the last one and the exponent does.
  rcases Nat.lt_or_eq_of_le (Nat.succ_le_of_lt small) with more | last
  · rw [Nat.add_assoc, units_add exponent small, units_add exponent more]
    split
    · exact Nat.lt_succ_self _
    · exact Nat.mul_lt_mul_of_pos_right (by omega) (Nat.two_pow_pos _)
  · have next : exponent * fractionCount + fraction + 1 = (exponent + 1) * fractionCount + 0 := by
      rw [Nat.add_assoc, ← Nat.succ_eq_add_one fraction, last, Nat.add_mul, Nat.one_mul,
        Nat.add_zero]
    rw [next, units_add exponent small, units_add (exponent + 1) (by decide),
      if_neg (Nat.succ_ne_zero _), Nat.add_sub_cancel, Nat.add_zero]
    cases exponent with
    | zero => simpa using small
    | succ k =>
      rw [if_neg (Nat.succ_ne_zero _), Nat.add_sub_cancel, Nat.pow_succ, ← Nat.mul_assoc,
        Nat.mul_right_comm]
      exact Nat.mul_lt_mul_of_pos_right (by omega) (Nat.two_pow_pos k)

/-- A higher rank is a greater magnitude. -/
theorem units_strictMono : StrictMono units :=
  strictMono_nat_of_lt_succ units_lt_units_succ

/-- A value is its sign and its rank. -/
theorem eq_of_rank_eq {x y : Binary64} (sign : x.negative = y.negative) (same : x.rank = y.rank) :
    x = y := by
  obtain ⟨xSign, xExponent, xFraction⟩ := x
  obtain ⟨ySign, yExponent, yFraction⟩ := y
  have fractions : xFraction.val = yFraction.val := by
    have remainders := congrArg (· % fractionCount) same
    simp only [rank] at remainders
    rwa [Nat.mul_add_mod_of_lt xFraction.isLt, Nat.mul_add_mod_of_lt yFraction.isLt] at remainders
  simp only [rank, fractions, Nat.add_right_cancel_iff] at same
  have exponents := Nat.eq_of_mul_eq_mul_right (by decide) same
  cases sign
  rw [Fin.ext fractions, Fin.ext exponents]

/-! ### Spans of different ranks -/

section Spans

variable {r s n : Nat}

/-- The ends and the middle of a span are magnitudes on one scale. -/
theorem exists_scale : ∃ scale > 0, ∀ r,
    (roundingSpan r).lower = (units (r - 1) + units r) * scale ∧
      (roundingSpan r).value = 2 * units r * scale ∧
      (roundingSpan r).upper = (units r + units (r + 1)) * scale := by
  -- The power itself is never worked out.
  have positive : ∀ power, 0 < Nat.pow 5 power := fun _ => Nat.pow_pos (by decide)
  exact ⟨Nat.pow 5 1075, positive 1075, fun _ => ⟨rfl, rfl, rfl⟩⟩

theorem lower_lt_upper (r : Nat) : (roundingSpan r).lower < (roundingSpan r).upper := by
  obtain ⟨scale, positive, ends⟩ := exists_scale
  obtain ⟨lower, -, upper⟩ := ends r
  have below := units_strictMono.monotone (Nat.sub_le r 1)
  have above := units_lt_units_succ r
  rw [lower, upper]
  exact Nat.mul_lt_mul_of_pos_right (by omega) positive

/-- A magnitude other than zero lies inside its span. -/
theorem contains_value (nonzero : 0 < r) :
    (roundingSpan r).contains (roundingSpan r).value = true := by
  obtain ⟨scale, positive, ends⟩ := exists_scale
  obtain ⟨lower, value, upper⟩ := ends r
  have below := units_strictMono (Nat.sub_lt nonzero Nat.one_pos)
  have above := units_lt_units_succ r
  rw [RoundingSpan.contains_eq_true_iff, lower, value, upper]
  left
  constructor
  · exact Nat.mul_lt_mul_of_pos_right (by omega) positive
  · exact Nat.mul_lt_mul_of_pos_right (by omega) positive

/-- Where the span of a rank ends, the span of a higher one has not begun. They meet only if the
ranks are neighbours. -/
theorem upper_le_lower (less : r < s) :
    (roundingSpan r).upper ≤ (roundingSpan s).lower ∧
      ((roundingSpan r).upper = (roundingSpan s).lower → s = r + 1) := by
  obtain ⟨scale, positive, ends⟩ := exists_scale
  have first := units_strictMono.monotone (show r ≤ s - 1 by omega)
  have second := units_strictMono.monotone (show r + 1 ≤ s by omega)
  rw [(ends r).2.2, (ends s).1]
  refine ⟨Nat.mul_le_mul_right _ (by omega), ?_⟩
  intro meet
  have sums := Nat.eq_of_mul_eq_mul_right positive meet
  have same := units_strictMono.injective (show units (r + 1) = units s by omega)
  exact same.symm

theorem upper_le_upper (le : r ≤ s) : (roundingSpan r).upper ≤ (roundingSpan s).upper := by
  obtain ⟨scale, -, ends⟩ := exists_scale
  rw [(ends r).2.2, (ends s).2.2]
  exact Nat.mul_le_mul_right _ (Nat.add_le_add (units_strictMono.monotone le)
    (units_strictMono.monotone (Nat.succ_le_succ le)))

theorem closed_roundingSpan (r : Nat) : (roundingSpan r).closed = true ↔ r % 2 = 0 :=
  beq_iff_eq

theorem not_contains_of_lt (less : r < s) (inside : (roundingSpan r).contains n = true) :
    (roundingSpan s).contains n ≠ true := by
  intro insideOther
  obtain ⟨apart, neighbours⟩ := upper_le_lower less
  obtain ⟨-, below, edge⟩ := RoundingSpan.bounds_of_contains
    (lower_lt_upper r) inside
  obtain ⟨above, -, edgeOther⟩ := RoundingSpan.bounds_of_contains
    (lower_lt_upper s) insideOther
  -- What lies in both spans is where they meet, which belongs to the neighbour of even rank.
  have meet : (roundingSpan r).upper = (roundingSpan s).lower := by omega
  have even := (closed_roundingSpan r).mp (edge (Or.inr (by omega)))
  have evenOther := (closed_roundingSpan s).mp (edgeOther (Or.inl (by omega)))
  have next := neighbours meet
  omega

/-- No decimal rounds to two ranks. -/
theorem eq_of_contains (inside : (roundingSpan r).contains n = true)
    (insideOther : (roundingSpan s).contains n = true) : r = s := by
  rcases Nat.lt_trichotomy r s with less | same | greater
  · exact absurd insideOther (not_contains_of_lt less inside)
  · exact same
  · exact absurd inside (not_contains_of_lt greater insideOther)

end Spans

/-! ### The decimal of a value -/

variable {x y : Binary64}

theorem rank_pos_of_isZero_eq_false (nonzero : x.isZero = false) : 0 < x.rank := by
  simpa [isZero, Nat.pos_iff_ne_zero] using nonzero

/-- In units of `10 ^ (-1075)`, the decimal of a value is a number that rounds to its magnitude. -/
theorem exists_contains_decimal (nonzero : x.isZero = false) :
    ∃ n : Nat, (roundingSpan x.rank).contains n = true ∧ x.decimal.value * 10 ^ 1075 = n := by
  have inside := contains_value (rank_pos_of_isZero_eq_false nonzero)
  refine ⟨_, RoundingSpan.contains_search inside ((roundingSpan x.rank).value.log2 / 3 + 2), ?_⟩
  rw [Nat.cast_mul, Nat.cast_pow]
  exact Decimal.value_scaled _ _ 1075

/-- Values whose decimals are equal have the same rank. -/
theorem rank_eq_of_value_eq (nonzero : x.isZero = false) (nonzeroOther : y.isZero = false)
    (same : x.decimal.value = y.decimal.value) : x.rank = y.rank := by
  obtain ⟨n, inside, scaled⟩ := exists_contains_decimal nonzero
  obtain ⟨m, insideOther, scaledOther⟩ := exists_contains_decimal nonzeroOther
  have equal : n = m := by
    rw [same, scaledOther] at scaled
    exact_mod_cast scaled.symm
  exact eq_of_contains inside (equal ▸ insideOther)

theorem value_pos (nonzero : x.isZero = false) : 0 < x.decimal.value := by
  obtain ⟨n, inside, scaled⟩ := exists_contains_decimal nonzero
  obtain ⟨above, -, -⟩ := RoundingSpan.bounds_of_contains (lower_lt_upper _) inside
  obtain ⟨scale, positive, ends⟩ := exists_scale
  have least := units_strictMono (rank_pos_of_isZero_eq_false nonzero)
  have bound : 0 < n := by
    refine lt_of_lt_of_le ?_ above
    rw [(ends x.rank).1]
    exact Nat.mul_pos (by omega) positive
  have scaledPos : 0 < x.decimal.value * 10 ^ 1075 := by
    rw [scaled]
    exact_mod_cast bound
  exact (mul_pos_iff_of_pos_right (by positivity)).mp scaledPos

end Binary64

end Sequencer
