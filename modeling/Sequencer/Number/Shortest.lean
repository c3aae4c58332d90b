import Sequencer.Number.Binary64

/-!
# Shortest decimals

Among the decimals that round to a given binary64 magnitude, the one with the fewest digits; of
several such, the nearest one; of two nearest ones, the one with an even last digit.

Every quantity is exact. Magnitudes are counted in units of `10 ^ (-1075)`, in which each binary64
magnitude and each middle between two neighbours is a natural number. The decimals with few digits
are the multiples of a high power of ten, so the search goes down from a power that is too high
and stops at the first power with a multiple that rounds to the magnitude.

## Main definitions

* `RoundingSpan`: the decimals that round to a magnitude.
* `RoundingSpan.shortest`: the search.
* `Binary64.decimal`: the digits and the power of ten of the shortest decimal.
-/

namespace Sequencer

/-- A decimal `digits * 10 ^ exponent`. -/
structure Decimal where
  /-- The digits, read as a natural number. -/
  digits : Nat
  /-- The power of ten. -/
  exponent : Int
deriving DecidableEq

/-- The decimals that round to a magnitude, in units of `10 ^ (-1075)`: those between the middles
to the two neighbouring magnitudes, with the middles themselves if `closed`. -/
structure RoundingSpan where
  /-- The middle to the next smaller magnitude. -/
  lower : Nat
  /-- The magnitude itself. -/
  value : Nat
  /-- The middle to the next larger magnitude. -/
  upper : Nat
  /-- Whether the middles round to the magnitude. -/
  closed : Bool

namespace RoundingSpan

/-- Whether a decimal rounds to the magnitude. -/
def contains (span : RoundingSpan) (x : Nat) : Bool :=
  (span.lower < x && x < span.upper) || (span.closed && (x == span.lower || x == span.upper))

/-- Of two multiples `below * step` and `(below + 1) * step` around the magnitude, the factor of
the nearer one; in the middle, the even factor. -/
def nearer (span : RoundingSpan) (step below : Nat) : Nat :=
  let middle := (2 * below + 1) * step
  if 2 * span.value < middle || (2 * span.value == middle && below % 2 == 0) then below
  else below + 1

/-- The factor of the nearest multiple of `step` that rounds to the magnitude, if there is one.
Only the two multiples around the magnitude have to be looked at. -/
def onGrid (span : RoundingSpan) (step : Nat) : Option Nat :=
  let below := span.value / step
  match span.contains (below * step), span.contains ((below + 1) * step) with
  | true, true => some (span.nearer step below)
  | true, false => some below
  | false, true => some (below + 1)
  | false, false => none

/-- The highest power of ten, starting from the given one, with a multiple that rounds to the
magnitude: the factor and the power. At power 0 the magnitude itself is such a multiple. -/
def search (span : RoundingSpan) : Nat → Nat × Nat
  | 0 => (span.value, 0)
  | power + 1 =>
    match span.onGrid (Nat.pow 10 (power + 1)) with
    | some digits => (digits, power + 1)
    | none => span.search power

/-- The search from a power of ten that exceeds the magnitude: `10 ^ (k / 3 + 1)` exceeds every
number of `k + 1` bits, since ten exceeds eight. -/
def shortest (span : RoundingSpan) : Nat × Nat :=
  span.search (span.value.log2 / 3 + 2)

end RoundingSpan

namespace Binary64

/-- The decimals that round to the magnitude of the given rank. A middle belongs to the neighbour
with the even fraction, which is the one of even rank. -/
def roundingSpan (rank : Nat) : RoundingSpan where
  lower := (units (rank - 1) + units rank) * Nat.pow 5 1075
  value := 2 * units rank * Nat.pow 5 1075
  upper := (units rank + units (rank + 1)) * Nat.pow 5 1075
  closed := rank % 2 == 0

/-- The shortest decimal that rounds to the magnitude of `x`. -/
def decimal (x : Binary64) : Decimal :=
  let found := (roundingSpan x.rank).shortest
  ⟨found.1, (found.2 : Int) - 1075⟩

end Binary64

end Sequencer
