/-!
# Finite binary64 values

A finite value of the IEEE 754 format binary64, held by its three fields. The magnitudes are
numbered in ascending order by their `rank`, and `units` gives the magnitude of a rank as a
natural number of units of `2 ^ (-1074)`, the least positive magnitude.

## Main definitions

* `Binary64.ofBits`: what a 64-bit pattern stands for.
* `Binary64.units`: the magnitude of a rank, exactly.
* `Binary64.roundNat`: the nearest natural number with at most 53 significant bits.
-/

namespace Sequencer

/-- The number of fractions of 52 bits, `2 ^ 52`. -/
abbrev fractionCount : Nat := 4503599627370496

/-- A finite binary64 value: a sign, a biased exponent and a 52-bit fraction. -/
structure Binary64 where
  /-- The sign bit. -/
  negative : Bool
  /-- The biased exponent; the value 2047 is kept for infinities and NaN. -/
  exponent : Fin 2047
  /-- The fraction, without the leading bit that a normal number implies. -/
  fraction : Fin fractionCount
deriving DecidableEq

namespace Binary64

/-- What a 64-bit pattern stands for. -/
inductive Pattern where
  /-- A finite value. -/
  | finite (value : Binary64)
  /-- An infinity with its sign. -/
  | infinite (negative : Bool)
  /-- Not a number. -/
  | nan

/-- Reads the fields of a 64-bit pattern. -/
def ofBits (bits : UInt64) : Pattern :=
  let negative := decide (2048 * fractionCount ≤ bits.toNat)
  let fraction := bits.toNat % fractionCount
  let exponent := bits.toNat / fractionCount % 2048
  if h : exponent < 2047 then
    .finite ⟨negative, ⟨exponent, h⟩, ⟨fraction, Nat.mod_lt _ (by decide)⟩⟩
  else if fraction = 0 then .infinite negative
  else .nan

/-- The place of the magnitude among all magnitudes, zero having place 0. -/
def rank (x : Binary64) : Nat :=
  x.exponent.val * fractionCount + x.fraction.val

/-- The magnitude of the given rank in units of `2 ^ (-1074)`. It is defined beyond the greatest
finite rank too, as if exponents went on; the first rank beyond stands for `2 ^ 1024`. -/
def units (rank : Nat) : Nat :=
  if rank / fractionCount = 0 then rank % fractionCount
  else (fractionCount + rank % fractionCount) * Nat.pow 2 (rank / fractionCount - 1)

/-- Whether the value is one of the two zeros. -/
def isZero (x : Binary64) : Bool :=
  x.rank == 0

/-- Equality of values: the two zeros are equal, and nothing else is identified. -/
def same (x y : Binary64) : Bool :=
  x == y || (x.isZero && y.isZero)

/-- The nearest natural number with at most 53 significant bits; of two nearest ones, the one
whose last significant bit is 0. -/
def roundNat (n : Nat) : Nat :=
  let step := Nat.pow 2 (n.log2 - 52)
  let kept := n / step
  let lost := 2 * (n % step)
  if lost < step || (lost == step && kept % 2 == 0) then kept * step else (kept + 1) * step

/-- The least natural number that rounds beyond every finite value: the middle between the
greatest finite value and `2 ^ 1024`. -/
def overflowBound : Nat :=
  Nat.pow 2 1024 - Nat.pow 2 970

end Binary64

end Sequencer
