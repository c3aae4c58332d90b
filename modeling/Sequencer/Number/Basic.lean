import Sequencer.Number.Shortest

/-!
# Numbers

The numbers that a program may hold: integers of at most 64 bits, signed or unsigned, and finite
binary64 values. An integer never equals a floating-point number, whatever their values.

With `d.ddd * 10 ^ e` for the value of a floating-point number, an exponent from -5 to 15 gives
positional digits with at least one place after the point, any other exponent gives scientific
digits with a signed exponent.
-/

namespace Sequencer

/-! ### Layout of decimals -/

namespace Decimal

/-- The digits of a decimal. -/
def digitChars (d : Decimal) : List Char :=
  Nat.toDigits 10 d.digits

/-- The exponent of the leading digit. -/
def leading (d : Decimal) : Int :=
  d.exponent + d.digitChars.length - 1

/-- Whether a leading digit with this exponent is written positionally. -/
def isPositional (e : Int) : Bool :=
  -5 ≤ e && e ≤ 15

/-- Positional digits, the first of which has exponent `e`. -/
def positional (digits : List Char) : Int → List Char
  | .ofNat k =>
    if digits.length ≤ k + 1 then
      digits ++ List.replicate (k + 1 - digits.length) '0' ++ ['.', '0']
    else digits.take (k + 1) ++ '.' :: digits.drop (k + 1)
  | .negSucc k => '0' :: '.' :: (List.replicate k '0' ++ digits)

/-- The exponent of scientific digits, always with its sign. -/
def exponentPart : Int → List Char
  | .ofNat k => 'e' :: '+' :: Nat.toDigits 10 k
  | .negSucc k => 'e' :: '-' :: Nat.toDigits 10 (k + 1)

/-- Scientific digits, the first of which has exponent `e`; a single digit has no point. -/
def scientific (digits : List Char) (e : Int) : List Char :=
  match digits with
  | [] => exponentPart e
  | [d] => d :: exponentPart e
  | d :: rest => d :: '.' :: (rest ++ exponentPart e)

/-- The written form of a decimal. -/
def chars (d : Decimal) : List Char :=
  if isPositional d.leading then positional d.digitChars d.leading
  else scientific d.digitChars d.leading

end Decimal

namespace Binary64

/-- The written form of the magnitude. -/
def magnitudeChars (x : Binary64) : List Char :=
  if x.isZero then ['0', '.', '0'] else x.decimal.chars

/-- The written form of a value: the sign, if negative, and the magnitude. -/
def chars (x : Binary64) : List Char :=
  if x.negative then '-' :: x.magnitudeChars else x.magnitudeChars

/-- The written form of a value. -/
def text (x : Binary64) : String :=
  String.ofList x.chars

end Binary64

/-! ### Integers and floating-point numbers -/

/-- Whether an integer fits 64 bits, signed or unsigned: from `-2 ^ 63` to `2 ^ 64 - 1`. -/
abbrev FitsWord (value : Int) : Prop :=
  -9223372036854775808 ≤ value ∧ value < 18446744073709551616

/-- An integer that fits 64 bits, or a finite floating-point number. -/
inductive Number where
  /-- An integer. -/
  | integer (value : Int) (fits : FitsWord value)
  /-- A floating-point number. -/
  | float (value : Binary64)
deriving DecidableEq

/-- The decimal digits of an integer, with a sign if it is negative. -/
def integerText : Int → String
  | .ofNat n => toString n
  | .negSucc n => "-" ++ toString (n + 1)

namespace Number

/-- The integer number of a given value, if it fits. -/
def ofInt? (value : Int) : Option Number :=
  if fits : FitsWord value then some (.integer value fits) else none

/-- Equality of numbers: integers by value, floating-point numbers by value with equal zeros. -/
def same : Number → Number → Bool
  | .integer m _, .integer n _ => m == n
  | .float x, .float y => x.same y
  | _, _ => false

/-- The written form of a number. -/
def text : Number → String
  | .integer value _ => integerText value
  | .float value => value.text

end Number

end Sequencer
