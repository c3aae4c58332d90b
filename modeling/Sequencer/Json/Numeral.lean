import Sequencer.Number.Binary64
import Sequencer.Json.Text

/-!
# JSON numerals

A numeral is an optional minus sign, an integer part without needless zeros, an optional fraction
and an optional exponent. While it is scanned its value is kept as a significand below `2 ^ 64` and
a power of ten: digits are kept as long as they fit, and the digits of the integer part that do not
fit count as powers of ten.

## Main definitions

* `Numeral.step`: one character of a numeral.
* `Numeral.inRange`: whether the value is finite as a binary64 number.
* `Numeral.natural?`: the value of a plain natural number below `2 ^ 64`.
* `readsAsNumber`: whether a whole text is a numeral in range between blanks.
-/

namespace Sequencer.Json

/-- The part of a numeral that its last character belongs to. -/
inductive Numeral.Part where
  /-- Nothing has been scanned. -/
  | start
  /-- The minus sign. -/
  | sign
  /-- An integer part that is zero, which takes no further digit. -/
  | zero
  /-- Any other integer part. -/
  | integer
  /-- The decimal point. -/
  | point
  /-- The digits after the point. -/
  | fraction
  /-- The letter before the exponent. -/
  | mark
  /-- The sign of the exponent. -/
  | markSign
  /-- The digits of the exponent. -/
  | power
deriving DecidableEq

/-- A numeral, as far as it has been scanned. -/
structure Numeral where
  /-- The part that the last character belongs to. -/
  part : Numeral.Part := .start
  /-- Whether there is a minus sign. -/
  negative : Bool := false
  /-- The digits kept, as a number. -/
  significand : Nat := 0
  /-- The power of ten that the places of the kept digits amount to. -/
  scale : Int := 0
  /-- Whether a digit of the current part did not fit. -/
  filled : Bool := false
  /-- Whether the written exponent is negative. -/
  powerNegative : Bool := false
  /-- The written exponent, without its sign. -/
  power : Nat := 0
deriving DecidableEq

namespace Numeral

/-- What one character does to a numeral. -/
inductive Move where
  /-- The character belongs to the numeral. -/
  | next (numeral : Numeral)
  /-- The numeral has ended before the character. -/
  | done
  /-- The numeral can neither go on with the character nor end before it. -/
  | stuck

/-- The value of a decimal digit. -/
def digitValue (c : Char) : Nat :=
  c.toNat - '0'.toNat

/-- The significand with one more digit, if it stays below `2 ^ 64`. -/
def keep? (n : Numeral) (c : Char) : Option Nat :=
  let kept := n.significand * 10 + digitValue c
  if kept < UInt64.size then some kept else none

/-- A digit of the integer part. From the first digit on that does not fit, each one counts as a
power of ten. -/
def pushInteger (n : Numeral) (c : Char) : Numeral :=
  match if n.filled then none else n.keep? c with
  | some kept => { n with part := .integer, significand := kept }
  | none => { n with part := .integer, scale := n.scale + 1, filled := true }

/-- A digit of the fraction. From the first digit on that does not fit, none counts. -/
def pushFraction (n : Numeral) (c : Char) : Numeral :=
  match if n.filled then none else n.keep? c with
  | some kept => { n with part := .fraction, significand := kept, scale := n.scale - 1 }
  | none => { n with part := .fraction, filled := true }

/-- A digit of the exponent. -/
def pushPower (n : Numeral) (c : Char) : Numeral :=
  { n with part := .power, power := n.power * 10 + digitValue c }

/-- The first digit of the integer part. -/
def leadingDigit (n : Numeral) (c : Char) : Move :=
  if c = '0' then .next { n with part := .zero }
  else if c.isDigit then .next (n.pushInteger c)
  else .stuck

/-- What may follow the integer part. -/
def afterInteger (n : Numeral) (c : Char) : Move :=
  if c = '.' then .next { n with part := .point, filled := false }
  else if c = 'e' || c = 'E' then .next { n with part := .mark }
  else .done

/-- One character of a numeral. -/
def step (n : Numeral) (c : Char) : Move :=
  match n.part with
  | .start => if c = '-' then .next { n with part := .sign, negative := true } else n.leadingDigit c
  | .sign => n.leadingDigit c
  | .zero => if c.isDigit then .stuck else n.afterInteger c
  | .integer => if c.isDigit then .next (n.pushInteger c) else n.afterInteger c
  | .point => if c.isDigit then .next (n.pushFraction c) else .stuck
  | .fraction =>
    if c.isDigit then .next (n.pushFraction c)
    else if c = 'e' || c = 'E' then .next { n with part := .mark }
    else .done
  | .mark =>
    if c = '+' then .next { n with part := .markSign }
    else if c = '-' then .next { n with part := .markSign, powerNegative := true }
    else if c.isDigit then .next (n.pushPower c)
    else .stuck
  | .markSign => if c.isDigit then .next (n.pushPower c) else .stuck
  | .power => if c.isDigit then .next (n.pushPower c) else .done

/-- Whether a numeral may end here. -/
def isComplete (n : Numeral) : Bool :=
  match n.part with
  | .zero | .integer | .fraction | .power => true
  | .start | .sign | .point | .mark | .markSign => false

/-- The power of ten that the significand is multiplied by. -/
def exponent (n : Numeral) : Int :=
  if n.powerNegative then n.scale - n.power else n.scale + n.power

/-- Whether the value is finite as a binary64 number. The significand and the power of ten are
rounded first, then their product. No power of ten beyond `10 ^ 308` is finite, and a negative
power never leaves the range. -/
def inRange (n : Numeral) : Bool :=
  n.significand == 0 ||
    match n.exponent with
    | .negSucc _ => true
    | .ofNat e =>
      e ≤ 308 &&
        Binary64.roundNat n.significand * Binary64.roundNat (Nat.pow 10 e) < Binary64.overflowBound

/-- The value of a numeral that is a natural number below `2 ^ 64`, written without sign, fraction
and exponent. -/
def natural? (n : Numeral) : Option UInt64 :=
  match n.part with
  | .zero => if n.negative then none else some 0
  | .integer => if n.negative || n.filled then none else some (UInt64.ofNat n.significand)
  | _ => none

/-- Scans a numeral to its end: the numeral and the text after it. -/
def scan (n : Numeral) : List Char → Option (Numeral × List Char)
  | [] => if n.isComplete then some (n, []) else none
  | c :: rest =>
    match n.step c with
    | .next n' => n'.scan rest
    | .done => some (n, c :: rest)
    | .stuck => none

end Numeral

/-- Whether a text is a numeral in range, with blanks on either side. -/
def readsAsNumber (text : String) : Bool :=
  match ({} : Numeral).scan (text.toList.dropWhile isSpace) with
  | some (numeral, rest) => numeral.inRange && rest.all isSpace
  | none => false

end Sequencer.Json
