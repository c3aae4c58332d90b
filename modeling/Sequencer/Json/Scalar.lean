import Sequencer.Json.Numeral
import Sequencer.Json.Text

/-!
# JSON scalars

The values without parts: the three words, numerals and texts. A word and a text end with their
last character, a numeral ends before the first character that cannot belong to it.
-/

namespace Sequencer.Json

/-- A JSON value without parts. -/
inductive Scalar where
  /-- The word `null`. -/
  | null
  /-- A truth value. -/
  | bool (value : Bool)
  /-- A numeral. -/
  | number (numeral : Numeral)
  /-- The characters of a text. -/
  | text (chars : List Char)

/-- A scan of a scalar. -/
inductive ScalarScan where
  /-- A word, with the letters that are still to come. -/
  | word (meant : Scalar) (left : List Char)
  /-- A numeral. -/
  | numeral (scanned : Numeral)
  /-- A text. -/
  | text (scan : TextScan)

namespace ScalarScan

/-- The scan that the first character of a scalar starts. -/
def start? (c : Char) : Option ScalarScan :=
  if c = 'n' then some (.word .null ['u', 'l', 'l'])
  else if c = 't' then some (.word (.bool true) ['r', 'u', 'e'])
  else if c = 'f' then some (.word (.bool false) ['a', 'l', 's', 'e'])
  else if c = '"' then some (.text {})
  else match ({} : Numeral).step c with
    | .next first => some (.numeral first)
    | .done | .stuck => none

/-- A numeral that has ended, which has to be in range if it is taken in. -/
def number (care : Care) (n : Numeral) : Except Fault Scalar :=
  match care with
  | .skim => .ok (.number n)
  | .full => if n.inRange then .ok (.number n) else .error .malformed

/-- One character of a scalar. -/
def step (care : Care) (s : ScalarScan) (c : Char) : Except Fault (Progress ScalarScan Scalar) :=
  match s with
  | .word _ [] => .error .malformed
  | .word meant (letter :: left) =>
    if c = letter then
      match left with
      | [] => .ok (.closed meant)
      | _ :: _ => .ok (.more (.word meant left))
    else .error .malformed
  | .numeral n =>
    match n.step c with
    | .next n' => .ok (.more (.numeral n'))
    | .done => (number care n).map .over
    | .stuck => .error .malformed
  | .text scan =>
    match scan.step care c with
    | .error fault => .error fault
    | .ok (.more scan') => .ok (.more (.text scan'))
    | .ok (.closed chars) | .ok (.over chars) => .ok (.closed (.text chars))

/-- The scalar that a scan amounts to at the end of the text. -/
def finish (care : Care) (s : ScalarScan) : Except Fault Scalar :=
  match s with
  | .word .. | .text _ => .error .truncated
  | .numeral n =>
    if n.isComplete then number care n
    else match care with
      | .skim => .error .malformed
      | .full => .error .truncated

end ScalarScan

end Sequencer.Json
