import Std.Data.TreeSet
import Sequencer.Text.Characters
import Sequencer.Json.Numeral

/-!
# Names

The names under which actions bind their results. A name is any text that is not blank and does
not read like the external input, a truth value or a number. It is taken as it stands: blanks at
its ends belong to it.
-/

namespace Sequencer

/-- What is wrong with a text as a name. -/
inductive Name.Fault where
  /-- It is blank. -/
  | blank
  /-- It is one of the reserved words. -/
  | reserved
  /-- It reads as a number. -/
  | numeric
deriving DecidableEq

/-- The words that stand for the external input and the truth values. -/
def Name.reservedWords : List String :=
  ["input", "true", "false"]

/-- What is wrong with a text as a name, if anything; the first of several faults counts. -/
def Name.fault? (text : String) : Option Name.Fault :=
  if Text.isBlank text then some .blank
  else if Name.reservedWords.contains text then some .reserved
  else if Json.readsAsNumber text then some .numeric
  else none

/-- A name. -/
structure Name where
  /-- The text of the name. -/
  text : String
  /-- Nothing is wrong with the text. -/
  valid : Name.fault? text = none
deriving DecidableEq

namespace Name

/-- Names are ordered by their texts, code point by code point. -/
instance : Ord Name where
  compare a b := compare a.text b.text

instance : Std.TransOrd Name where
  eq_swap {a b} := show compare a.text b.text = (compare b.text a.text).swap from
    Std.OrientedOrd.eq_swap
  isLE_trans {a b c} := show (compare a.text b.text).isLE → (compare b.text c.text).isLE →
      (compare a.text c.text).isLE from
    Std.TransOrd.isLE_trans

instance : Std.LawfulEqOrd Name where
  compare_self {a} := show compare a.text a.text = .eq from Std.ReflOrd.compare_self
  eq_of_compare {a b} same := by
    have texts : a.text = b.text := Std.LawfulEqOrd.eq_of_compare same
    cases a
    cases b
    cases texts
    rfl

/-- The name of the given text, or what is wrong with it. -/
def check (text : String) : Except Fault Name :=
  match h : fault? text with
  | none => .ok ⟨text, h⟩
  | some fault => .error fault

/-- The distinct names of a list in ascending order. -/
def sortDistinct (names : List Name) : List Name :=
  (Std.TreeSet.ofList names).toList

end Name

end Sequencer
