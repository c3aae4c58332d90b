import Sequencer.Pattern.Mode
import Sequencer.Text.Characters

/-!
# Items of a pattern

A character of a pattern stands for itself or, after a backslash, for something else.

The classes of letters, digits and blanks, the ends of words and the equality of letters in either
case are known for ASCII only, so a pattern may use them only where it is not about Unicode.
Patterns match whole characters: where they are not about Unicode, they may not describe single
bytes above `0x7F`.

## Main definitions

* `Pattern.Item.read?`: reads an escape.
* `Pattern.Item.permitted`, `Pattern.Item.permittedInBrackets`: whether an item may stand here.
-/

namespace Sequencer.Pattern

/-- What an escape, or a character alone, stands for. -/
inductive Item where
  /-- A character. It may have been given as a byte, by two digits. -/
  | literal (c : Char) (asByte : Bool)
  /-- One of the classes of letters, digits and blanks, or all characters outside of it. -/
  | charClass (negated : Bool)
  /-- The beginning or the end of the text. -/
  | anchor
  /-- The beginning, the end or the inside of a word. -/
  | boundary
deriving DecidableEq

/-- The number that so many hexadecimal digits stand for, after the one given, and what follows. -/
def digits? (mode : Mode) : Nat → Nat → List Char → Option (Nat × List Char)
  | 0, value, cs => some (value, mode.skip cs)
  | count + 1, value, cs =>
    match mode.skip cs with
    | [] => none
    | c :: rest => (Text.hexValue? c).bind fun digit => digits? mode count (16 * value + digit) rest

/-- The character of a number in so many hexadecimal digits, and what follows. -/
def numbered? (mode : Mode) (count : Nat) (cs : List Char) : Option (Item × List Char) :=
  (digits? mode count 0 cs).bind fun (value, rest) =>
    if value.isValidChar then some (.literal (Char.ofNat value) (count == 2), rest) else none

/-- Whether a character stands for itself after a backslash. -/
def isEscapable (c : Char) : Bool :=
  c.toNat ≤ 0x7F && !c.isAlphanum && c != '<' && c != '>'

/-- The letters that stand for control characters after a backslash. -/
def controls : List (Char × Char) :=
  [('a', '\x07'), ('f', '\x0c'), ('t', '\t'), ('n', '\n'), ('r', '\r'), ('v', '\x0b')]

namespace Item

/-- Whether an item may stand outside of brackets. -/
def permitted (mode : Mode) : Item → Bool
  | .literal c asByte => if mode.unicode then !mode.fold else !asByte || c.toNat ≤ 0x7F
  | .charClass negated => !mode.unicode && !negated
  | .anchor => true
  | .boundary => !mode.unicode

/-- Whether an item may stand in brackets. -/
def permittedInBrackets (mode : Mode) : Item → Bool
  | .literal c _ => if mode.unicode then !mode.fold else c.toNat ≤ 0x7F
  | .charClass negated => !mode.unicode && !negated
  | .anchor | .boundary => false

/-- Reads an escape from the character after its backslash. -/
def read? (mode : Mode) : List Char → Option (Item × List Char)
  | [] => none
  | 'x' :: rest => numbered? mode 2 rest
  | 'u' :: rest => numbered? mode 4 rest
  | 'U' :: rest => numbered? mode 8 rest
  | c :: rest =>
    if isEscapable c then some (.literal c false, rest)
    else if let some control := controls.lookup c then some (.literal control false, rest)
    else if ['d', 's', 'w'].contains c then some (.charClass false, rest)
    else if ['D', 'S', 'W'].contains c then some (.charClass true, rest)
    else if ['A', 'z'].contains c then some (.anchor, rest)
    else if ['b', 'B', '<', '>'].contains c then some (.boundary, rest)
    else none

end Item

end Sequencer.Pattern
