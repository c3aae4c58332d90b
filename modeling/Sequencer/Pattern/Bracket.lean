import Sequencer.Pattern.Extent
import Sequencer.Pattern.Item

/-!
# Classes in brackets

A class in brackets lists characters, ranges, escapes, named classes and other classes in brackets,
and it may combine such lists by the operations `&&`, `--` and `~~`, from left to right. A dash
stands for itself at the beginning of a class and at its end, and a closing bracket stands for
itself as the first character.

## Main definitions

* `Pattern.bracketEnd?`: the height of a class in brackets, and the text after it.
-/

namespace Sequencer.Pattern

/-! ### Named classes -/

/-- The names that a class in brackets may use. -/
def classNames : List String :=
  ["alnum", "alpha", "ascii", "blank", "cntrl", "digit", "graph", "lower", "print", "punct",
    "space", "upper", "word", "xdigit"]

/-- Reads a named class such as `[:alpha:]` or `[:^alpha:]` from the character after its bracket:
whether it is negated, and what follows. -/
def namedClass? : List Char → Option (Bool × List Char)
  | ':' :: cs =>
    let negated := cs.head? == some '^'
    let named := if negated then cs.drop 1 else cs
    match named.dropWhile (· != ':') with
    | ':' :: ']' :: rest =>
      if classNames.contains (String.ofList (named.takeWhile (· != ':'))) then some (negated, rest)
      else none
    | _ => none
  | _ => none

/-- Whether a named class may stand in brackets. -/
def namedPermitted (mode : Mode) (negated : Bool) : Bool :=
  if mode.unicode then !mode.fold else !negated

/-! ### Beginnings -/

/-- The number of dashes at the beginning of a text, after those given, and what follows. -/
def dashes (mode : Mode) (count : Nat) : List Char → Nat × List Char
  | '-' :: rest => dashes mode (count + 1) (mode.skip rest)
  | cs => (count, cs)
termination_by cs => cs.length
decreasing_by
  have := mode.length_skip_le rest
  simp only [List.length_cons]
  omega

/-- Reads the beginning of a class from the character after its opening bracket: a circumflex that
negates it, and the dashes or the closing bracket that stand for themselves there. Gives the number
of these, and what follows. -/
def bracketBody? (mode : Mode) (cs : List Char) : Option (Nat × List Char) :=
  let cs := mode.skip cs
  let negated := cs.head? == some '^'
  let cs := if negated then mode.skip (cs.drop 1) else cs
  let (count, body) :=
    match cs with
    | ']' :: rest => (1, mode.skip rest)
    | cs => dashes mode 0 cs
  if body.isEmpty || (negated && !mode.unicode) || (count != 0 && mode.unicode && mode.fold) then
    none
  else some (count, body)

/-! ### Ranges -/

/-- Reads a character or an escape in brackets. -/
def bracketItem? (mode : Mode) : List Char → Option (Item × List Char)
  | [] => none
  | '\\' :: rest =>
    (Item.read? mode rest).bind fun (item, rest) =>
      if item.permittedInBrackets mode then some (item, rest) else none
  | c :: rest =>
    let item := Item.literal c false
    if item.permittedInBrackets mode then some (item, rest) else none

/-- Whether two items are the ends of a range. -/
def isRange : Item → Item → Bool
  | .literal low _, .literal high _ => low ≤ high
  | _, _ => false

/-- Reads a range, or an item that begins none. -/
def bracketRange? (mode : Mode) (cs : List Char) : Option (List Char) :=
  (bracketItem? mode cs).bind fun (first, rest) =>
    match mode.skip rest with
    | '-' :: more =>
      let deciding := mode.deciding? more
      if deciding == some ']' || deciding == some '-' then some ('-' :: more)
      else
        (bracketItem? mode (mode.skip more)).bind fun (second, rest) =>
          if isRange first second then some rest else none
    | rest => some rest

/-! ### Ends -/

/-- The height of a class in brackets and the text after it, from within the class. Given are what
has been read of the class, and of the classes around it, the innermost first. -/
def bracketEnd? (mode : Mode) :
    Nat → Extent → List Extent → List Char → Option (Nat × List Char)
  | 0, _, _, _ => none
  | fuel + 1, inner, outer, cs =>
    match mode.skip cs with
    | [] => none
    | '[' :: rest =>
      match namedClass? rest with
      | some (negated, rest) =>
        if namedPermitted mode negated then bracketEnd? mode fuel (inner.push 0) outer rest
        else none
      | none =>
        (bracketBody? mode rest).bind fun (count, body) =>
          bracketEnd? mode fuel (({} : Extent).pushLeaves count) (inner :: outer) body
    | ']' :: rest =>
      let height := inner.height + 1
      match outer with
      | [] => some (height, rest)
      | next :: outer => bracketEnd? mode fuel (next.push height) outer rest
    | '&' :: '&' :: rest | '-' :: '-' :: rest | '~' :: '~' :: rest =>
      bracketEnd? mode fuel inner.operation outer rest
    | cs => (bracketRange? mode cs).bind (bracketEnd? mode fuel (inner.push 0) outer)

/-- Reads a class from the character after its opening bracket: its height, and what follows. -/
def bracket? (mode : Mode) (cs : List Char) : Option (Nat × List Char) :=
  (bracketBody? mode cs).bind fun (count, body) =>
    bracketEnd? mode (body.length + 1) (({} : Extent).pushLeaves count) [] body

end Sequencer.Pattern
