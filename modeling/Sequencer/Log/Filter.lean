import Sequencer.Log.Event
import Sequencer.Pattern.Reader

/-!
# Log filters

A filter is a comma-separated list of rules. Of several rules for an event the highest one counts,
and of several that are equally high the last.

A rule says from which level on events are shown: `debug` or `4` for all events, `origin=level` for
those whose origin starts so, `[{label}]=level` for those that have a field of this label, and
`origin[{label}]=level` for those of which both are true. Without a level a rule is for all levels.

A rule may also name a scope, as in `[scope]` and `[scope{label}]`, or give the value of a field, as
in `[{label=value}]`; it is then for what happens within a scope. Events of this program happen
within none, so such a rule shows nothing, but it has to be well-formed all the same.

The parts of a rule are found in its text without the blanks around it, but they are cut out of the
text with these blanks. So blanks at the end belong to the last part, and blanks at the beginning
shift all parts. The shift is counted in bytes, in UTF-8, and it may put the end of a part inside a
character; then there is no such part.

## Main definitions

* `Filter.level?`: reads a level.
* `Filter.Rule.read`: reads a rule.
* `Filter.Rule.covers`: whether a rule is for an event.
* `Filter.read`, `Filter.shows`: reads a filter, and whether it shows an event.
-/

namespace Sequencer

/-! ### Parts of a text by bytes -/

namespace Text

/-- The number of bytes of a text. -/
def byteCount : List Char → Nat
  | [] => 0
  | c :: rest => c.utf8Size + byteCount rest

/-- The first bytes of a text. -/
def takeBytes? : Nat → List Char → Option (List Char)
  | 0, _ => some []
  | _ + 1, [] => none
  | n + 1, c :: rest =>
    if c.utf8Size ≤ n + 1 then (takeBytes? (n + 1 - c.utf8Size) rest).map (c :: ·) else none

/-- A text without its first bytes. -/
def dropBytes? : Nat → List Char → Option (List Char)
  | 0, cs => some cs
  | _ + 1, [] => none
  | n + 1, c :: rest => if c.utf8Size ≤ n + 1 then dropBytes? (n + 1 - c.utf8Size) rest else none

end Text

namespace Filter

/-! ### Levels -/

/-- The number of a numeral, which may have a sign and leading zeros. -/
def count? (text : List Char) : Option Nat :=
  let digits := if text.head? == some '+' then text.drop 1 else text
  if !digits.isEmpty && digits.all Char.isDigit then some (Nat.ofDigitChars 10 digits 0) else none

/-- The least level shown, by a number or by a word in any case; nothing is shown at `off`. -/
def level? (text : List Char) : Option (Option Level) :=
  match count? text with
  | some 0 => some none
  | some 1 => some (some .error)
  | some 2 => some (some .warn)
  | some 3 => some (some .info)
  | some 4 => some (some .debug)
  | some 5 => some (some .trace)
  | _ =>
    match (String.ofList text).toLower with
    | "off" => some none
    | "error" => some (some .error)
    | "warn" => some (some .warn)
    | "info" => some (some .info)
    | "debug" => some (some .debug)
    | "trace" => some (some .trace)
    | _ => none

/-! ### Values of fields -/

/-- Whether a text is empty or an exponent. -/
def isExponent : List Char → Bool
  | [] => true
  | mark :: rest =>
    let digits := if rest.head? == some '+' || rest.head? == some '-' then rest.drop 1 else rest
    (mark == 'e' || mark == 'E') && !digits.isEmpty && digits.all Char.isDigit

/-- Whether a text is a number without a sign. There may be no digits on one side of the point. -/
def isUnsigned (cs : List Char) : Bool :=
  let whole := cs.takeWhile Char.isDigit
  let rest := cs.dropWhile Char.isDigit
  let pointed := rest.head? == some '.'
  let fraction := if pointed then (rest.drop 1).takeWhile Char.isDigit else []
  let rest := if pointed then (rest.drop 1).dropWhile Char.isDigit else rest
  ["inf", "infinity", "nan"].contains (String.ofList cs).toLower ||
    (!(whole.isEmpty && fraction.isEmpty) && isExponent rest)

/-- Whether a text can stand for the value of a field: a truth value, a number or a pattern. All
truth values and numbers are patterns, except for the numbers with a plus sign. -/
def isFieldValue (cs : List Char) : Bool :=
  isPattern cs || (cs.head? == some '+' && isUnsigned (cs.drop 1))

/-! ### Rules -/

/-- A rule of a filter. -/
structure Rule where
  /-- How the origins start that the rule is for, unless it is for all of them. -/
  origin : Option String := none
  /-- The label of a field that the events must have. -/
  label : Option String := none
  /-- Whether the rule is for what happens within a scope. -/
  inScope : Bool := false
  /-- The least level that is shown, if any is. -/
  least : Option Level := some .trace
deriving DecidableEq

namespace Rule

/-- Why a text is no rule. -/
inductive Fault where
  /-- The text is not written like a rule. -/
  | malformed
  /-- A part of the text ends inside a character. -/
  | torn
deriving DecidableEq

/-- The part of a text from one byte to another. -/
def cut (text : List Char) (start stop : Nat) : Except Fault (List Char) :=
  match (Text.dropBytes? start text).bind (Text.takeBytes? (stop - start)) with
  | some part => .ok part
  | none => .error .torn

/-- The part of a text from a byte on. -/
def cutFrom (text : List Char) (start : Nat) : Except Fault (List Char) :=
  match Text.dropBytes? start text with
  | some part => .ok part
  | none => .error .torn

/-- A text without the blanks around it. -/
def trimmed (text : List Char) : List Char :=
  ((text.dropWhile Text.isBlankChar).reverse.dropWhile Text.isBlankChar).reverse

/-- The level at the end of a text; if it is left out, all levels are shown. -/
def levelFrom (text : List Char) (start : Nat) : Except Fault (Option Level) := do
  let part ← cutFrom text start
  if part.isEmpty then return some .trace
  match level? part with
  | some least => return least
  | none => throw .malformed

/-- The label in a demand for a field, and whether the demand gives a value. -/
def labelOf (part : List Char) : Except Fault (String × Bool) :=
  let label := String.ofList (part.takeWhile (· != '='))
  if part.isEmpty then .error .malformed
  else
    match part.dropWhile (· != '=') with
    | [] => .ok (label, false)
    | _ :: rest =>
      if isFieldValue (rest.takeWhile (· != '=')) then .ok (label, true) else .error .malformed

/-- Completes a rule by what follows its scope, at the given byte. -/
def complete (text : List Char) (rule : Rule) (position : Nat) : List Char → Except Fault Rule
  | [] => .ok rule
  | '=' :: _ => do return { rule with least := ← levelFrom text (position + 1) }
  | _ => .error .malformed

/-- Reads the demand for a field, from the byte after its opening brace. -/
def readLabel (text : List Char) (rule : Rule) (start : Nat) (rest : List Char) :
    Except Fault Rule := do
  let inside := rest.takeWhile (· != '\x7d')
  let stop := start + Text.byteCount inside
  match rest.drop inside.length with
  | [] => throw .malformed
  | _ :: rest =>
    let (label, valued) ← labelOf (← cut text start stop)
    match rest with
    | ']' :: rest =>
      let inScope := rule.inScope || valued
      complete text { rule with label := some label, inScope } (stop + 2) rest
    | _ => throw .malformed

/-- Reads a scope, from the byte after its opening bracket. -/
def readScope (text : List Char) (rule : Rule) (start : Nat) (rest : List Char) :
    Except Fault Rule := do
  let inside := rest.takeWhile fun c => c != ']' && c != '\x7b'
  let stop := start + Text.byteCount inside
  match rest.drop inside.length with
  | ']' :: rest =>
    let _ ← cut text start stop
    complete text { rule with inScope := true } (stop + 1) rest
  | '\x7b' :: rest =>
    let scope ← cut text start stop
    readLabel text { rule with inScope := !scope.isEmpty } (stop + 1) rest
  | _ => throw .malformed

/-- Whether a rule may begin with a character, other than with a bracket. -/
def isInitial (c : Char) : Bool :=
  c == '-' || c == ':' || c == '_' || Text.isAlphanumericChar c

/-- Reads a rule. -/
def read (text : List Char) : Except Fault Rule := do
  let inner := trimmed text
  let head := inner.takeWhile fun c => c != '=' && c != '['
  let stop := Text.byteCount head
  if !(inner.head?.any fun c => c == '[' || isInitial c) then throw .malformed
  match inner.drop head.length with
  | [] =>
    match level? text with
    | some least => return { least }
    | none => return { origin := some (String.ofList text) }
  | '=' :: _ =>
    let origin ← cut text 0 stop
    return { origin := some (String.ofList origin), least := ← levelFrom text (stop + 1) }
  | _ :: rest =>
    if head.isEmpty then readScope text {} 1 rest
    else
      let origin ← cut text 0 stop
      readScope text { origin := some (String.ofList origin) } (stop + 1) rest

/-! ### Events -/

/-- Whether a rule is for an event. -/
def covers (rule : Rule) (event : Event) : Bool :=
  !rule.inScope && rule.origin.all (fun origin => origin.toList.isPrefixOf event.origin.toList) &&
    rule.label.all event.labels.contains

/-- The order of the rules for an event. A rule with a longer origin is above one with a shorter
origin or none, then a rule with a label above one without, and then the later label in
alphabetical order above the earlier one. -/
def order (first second : Rule) : Ordering :=
  (compare (first.origin.map String.utf8ByteSize) (second.origin.map String.utf8ByteSize)).then
    (compare first.label second.label)

/-- The higher of two rules, or the second one if neither is above the other. -/
def higher (first second : Rule) : Rule :=
  if (first.order second).isGT then first else second

end Rule

end Filter

/-! ### Filters -/

/-- A list of rules. -/
abbrev Filter := List Filter.Rule

namespace Filter

/-- Reads a filter; without rules it shows nothing. -/
def read (text : String) : Except Rule.Fault Filter :=
  ((text.splitOn ",").filter (!·.isEmpty)).mapM fun rule => Rule.read rule.toList

/-- Events of medium importance and above. -/
def standard : Filter :=
  [{ least := some .info }]

/-- The filter of an optional text: the standard one if there is no text or if it is malformed, and
none at all if the text is torn. -/
def ofText? : Option String → Option Filter
  | none => some standard
  | some text =>
    match read text with
    | .ok filter => some filter
    | .error .malformed => some standard
    | .error .torn => none

/-- The rule that counts for an event. -/
def ruleFor? (filter : Filter) (event : Event) : Option Rule :=
  match filter.filter (·.covers event) with
  | [] => none
  | rule :: rest => some (rest.foldl Rule.higher rule)

/-- Whether an event is shown. -/
def shows (filter : Filter) (event : Event) : Bool :=
  match (filter.ruleFor? event).bind Rule.least with
  | some least => least.rank ≤ event.level.rank
  | none => false

/-- The log lines of the events that are shown. -/
def lines (filter : Filter) (events : List Event) : String :=
  String.join ((events.filter filter.shows).map Event.line)

end Filter

end Sequencer
