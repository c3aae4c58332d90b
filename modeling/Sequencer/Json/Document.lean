import Sequencer.Number.Basic

/-!
# JSON documents

A JSON value with the members of objects in written order, and its two layouts: compact, without
any space, and pretty, with one item or member a line, indented by two spaces a level.

A text is written between double quotes, with the quote, the backslash and the control characters
below U+0020 escaped. Every other character stands for itself.
-/

namespace Sequencer

/-! ### Quoted text -/

namespace Text

/-- How one character is written between quotes. -/
def escapeChar (c : Char) : List Char :=
  if c = '"' then ['\\', '"']
  else if c = '\\' then ['\\', '\\']
  else if c = '\x08' then ['\\', 'b']
  else if c = '\x0c' then ['\\', 'f']
  else if c = '\n' then ['\\', 'n']
  else if c = '\r' then ['\\', 'r']
  else if c = '\t' then ['\\', 't']
  else if c.toNat < 0x20 then
    ['\\', 'u', '0', '0', Nat.digitChar (c.toNat / 16), Nat.digitChar (c.toNat % 16)]
  else [c]

/-- What stands between the quotes for the given characters. -/
def escape (chars : List Char) : List Char :=
  chars.flatMap escapeChar

/-- A text between double quotes. -/
def quoted (text : String) : String :=
  "\"" ++ String.ofList (escape text.toList) ++ "\""

@[simp]
theorem escape_nil : escape [] = [] :=
  rfl

@[simp]
theorem escape_cons (c : Char) (rest : List Char) :
    escape (c :: rest) = escapeChar c ++ escape rest :=
  rfl

/-- A quoted text is its escaped characters between two quotes. -/
theorem toList_quoted (text : String) :
    (quoted text).toList = '"' :: (escape text.toList ++ ['"']) := by
  simp [quoted, String.toList_append]

end Text

/-! ### Values -/

/-- A JSON value. Objects keep the order of their members. -/
inductive Json where
  /-- The word `null`. -/
  | null
  /-- A truth value. -/
  | bool (value : Bool)
  /-- An integer. -/
  | integer (value : Int)
  /-- A floating-point number. -/
  | float (value : Binary64)
  /-- A text. -/
  | string (value : String)
  /-- A list of values. -/
  | array (items : List Json)
  /-- A list of named values. -/
  | object (members : List (String × Json))

namespace Json

/-- The words of the two truth values. -/
def boolText : Bool → String
  | true => "true"
  | false => "false"

/-! ### Compact layout -/

mutual

/-- The layout without any space. -/
def compact : Json → String
  | .null => "null"
  | .bool value => boolText value
  | .integer value => integerText value
  | .float value => value.text
  | .string value => Text.quoted value
  | .array items => "[" ++ ",".intercalate (compactItems items) ++ "]"
  | .object members => "\x7b" ++ ",".intercalate (compactMembers members) ++ "\x7d"

/-- The items of an array, each in compact layout. -/
def compactItems : List Json → List String
  | [] => []
  | item :: rest => item.compact :: compactItems rest

/-- The members of an object, each in compact layout. -/
def compactMembers : List (String × Json) → List String
  | [] => []
  | (key, value) :: rest => (Text.quoted key ++ ":" ++ value.compact) :: compactMembers rest

end

/-! ### Pretty layout -/

/-- A line break and the indentation of the given level. -/
def newline (level : Nat) : String :=
  String.ofList ('\n' :: List.replicate (2 * level) ' ')

/-- The parts of an array or object, one a line inside the brackets; no line break without parts. -/
def block (opening closing : String) (level : Nat) : List String → String
  | [] => opening ++ closing
  | parts => opening ++ newline (level + 1) ++ ("," ++ newline (level + 1)).intercalate parts ++
      newline level ++ closing

mutual

/-- The layout with one item or member a line; `level` is the indentation of the last line. -/
def pretty (level : Nat) : Json → String
  | .null => "null"
  | .bool value => boolText value
  | .integer value => integerText value
  | .float value => value.text
  | .string value => Text.quoted value
  | .array items => block "[" "]" level (prettyItems (level + 1) items)
  | .object members => block "\x7b" "\x7d" level (prettyMembers (level + 1) members)

/-- The items of an array, each in pretty layout. -/
def prettyItems (level : Nat) : List Json → List String
  | [] => []
  | item :: rest => item.pretty level :: prettyItems level rest

/-- The members of an object, each in pretty layout. -/
def prettyMembers (level : Nat) : List (String × Json) → List String
  | [] => []
  | (key, value) :: rest =>
    (Text.quoted key ++ ": " ++ value.pretty level) :: prettyMembers level rest

end

end Json

end Sequencer
