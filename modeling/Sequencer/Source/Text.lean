import Sequencer.Json.Document
import Sequencer.Source.Basic

/-!
# The written forms of sources

As text, a source is its head followed by its projections. Names and field names are written as they
stand, texts and keys in quotes. As a JSON value, a source is an object that names its kind, then
what it is made of, then its path.
-/

namespace Sequencer

/-! ### Text -/

/-- The written form of a projection step. -/
def Segment.text : Segment → String
  | .field name => "." ++ name
  | .index position => "[" ++ toString position ++ "]"
  | .key name => "[" ++ Text.quoted name ++ "]"

/-- The written form of a constant. -/
def Literal.text : Literal → String
  | .bool value => Json.boolText value
  | .number value => value.text
  | .string value => Text.quoted value

namespace Source

/-- The written form of a path. -/
def pathText (path : List Segment) : String :=
  String.join (path.map Segment.text)

mutual

/-- The written form of a source. -/
def text : Source → String
  | .input path => "input" ++ pathText path
  | .reference name path => name.text ++ pathText path
  | .constant value path => value.text ++ pathText path
  | .array items path => "[" ++ ", ".intercalate (itemTexts items) ++ "]" ++ pathText path
  | .object fields path =>
    "\x7b" ++ ", ".intercalate (fieldTexts fields) ++ "\x7d" ++ pathText path

/-- The written forms of the items of an array. -/
def itemTexts : List Source → List String
  | [] => []
  | item :: rest => item.text :: itemTexts rest

/-- The written forms of the fields of an object. -/
def fieldTexts : List (String × Source) → List String
  | [] => []
  | (key, value) :: rest => (Text.quoted key ++ ": " ++ value.text) :: fieldTexts rest

end

end Source

/-! ### JSON values -/

/-- A projection step as a JSON value. -/
def Segment.toJson : Segment → Json
  | .field name => .object [("segment", .string "field"), ("value", .string name)]
  | .index position => .object [("segment", .string "index"), ("value", .integer position)]
  | .key name => .object [("segment", .string "key"), ("value", .string name)]

/-- A number as a JSON value. -/
def Number.toJson : Number → Json
  | .integer value _ => .integer value
  | .float value => .float value

/-- A constant as a JSON value. -/
def Literal.toJson : Literal → Json
  | .bool value => .bool value
  | .number value => value.toJson
  | .string value => .string value

namespace Source

/-- A path as a JSON value. -/
def pathJson (path : List Segment) : Json :=
  .array (path.map Segment.toJson)

mutual

/-- A source as a JSON value. -/
def toJson : Source → Json
  | .input path => .object [("kind", .string "input"), ("path", pathJson path)]
  | .reference name path =>
    .object [("kind", .string "identifier"), ("name", .string name.text), ("path", pathJson path)]
  | .constant value path =>
    .object [("kind", .string "constant"), ("value", value.toJson), ("path", pathJson path)]
  | .array items path =>
    .object [("kind", .string "array"), ("items", .array (itemsJson items)),
      ("path", pathJson path)]
  | .object fields path =>
    .object [("kind", .string "object"), ("fields", .array (fieldsJson fields)),
      ("path", pathJson path)]

/-- The items of an array as JSON values. -/
def itemsJson : List Source → List Json
  | [] => []
  | item :: rest => item.toJson :: itemsJson rest

/-- The fields of an object as JSON values. -/
def fieldsJson : List (String × Source) → List Json
  | [] => []
  | (key, value) :: rest =>
    .object [("key", .string key), ("value", value.toJson)] :: fieldsJson rest

end

end Source

end Sequencer
