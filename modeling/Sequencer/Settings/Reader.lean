import Sequencer.Json.Passage
import Sequencer.Settings.Form

/-!
# Reading settings

Settings are read from the text of a JSON object, one character at a time. Members of unknown
names are passed over, also when they are repeated; a known name given twice is unfit as soon as
it is read the second time. A form may also admit an array that gives the values in the order of
the fields and may stop early.

The reader is a fold of `Reader.step` over the characters, so a run over a text splits wherever
the text does.

## Main definitions

* `Reader.step`: one character.
* `Reader.finish`: the end of the text.
* `Form.read`: the settings that a text gives.
-/

namespace Sequencer

open Json

/-- Where a value stands. -/
inductive Reader.Place where
  /-- In an object. -/
  | member
  /-- In an array, with the fields that are still to come. -/
  | element (rest : List Setting.Field)

/-- What a reader of settings expects. -/
inductive Reader.Phase where
  /-- The object or array. -/
  | start
  /-- The name of a member, or the rest of it. -/
  | key (scan : KeyScan)
  /-- The colon after a name; no field if the name is unknown. -/
  | colon (field : Option Setting.Field)
  /-- The first value of the array, or its end. -/
  | firstElement
  /-- The value of a field. -/
  | value (field : Setting.Field) (place : Reader.Place)
  /-- The rest of the value of a field. -/
  | scalar (field : Setting.Field) (place : Reader.Place) (scan : ScalarScan)
  /-- The rest of a value of an unknown name. -/
  | passage (passage : Passage)
  /-- What follows a value. -/
  | after (place : Reader.Place)
  /-- The rest of a scalar that stands in place of the object. -/
  | misfit (scan : ScalarScan)
  /-- Nothing but blanks. -/
  | closed

/-- A reader of settings. -/
structure Reader where
  /-- What is expected. -/
  phase : Reader.Phase := .start
  /-- The settings read so far, the last one first. -/
  settings : Settings := []

namespace Reader

/-- The scan of a scalar where one is asked for. -/
def startScalar (c : Char) : Except Fault ScalarScan :=
  if c = '[' || c = '\x7b' then .error .unfit
  else match ScalarScan.start? c with
    | some scan => .ok scan
    | none => .error .malformed

/-- The setting that a scalar gives to a field. -/
def settle (kind : Setting.Kind) (scalar : Scalar) : Except Fault Setting :=
  match kind, scalar with
  | .natural, .number n =>
    match n.natural? with
    | some value => .ok (.natural value)
    | none => .error .unfit
  | .flag, .bool value => .ok (.flag value)
  | _, _ => .error .unfit

/-- The reader after the value of a field. -/
def record (r : Reader) (field : Setting.Field) (place : Place) (scalar : Scalar) :
    Except Fault Reader :=
  (settle field.kind scalar).map fun setting =>
    { phase := .after place, settings := (field.name, setting) :: r.settings }

/-- A character where the value of a field starts. -/
def startValue (r : Reader) (field : Setting.Field) (place : Place) (c : Char) :
    Except Fault Reader :=
  (startScalar c).map fun scan => { r with phase := .scalar field place scan }

/-- A character after a value. -/
def afterValue (r : Reader) (place : Place) (c : Char) : Except Fault Reader :=
  match place with
  | .member =>
    passSeparator '\x7d' { r with phase := .after .member } { r with phase := .key (.start false) }
      { r with phase := .closed } c
  | .element rest =>
    if isSpace c then .ok { r with phase := .after place }
    else if c = ']' then .ok { r with phase := .closed }
    else if c = ',' then
      match rest with
      | field :: rest => .ok { r with phase := .value field (.element rest) }
      | [] => .error .malformed
    else .error .malformed

/-- The name of a member has been read. A known name must be new. -/
def named (form : Form) (r : Reader) (name : String) : Except Fault Reader :=
  match form.find? name with
  | none => .ok { r with phase := .colon none }
  | some field =>
    if (r.settings.lookup name).isSome then .error .unfit
    else .ok { r with phase := .colon (some field) }

/-- The reader before the value of a member. The value of an unknown name is passed over. -/
def expect (r : Reader) : Option Setting.Field → Reader
  | some field => { r with phase := .value field .member }
  | none => { r with phase := .passage {} }

/-- One character. -/
def step (form : Form) (r : Reader) (c : Char) : Except Fault Reader :=
  match r.phase with
  | .start =>
    if isSpace c then .ok r
    else if c = '\x7b' then .ok { r with phase := .key (.start true) }
    else if c = '[' && form.positional then .ok { r with phase := .firstElement }
    else (startScalar c).map fun scan => { r with phase := .misfit scan }
  | .key scan =>
    match scan.step .full c with
    | .error fault => .error fault
    | .ok (.more scan') => .ok { r with phase := .key scan' }
    | .ok (.named chars) => r.named form (String.ofList chars)
    | .ok .ended => .ok { r with phase := .closed }
  | .colon field => passColon r (r.expect field) c
  | .firstElement =>
    if isSpace c then .ok r
    else if c = ']' then .ok { r with phase := .closed }
    else match form.fields with
      | field :: rest => r.startValue field (.element rest) c
      | [] => .error .malformed
  | .value field place => if isSpace c then .ok r else r.startValue field place c
  | .scalar field place scan =>
    match scan.step .full c with
    | .error fault => .error fault
    | .ok (.more scan') => .ok { r with phase := .scalar field place scan' }
    | .ok (.closed scalar) => r.record field place scalar
    | .ok (.over scalar) =>
      match r.record field place scalar with
      | .error fault => .error fault
      | .ok r' => r'.afterValue place c
  | .passage passage =>
    match passage.step form.care c with
    | .error fault => .error fault
    | .ok (.more passage') => .ok { r with phase := .passage passage' }
    | .ok (.closed _) => .ok { r with phase := .after .member }
    | .ok (.over _) => r.afterValue .member c
  | .after place => r.afterValue place c
  | .misfit scan =>
    match scan.step .full c with
    | .error fault => .error fault
    | .ok (.more scan') => .ok { r with phase := .misfit scan' }
    | .ok (.closed _) | .ok (.over _) => .error .unfit
  | .closed => if isSpace c then .ok r else .error .malformed

/-- The end of the text. -/
def finish (form : Form) (r : Reader) : Except Fault Settings :=
  match r.phase with
  | .closed => .ok r.settings
  | .scalar field place scan =>
    match scan.finish .full with
    | .error fault => .error fault
    | .ok scalar =>
      match r.record field place scalar with
      | .error fault => .error fault
      | .ok _ => .error .truncated
  | .passage passage =>
    match passage.finish form.care with
    | .error fault => .error fault
    | .ok _ => .error .truncated
  | .misfit scan =>
    match scan.finish .full with
    | .error fault => .error fault
    | .ok _ => .error .unfit
  | _ => .error .truncated

end Reader

/-- The settings that a text gives. -/
def Form.read (form : Form) (text : String) : Except Json.Fault Settings :=
  match text.toList.foldlM (Reader.step form) ({} : Reader) with
  | .error fault => .error fault
  | .ok reader => reader.finish form

end Sequencer
