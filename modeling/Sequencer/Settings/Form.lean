import Sequencer.Json.Text

/-!
# Forms of settings

A form lists the settings that a JSON text may give, each with the kind of value it takes.
-/

namespace Sequencer

/-- The value of a setting. -/
inductive Setting where
  /-- A natural number below `2 ^ 64`. -/
  | natural (value : UInt64)
  /-- A truth value. -/
  | flag (value : Bool)
deriving DecidableEq

/-- The kinds of value that a setting may take. -/
inductive Setting.Kind where
  | natural
  | flag
deriving DecidableEq

/-- A setting that a text may give. -/
structure Setting.Field where
  /-- The name of the setting. -/
  name : String
  /-- The kind of its value. -/
  kind : Setting.Kind
deriving DecidableEq

/-- The settings that a text may give, and how. -/
structure Form where
  /-- The settings. -/
  fields : List Setting.Field
  /-- Whether an array may give the values in the order of the fields. -/
  positional : Bool
  /-- How thoroughly values of other names are read. -/
  care : Json.Care

/-- The field of the given name. -/
def Form.find? (form : Form) (name : String) : Option Setting.Field :=
  form.fields.find? (·.name == name)

/-- The settings that a text has given, the last one first. -/
abbrev Settings := List (String × Setting)

namespace Settings

/-- The natural number given for a name, or a default. -/
def natural (settings : Settings) (name : String) (default : UInt64) : UInt64 :=
  match settings.lookup name with
  | some (.natural value) => value
  | _ => default

/-- The truth value given for a name, or a default. -/
def flag (settings : Settings) (name : String) (default : Bool) : Bool :=
  match settings.lookup name with
  | some (.flag value) => value
  | _ => default

end Settings

end Sequencer
