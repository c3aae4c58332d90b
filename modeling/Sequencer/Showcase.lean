import Sequencer.Limits
import Sequencer.Log.Filter
import Sequencer.Sequence

/-!
# A worked example

A program of two actions, declared in the wrong order, is put in order and shown in both written
forms. Settings may come from a file, and the events that a filter lets through are logged among
the output.
-/

namespace Sequencer.Showcase

/-- The settings of the example. -/
structure Options where
  /-- The limits of the conversion. -/
  limits : Limits := {}
  /-- Whether the JSON text is indented. -/
  prettyJson : Bool := true

/-- The form of a text that gives the settings. -/
def form : Form where
  fields := Limits.fields ++ [⟨"pretty_json", .flag⟩]
  positional := false
  care := .full

/-- Reads the settings from JSON text. -/
def Options.read (text : String) : Except Json.Fault Options :=
  (form.read text).map fun settings =>
    { limits := Limits.ofSettings settings
      prettyJson := settings.flag "pretty_json" ({} : Options).prettyJson }

/-- Where the settings come from. -/
inductive SettingsFile where
  /-- There is no file, and the defaults hold. -/
  | none
  /-- The file cannot be opened. -/
  | unreadable (path : String)
  /-- A file with its content. -/
  | content (path : String) (bytes : ByteArray)

/-- What a run of the example leaves behind. -/
structure Transcript where
  /-- The exit code. -/
  exit : UInt8
  /-- The output. -/
  output : String
  /-- The error output. -/
  errors : String

/-- The example: `X2` is computed from `X1`, but declared first. -/
def program : Except Failure Program := do
  let a1 ← Template.ofName "A1"
  let a2 ← Template.ofName "A2"
  let x1 ← Name.ofText "X1"
  let x2 ← Name.ofText "X2"
  let draft ← Draft.empty.add ⟨x2, .call a2 [.reference x1 []]⟩
  let draft ← draft.add ⟨x1, .call a1 [.input []]⟩
  let draft ← draft.returning (.reference x2 [])
  draft.build

/-- A text under a heading. -/
def headed (heading body : String) : String :=
  "-- " ++ heading ++ " --\n" ++ body ++ "\n"

/-- The settings of a file with the event of having read them, or what is wrong with the file. -/
def options : SettingsFile → Except String (Options × List Event)
  | .none => .ok ({}, [])
  | .unreadable path => .error ("reading config file " ++ path)
  | .content path bytes =>
    match String.fromUTF8? bytes with
    | .none => .error ("reading config file " ++ path)
    | .some text =>
      match Options.read text with
      | .ok options => .ok (options, [.settingsLoaded path])
      | .error _ => .error ("parsing config file " ++ path)

/-- Converts the example and shows the result. -/
def present (filter : Filter) (options : Options) (events : List Event) (program : Program) :
    Transcript :=
  let opening := filter.lines events ++ headed "declared" program.text
  let converted := options.limits.convert program
  let log := filter.lines converted.events
  match converted.outcome with
  | .ok sequence =>
    let json := if options.prettyJson then sequence.prettyJson else sequence.compactJson
    { exit := 0
      output := opening ++ log ++ headed "sequence" sequence.text ++ headed "json" json
      errors := "" }
  | .error failure =>
    { exit := 1
      output := opening ++ log
      errors := "Error: converting example program\n\nCaused by:\n    " ++ failure.message ++ "\n" }

/-- Runs the example under the given filter, with the given settings. -/
def runWith (filter : Filter) (file : SettingsFile) : Transcript :=
  match options file, program with
  | .error problem, _ => ⟨1, "", "Error: " ++ problem⟩
  | .ok _, .error failure => ⟨1, "", "Error: " ++ failure.message⟩
  | .ok (options, events), .ok program => present filter options events program

/-- Runs the example with the given text of a filter and settings. If there is no filter for the
text, nothing is done. -/
def run (log : Option String) (file : SettingsFile) : Transcript :=
  match Filter.ofText? log with
  | none => ⟨101, "", ""⟩
  | some filter => runWith filter file

end Sequencer.Showcase
