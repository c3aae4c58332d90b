import Sequencer.Name

/-!
# Events

What is reported while a program is put in order. An event is a fact with its numbers and names;
its level, its message and its fields are derived from it. Each event comes from one part of the
program, its origin. A log line shows the level of an event, its origin, what happened, and the
fields.
-/

namespace Sequencer

/-- How important an event is, from the least to the most important. -/
inductive Level where
  | trace
  | debug
  | info
  | warn
  | error
deriving DecidableEq

namespace Level

/-- The place of a level, the more important ones having higher places. -/
def rank : Level → Nat
  | .trace => 0
  | .debug => 1
  | .info => 2
  | .warn => 3
  | .error => 4

/-- The word for a level. -/
def word : Level → String
  | .trace => "TRACE"
  | .debug => "DEBUG"
  | .info => "INFO"
  | .warn => "WARN"
  | .error => "ERROR"

end Level

/-- Something that happened. -/
inductive Event where
  /-- A program is about to be put in order. -/
  | converting (actions : Nat)
  /-- The dependencies of a program have been found. -/
  | graphBuilt (nodes edges : Nat)
  /-- An action reads a name that no action binds. -/
  | unresolvedReference (name reader : Name)
  /-- The return value reads a name that no action binds. -/
  | unresolvedReturn (name : Name)
  /-- A graph is not the graph of the program at hand. -/
  | foreignGraph (nodes actions : Nat)
  /-- Some actions wait for each other. -/
  | cycleFound (placed total length : Nat)
  /-- All actions have been put in order; some stand elsewhere than they were declared. -/
  | ordered (placed moved : Nat)
  /-- A program has been put in order. -/
  | converted (actions edges : Nat) (reordered : Bool)
  /-- Settings have been read from a file. -/
  | settingsLoaded (path : String)
deriving DecidableEq

/-- The value of a field of an event. -/
inductive Event.Value where
  | count (value : Nat)
  | flag (value : Bool)
  | text (value : String)
deriving DecidableEq

namespace Event

/-- How important an event is. -/
def level : Event → Level
  | .converting _ | .graphBuilt .. | .ordered .. => .debug
  | .unresolvedReference .. | .unresolvedReturn _ | .foreignGraph .. | .cycleFound .. => .warn
  | .converted .. | .settingsLoaded _ => .info

/-- What happened, in words. -/
def message : Event → String
  | .converting _ => "Converting complex command"
  | .graphBuilt .. => "Built dependency graph"
  | .unresolvedReference .. => "Unresolved reference"
  | .unresolvedReturn _ => "Unresolved return reference"
  | .foreignGraph .. => "Dependency graph does not match command"
  | .cycleFound .. => "Dependency cycle detected"
  | .ordered .. => "Topological order computed"
  | .converted .. => "Conversion complete"
  | .settingsLoaded _ => "Loaded converter config"

/-- The numbers and names of an event, each with its label. -/
def fields : Event → List (String × Value)
  | .converting actions => [("action_count", .count actions)]
  | .graphBuilt nodes edges => [("node_count", .count nodes), ("edge_count", .count edges)]
  | .unresolvedReference name reader =>
    [("identifier", .text name.text), ("dependent", .text reader.text)]
  | .unresolvedReturn name => [("identifier", .text name.text)]
  | .foreignGraph nodes actions => [("graph_nodes", .count nodes), ("command_len", .count actions)]
  | .cycleFound placed total length =>
    [("placed", .count placed), ("total", .count total), ("cycle_len", .count length)]
  | .ordered placed moved => [("placed", .count placed), ("moved", .count moved)]
  | .converted actions edges reordered =>
    [("action_count", .count actions), ("edge_count", .count edges), ("reordered", .flag reordered)]
  | .settingsLoaded path => [("path", .text path)]

/-! ### Log lines -/

/-- The part of the program that an event comes from. -/
def origin : Event → String
  | .converting _ | .converted .. => "il_core::application::service"
  | .graphBuilt .. | .unresolvedReference .. | .unresolvedReturn _ =>
    "il_core::algorithms::dependency_builder"
  | .foreignGraph .. | .cycleFound .. | .ordered .. => "il_core::algorithms::kahns"
  | .settingsLoaded _ => "il_demo"

/-- The labels of an event. What happened counts as a field, too. -/
def labels (event : Event) : List String :=
  "message" :: event.fields.map (·.1)

/-- The written form of a field's value. -/
def Value.render : Value → String
  | .count value => toString value
  | .flag true => "true"
  | .flag false => "false"
  | .text value => value

/-- The log line of an event. The level takes five columns. -/
def line (event : Event) : String :=
  let word := event.level.word
  String.ofList (List.replicate (5 - word.length) ' ') ++ word ++ " " ++ event.origin ++ ": " ++
    event.message ++ String.join (event.fields.map fun (label, value) =>
      " " ++ label ++ "=" ++ value.render) ++ "\n"

end Event

end Sequencer
