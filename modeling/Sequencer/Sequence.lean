import Std.Data.TreeSet
import Sequencer.Program

/-!
# Sequences

Actions in the order in which they are carried out, and the return value. As a JSON value a sequence
is an object with its actions in order, each with its position, and its return value.

## Main definitions

* `Sequence.arrange`: the actions of a program in a given order of positions.
* `Sequence.bindsBeforeUse`: whether every name is bound before it is read.
* `Sequence.completes`: whether a sequence consists of the actions of a program.
* `Sequence.toJson`: a sequence as a JSON value.
-/

namespace Sequencer

/-- Actions in the order in which they are carried out, and the return value. -/
structure Sequence where
  /-- The actions in order. -/
  actions : List Action
  /-- The return value. -/
  returns : Option Source

namespace Sequence

/-- The actions of a program at the given positions, with its return value. -/
def arrange (program : Program) (order : List Nat) : Sequence where
  actions := order.filterMap fun position => program.actions[position]?
  returns := program.returns

/-- The number of actions. -/
def length (s : Sequence) : Nat :=
  s.actions.length

/-- The names that are bound, in order. -/
def results (s : Sequence) : List Name :=
  s.actions.map Action.result

/-- The place of the action that binds a name. -/
def positionOf (s : Sequence) (name : Name) : Option Nat :=
  s.actions.findIdx? fun action => action.result == name

/-- Equality of sequences up to equality of numbers. -/
def same (s t : Sequence) : Bool :=
  s.actions == t.actions && s.returns == t.returns

/-- The listing of a sequence. -/
def text (s : Sequence) : String :=
  listing s.actions s.returns

/-! ### Checks -/

/-- Whether every name that the actions read is bound before, given the names bound already: the
names bound after the actions, if so. -/
def boundAfter (bound : Std.TreeSet Name) : List Action → Option (Std.TreeSet Name)
  | [] => some bound
  | action :: rest =>
    if action.references.all (bound.contains ·) then boundAfter (bound.insert action.result) rest
    else none

/-- Whether every name is bound before it is read, by an action or by the return value. -/
def bindsBeforeUse (s : Sequence) : Bool :=
  match boundAfter ∅ s.actions with
  | none => false
  | some bound => (s.returns.toList.flatMap Source.references).all (bound.contains ·)

/-- Whether a sequence consists of the actions of a program, each of them once. -/
def completes (s : Sequence) (program : Program) : Bool :=
  s.length == program.size && decide s.results.Nodup &&
    program.actions.toList.all fun action => s.actions.contains action

end Sequence

/-! ### JSON values -/

/-- The kind of an operation, in a word. -/
def Operation.kind : Operation → String
  | .call .. => "call"
  | .assign _ => "assign"

/-- An action at a position as a JSON value. -/
def Action.toJson (action : Action) (position : Nat) : Json :=
  .object [("position", .integer position), ("result", .string action.result.text),
    ("operation", .string action.operation.name), ("kind", .string action.operation.kind),
    ("sources", .array (action.sources.map Source.toJson))]

namespace Sequence

/-- A sequence as a JSON value. -/
def toJson (s : Sequence) : Json :=
  .object [("actions", .array (s.actions.zipIdx.map fun (action, position) =>
      action.toJson position)),
    ("returns", match s.returns with
      | some source => source.toJson
      | none => .null)]

/-- The compact JSON text of a sequence. -/
def compactJson (s : Sequence) : String :=
  s.toJson.compact

/-- The indented JSON text of a sequence. -/
def prettyJson (s : Sequence) : String :=
  s.toJson.pretty 0

end Sequence

end Sequencer
