import Sequencer.Graph.Build
import Sequencer.Graph.Order
import Sequencer.Sequence
import Sequencer.Settings.Reader

/-!
# Limits and conversion

How large a program may be: the number of its actions and the number of its dependencies. Limits
are written as a JSON object with both members, and read with defaults for missing ones.

A program within the limits is put in order, so that every name is bound before it is read. The
first of these reasons against it is the failure: too many actions, a name that no action binds,
too many dependencies, actions that wait for each other.

## Main definitions

* `Limits.read`: reads limits.
* `Limits.convert`: the sequence of a program within the limits.
-/

namespace Sequencer

/-- How large a program may be. -/
structure Limits where
  /-- The greatest number of actions. -/
  maxActions : UInt64 := 10000
  /-- The greatest number of distinct dependencies between actions. -/
  maxEdges : UInt64 := 100000
deriving DecidableEq

namespace Limits

/-- The names of the two limits in settings. -/
def fields : List Setting.Field :=
  [⟨"max_actions", .natural⟩, ⟨"max_edge_count", .natural⟩]

/-- The form of a text that gives limits. -/
def form : Form where
  fields := fields
  positional := true
  care := .skim

/-- The limits that settings give, with defaults for missing ones. -/
def ofSettings (settings : Settings) : Limits where
  maxActions := settings.natural "max_actions" ({} : Limits).maxActions
  maxEdges := settings.natural "max_edge_count" ({} : Limits).maxEdges

/-- Reads limits from JSON text. -/
def read (text : String) : Except Json.Fault Limits :=
  (form.read text).map ofSettings

/-- The limits as a JSON value. -/
def toJson (limits : Limits) : Json :=
  .object [("max_actions", .integer limits.maxActions.toNat),
    ("max_edge_count", .integer limits.maxEdges.toNat)]

/-- The written form of limits. -/
def text (limits : Limits) : String :=
  limits.toJson.compact

/-! ### Conversion -/

/-- The sequence of a program. -/
def convert (limits : Limits) (program : Program) : Traced Sequence :=
  if limits.maxActions.toNat < program.size then
    .fail (.tooManyActions program.size limits.maxActions.toNat)
  else do
    .report (.converting program.size)
    let graph ← Graph.ofProgram program
    if limits.maxEdges.toNat < graph.edgeCount then
      .fail (.tooManyEdges graph.edgeCount limits.maxEdges.toNat)
    else
      let order ← graph.order program
      let sequence := Sequence.arrange program order
      .report (.converted sequence.length graph.edgeCount (isMoved order))
      return sequence

end Limits

end Sequencer
