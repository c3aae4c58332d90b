import Sequencer.Graph.Basic
import Sequencer.Log.Traced

/-!
# The graph of a program

Every name that an action reads gives an edge from the action that binds it. Actions are looked at
in order, their names in written order, the names of the return value last; the first name that no
action binds is the failure.
-/

namespace Sequencer

/-- A name that no action binds, with the action that reads it; no action for the return value. -/
structure Unresolved where
  /-- The name. -/
  name : Name
  /-- The name that the reading action binds. -/
  reader : Option Name
deriving DecidableEq

namespace Unresolved

/-- The event of an unresolved name. -/
def event (u : Unresolved) : Event :=
  match u.reader with
  | some reader => .unresolvedReference u.name reader
  | none => .unresolvedReturn u.name

/-- The failure of an unresolved name. -/
def failure (u : Unresolved) : Failure :=
  .unresolvedReference u.name u.reader

end Unresolved

namespace Graph

/-- The positions and names of a program, without edges. -/
def ofResults (program : Program) : Graph :=
  { withNodes program.size with
    declarations := program.actions.toList.zipIdx.foldl
      (fun declarations (action, position) => declarations.insert action.result position) ∅ }

/-- Adds the edge for one name that the action at `target` reads. -/
def linkName (reader : Name) (target : Nat) (g : Graph) (name : Name) : Except Unresolved Graph :=
  match g.declarer name with
  | some source => .ok (g.addEdge source target)
  | none => .error ⟨name, some reader⟩

/-- Adds the edges for all names that an action reads. -/
def linkAction (g : Graph) (entry : Action × Nat) : Except Unresolved Graph :=
  entry.1.references.foldlM (linkName entry.1.result entry.2) g

/-- The graph with all its edges, if every name is bound. -/
def link (program : Program) : Except Unresolved Graph :=
  match program.actions.toList.zipIdx.foldlM linkAction (ofResults program) with
  | .error unresolved => .error unresolved
  | .ok g =>
    let read := program.returns.toList.flatMap Source.references
    match read.find? fun name => (g.declarer name).isNone with
    | some name => .error ⟨name, none⟩
    | none => .ok g

/-- The graph of a program, if every name is bound. -/
def ofProgram (program : Program) : Traced Graph :=
  match link program with
  | .ok g => ⟨[.graphBuilt g.size g.edgeCount], .ok g⟩
  | .error unresolved => ⟨[unresolved.event], .error unresolved.failure⟩

end Graph

end Sequencer
