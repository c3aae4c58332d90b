import Std.Data.TreeMap
import Sequencer.Program

/-!
# Dependency graphs

The positions of the actions of a program, with an edge from `source` to `target` when the action
at `target` reads the result of the action at `source`. Each node lists its neighbours in both
directions; an edge that is added again changes nothing.

## Main definitions

* `Graph.addEdge`: adds an edge.
* `Graph.dependencies`, `Graph.dependents`: the neighbours of a position.
* `Graph.describes`: whether the graph is about the results of a program, position by position.
-/

namespace Sequencer

/-- A position of a graph with its neighbours. -/
structure Node where
  /-- The positions it reads from, the largest first. Actions are looked at in ascending order, so
  a new position mostly comes first. -/
  readsFrom : List Nat := []
  /-- The positions that read from it, the last added first. -/
  readBy : List Nat := []
  /-- The number of positions it reads from. -/
  inDegree : Nat := 0
deriving DecidableEq

/-- The dependencies between the actions of a program. -/
structure Graph where
  /-- The position of the action that binds a name. -/
  declarations : Std.TreeMap Name Nat := ∅
  /-- The nodes by position. -/
  nodes : Array Node := #[]
  /-- The number of edges. -/
  edgeCount : Nat := 0

/-- Adds a number to a list of numbers, the largest first, unless it is there. -/
def insertDescending (x : Nat) : List Nat → Option (List Nat)
  | [] => some [x]
  | y :: rest =>
    if y < x then some (x :: y :: rest)
    else if y = x then none
    else (insertDescending x rest).map (y :: ·)

/-- Adding a number fails exactly if it is there, provided that the largest come first. -/
theorem insertDescending_eq_none_iff {x : Nat} {xs : List Nat} (sorted : xs.Pairwise (· > ·)) :
    insertDescending x xs = none ↔ x ∈ xs := by
  induction xs with
  | nil => simp [insertDescending]
  | cons y rest ih =>
    rw [List.pairwise_cons] at sorted
    unfold insertDescending
    by_cases less : y < x
    · have absent : x ∉ rest := fun mem => Nat.lt_asymm less (sorted.1 x mem)
      simp [less, Nat.ne_of_gt less, absent]
    · by_cases same : y = x
      · simp [same]
      · simp [less, same, ih sorted.2, Ne.symm same]

/-- The list with one more number has the members of the list and that number. -/
theorem mem_of_insertDescending_eq_some {x z : Nat} {xs ys : List Nat}
    (added : insertDescending x xs = some ys) : z ∈ ys ↔ z = x ∨ z ∈ xs := by
  induction xs generalizing ys with
  | nil =>
    cases added
    simp
  | cons y rest ih =>
    unfold insertDescending at added
    split at added
    · cases added
      simp
    · split at added
      · cases added
      · obtain ⟨zs, tail, rfl⟩ := Option.map_eq_some_iff.mp added
        simp only [List.mem_cons, ih tail]
        exact or_left_comm

/-- The largest still come first in the list with one more number. -/
theorem pairwise_of_insertDescending_eq_some {x : Nat} {xs ys : List Nat}
    (sorted : xs.Pairwise (· > ·)) (added : insertDescending x xs = some ys) :
    ys.Pairwise (· > ·) := by
  induction xs generalizing ys with
  | nil =>
    cases added
    simp
  | cons y rest ih =>
    have tailSorted := List.pairwise_cons.mp sorted
    unfold insertDescending at added
    split at added
    · next less =>
      cases added
      refine List.pairwise_cons.mpr ⟨fun z mem => ?_, sorted⟩
      rcases List.mem_cons.mp mem with rfl | mem
      · exact less
      · exact Nat.lt_trans (tailSorted.1 z mem) less
    · split at added
      · cases added
      · next notLess notSame =>
        obtain ⟨zs, tail, rfl⟩ := Option.map_eq_some_iff.mp added
        refine List.pairwise_cons.mpr ⟨fun z mem => ?_, ih tailSorted.2 tail⟩
        rcases (mem_of_insertDescending_eq_some tail).mp mem with rfl | mem
        · omega
        · exact tailSorted.1 z mem

namespace Graph

/-- A graph with the given number of positions, no edges and no names. -/
def withNodes (count : Nat) : Graph where
  nodes := Array.replicate count {}

/-- The number of positions. -/
def size (g : Graph) : Nat :=
  g.nodes.size

/-- The node at a position; beyond the graph, one without neighbours. -/
def node (g : Graph) (position : Nat) : Node :=
  g.nodes[position]?.getD {}

/-- The positions that a position reads from, ascending. -/
def dependencies (g : Graph) (position : Nat) : List Nat :=
  (g.node position).readsFrom.reverse

/-- The positions that read from a position, in the order in which the edges were added. -/
def dependents (g : Graph) (position : Nat) : List Nat :=
  (g.node position).readBy.reverse

/-- The number of positions that a position reads from. -/
def inDegree (g : Graph) (position : Nat) : Nat :=
  (g.node position).inDegree

/-- Whether there is an edge. -/
def hasEdge (g : Graph) (source target : Nat) : Bool :=
  (g.node target).readsFrom.contains source

/-- The position of the action that binds a name. -/
def declarer (g : Graph) (name : Name) : Option Nat :=
  g.declarations[name]?

/-- The positions that read from none, ascending. -/
def roots (g : Graph) : List Nat :=
  (List.range g.size).filter fun position => g.inDegree position == 0

/-- Adds an edge between two positions of the graph, unless it is there. -/
def addEdge (g : Graph) (source target : Nat) : Graph :=
  match insertDescending source (g.node target).readsFrom with
  | none => g
  | some readsFrom =>
    { g with
      nodes := (g.nodes.modify target fun node =>
          { node with readsFrom, inDegree := node.inDegree + 1 }).modify source fun node =>
        { node with readBy := target :: node.readBy }
      edgeCount := g.edgeCount + 1 }

@[simp]
theorem size_withNodes (count : Nat) : (withNodes count).size = count := by
  simp [withNodes, size]

/-- An edge adds no position. -/
@[simp]
theorem size_addEdge (g : Graph) (source target : Nat) :
    (g.addEdge source target).size = g.size := by
  unfold addEdge
  split <;> simp [size]

/-- An edge binds no name. -/
@[simp]
theorem declarer_addEdge (g : Graph) (source target : Nat) (name : Name) :
    (g.addEdge source target).declarer name = g.declarer name := by
  unfold addEdge
  split <;> rfl

/-- Whether the graph has the names of a program at the positions of the program, and no others. -/
def describes (g : Graph) (program : Program) : Bool :=
  g.size == program.size && g.declarations.size == program.size &&
    program.actions.toList.zipIdx.all fun (action, position) =>
      g.declarer action.result == some position

end Graph

end Sequencer
