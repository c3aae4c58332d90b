import Sequencer.Graph.Placement
import Sequencer.Log.Traced

/-!
# Orders

The order in which the positions of a program are placed. It is refused if the graph is about
other results than the program's, and if some positions wait for each other.

Every position that is left waits for another one that is left. Following the smallest of these
from the first position left must come back to a position passed before, which closes a cycle.
The cycle is given in the direction of the edges and starts with its smallest position.

## Main definitions

* `Graph.findCycle`: the cycle that is found among the positions left.
* `Graph.order`: the order of a program.
-/

namespace Sequencer

/-! ### Cycles among positions that cannot be placed -/

namespace Placement

/-- The first position that still waits for others. -/
def firstWaiting (p : Placement) : Option Nat :=
  (List.range p.waiting.size).find? fun position => 0 < p.waitingAt position

/-- The smallest position that a position reads from and that still waits for others. -/
def nextWaiting (g : Graph) (p : Placement) (position : Nat) : Option Nat :=
  (g.dependencies position).find? fun source => 0 < p.waitingAt source

/-- Follows waiting positions from `current` until one is met that was passed before, and gives what
was passed from there on in the direction of the edges, which is against that of the walk. The trail
has the last position first. -/
def follow (g : Graph) (p : Placement) : Nat → List Nat → Nat → List Nat
  | 0, _, _ => []
  | count + 1, trail, current =>
    if trail.contains current then
      let walk := trail.reverse
      (walk.drop (walk.idxOf current)).reverse
    else match p.nextWaiting g current with
      | none => []
      | some next => follow g p count (current :: trail) next

end Placement

/-- A cyclic list of numbers, turned to start with its smallest member. -/
def startAtLeast (cycle : List Nat) : List Nat :=
  match cycle.min? with
  | none => []
  | some least => cycle.rotateLeft (cycle.idxOf least)

/-- A cycle of positions that wait for each other; none if nothing waits. After as many steps as
there are positions, one more must meet the trail. -/
def Graph.findCycle (g : Graph) (p : Placement) : List Nat :=
  match p.firstWaiting with
  | none => []
  | some first => startAtLeast (p.follow g (g.size + 1) [] first)

/-! ### Orders -/

/-- The number of positions of an order that differ from their place in it. -/
def countMoved (order : List Nat) : Nat :=
  order.zipIdx.countP fun (position, place) => position != place

/-- Whether some position of an order differs from its place in it. -/
def isMoved (order : List Nat) : Bool :=
  order.zipIdx.any fun (position, place) => position != place

/-- The names that a program binds at the given positions. -/
def Program.namesAt (program : Program) (positions : List Nat) : List Name :=
  positions.filterMap fun position => program.actions[position]?.map Action.result

namespace Graph

/-- The failure of positions that wait for each other. -/
def cycleFailure : List Name → Failure
  | [] => .malformed .cycleNotLocated
  | name :: rest => .dependencyCycle name (name :: rest)

/-- The positions of a program in an order in which each comes after those it reads from. -/
def order (g : Graph) (program : Program) : Traced (List Nat) :=
  if g.describes program then
    let placement := g.place
    let order := placement.placed.reverse
    if order.length < g.size then
      let cycle := program.namesAt (g.findCycle placement)
      ⟨[.cycleFound order.length g.size cycle.length], .error (cycleFailure cycle)⟩
    else
      ⟨[.ordered order.length (countMoved order)], .ok order⟩
  else
    ⟨[.foreignGraph g.size program.size], .error (.malformed .foreignGraph)⟩

end Graph

end Sequencer
