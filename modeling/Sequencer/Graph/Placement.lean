import Sequencer.Graph.Basic

/-!
# Placement

Positions are placed one after another. A position is ready once all positions that it reads from
are placed, and the smallest ready position is placed next. So a position is never overtaken by a
later one without need.

## Main definitions

* `Placement`: what has been placed, and what the others wait for.
* `Placement.step`: places the smallest ready position.
* `Graph.place`: places positions until none is ready.
-/

namespace Sequencer

/-- Adds a number to an ascending list of numbers. -/
def insertAscending (x : Nat) : List Nat → List Nat
  | [] => [x]
  | y :: rest => if x ≤ y then x :: y :: rest else y :: insertAscending x rest

@[simp]
theorem mem_insertAscending {x z : Nat} {xs : List Nat} :
    z ∈ insertAscending x xs ↔ z = x ∨ z ∈ xs := by
  induction xs with
  | nil => simp [insertAscending]
  | cons y rest ih =>
    unfold insertAscending
    split
    · simp
    · simp only [List.mem_cons, ih]
      exact or_left_comm

/-- A new number keeps a list ascending. -/
theorem pairwise_insertAscending {x : Nat} {xs : List Nat} (sorted : xs.Pairwise (· < ·))
    (new : x ∉ xs) : (insertAscending x xs).Pairwise (· < ·) := by
  induction xs with
  | nil => simp [insertAscending]
  | cons y rest ih =>
    have tailSorted := List.pairwise_cons.mp sorted
    have notHere : x ≠ y := fun same => new (same ▸ List.mem_cons_self)
    have notThere : x ∉ rest := fun mem => new (List.mem_cons_of_mem _ mem)
    unfold insertAscending
    split
    · next least =>
      refine List.pairwise_cons.mpr ⟨fun z mem => ?_, sorted⟩
      rcases List.mem_cons.mp mem with rfl | mem
      · omega
      · have := tailSorted.1 z mem
        omega
    · refine List.pairwise_cons.mpr ⟨fun z mem => ?_, ih tailSorted.2 notThere⟩
      rcases mem_insertAscending.mp mem with rfl | mem
      · omega
      · exact tailSorted.1 z mem

/-- How far placing has come. -/
structure Placement where
  /-- The positions placed, the last one first. -/
  placed : List Nat
  /-- For each position the number of positions it reads from that are not placed. -/
  waiting : Array Nat
  /-- The positions that are ready and not placed, ascending. -/
  ready : List Nat

namespace Placement

/-- Nothing is placed. -/
def start (g : Graph) : Placement where
  placed := []
  waiting := g.nodes.map Node.inDegree
  ready := g.roots

/-- The number of positions that a position still waits for. -/
def waitingAt (p : Placement) (position : Nat) : Nat :=
  p.waiting[position]?.getD 0

/-- One position less to wait for; a position with none left becomes ready. -/
def release (p : Placement) (position : Nat) : Placement :=
  let left := p.waitingAt position - 1
  { p with
    waiting := p.waiting.setIfInBounds position left
    ready := if left = 0 then insertAscending position p.ready else p.ready }

/-- Places the smallest ready position; nothing changes if there is none. -/
def step (g : Graph) (p : Placement) : Placement :=
  match p.ready with
  | [] => p
  | position :: rest =>
    (g.dependents position).foldl release
      { p with placed := position :: p.placed, ready := rest }

/-- The given number of steps. -/
def run (g : Graph) : Nat → Placement → Placement
  | 0, p => p
  | count + 1, p => run g count (p.step g)

end Placement

namespace Graph

/-- Places positions until none is ready. No position is placed twice, so as many steps suffice
as there are positions. -/
def place (g : Graph) : Placement :=
  Placement.run g g.size (Placement.start g)

end Graph

end Sequencer
