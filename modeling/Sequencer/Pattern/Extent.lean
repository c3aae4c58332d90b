/-!
# Heights of patterns

The parts of a pattern lie within each other: items in a row, rows in a choice between alternatives,
choices in a group, groups in a repetition. The height of a part is the number of rows, choices,
groups, repetitions, classes, and unions and operations in classes that lie within each other there,
the part itself included. A row of a single item, and a choice of a single row, do not count: they
are that item, and that row.

## Main definitions

* `Pattern.Row`: items in a row, of which only the heights are kept.
* `Pattern.Extent`: a row with what it is combined with.
-/

namespace Sequencer.Pattern

/-- Items in a row, by their heights. -/
structure Row where
  /-- The number of items. -/
  count : Nat := 0
  /-- The greatest height of the items before the last one. -/
  tallest : Nat := 0
  /-- The height of the last item. -/
  last : Nat := 0
deriving DecidableEq

namespace Row

/-- Adds an item of the given height. -/
def push (row : Row) (height : Nat) : Row where
  count := row.count + 1
  tallest := max row.tallest row.last
  last := height

/-- Repeats the last item. -/
def repeated (row : Row) : Row :=
  { row with last := row.last + 1 }

/-- The height of a row. -/
def height (row : Row) : Nat :=
  if row.count ≤ 1 then row.last else max row.tallest row.last + 1

@[simp]
theorem height_empty : ({} : Row).height = 0 :=
  rfl

theorem height_push_empty (h : Nat) : (({} : Row).push h).height = h :=
  rfl

/-- Every item is below the row. -/
theorem le_height_push (row : Row) (h : Nat) : h ≤ (row.push h).height := by
  unfold height
  by_cases alone : (row.push h).count ≤ 1
  · rw [if_pos alone]
    exact Nat.le_refl h
  · rw [if_neg alone]
    exact Nat.le_succ_of_le (Nat.le_max_right _ h)

end Row

/-- A row, and the height of what stands before it and is combined with it. -/
structure Extent where
  /-- The row. -/
  row : Row := {}
  /-- The height of what stands before the row, if anything does. -/
  before : Option Nat := none
deriving DecidableEq

namespace Extent

/-- Adds an item of the given height to the row. -/
def push (extent : Extent) (height : Nat) : Extent :=
  { extent with row := extent.row.push height }

/-- Adds so many items that have no parts. -/
def pushLeaves (extent : Extent) : Nat → Extent
  | 0 => extent
  | count + 1 => (extent.push 0).pushLeaves count

/-- Repeats the last item of the row. -/
def repeated (extent : Extent) : Extent :=
  { extent with row := extent.row.repeated }

/-- The height of all, combined. -/
def height (extent : Extent) : Nat :=
  match extent.before with
  | none => extent.row.height
  | some before => max before extent.row.height + 1

/-- Begins a new row as a further alternative. The alternatives lie side by side. -/
def alternative (extent : Extent) : Extent where
  before := some (max (extent.before.getD 0) extent.row.height)

/-- Begins a new row as the right side of an operation. What stands before is its left side. -/
def operation (extent : Extent) : Extent where
  before := some extent.height

end Extent

end Sequencer.Pattern
