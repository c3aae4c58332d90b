import Sequencer.Graph.Basic

/-!
# Acyclic graphs

A search for cycles that does not place anything: going along the edges from every position, no
position may be met again on the way to it. The search goes deeper only at a position that has not
been met, so how many of these are left bounds how deep it can go.

## Main definitions

* `Marks`: what a search has met, with a bound on what it has not.
* `Graph.search`: searches everything that can be reached from a position.
* `Graph.isAcyclic`: whether there is no cycle.
-/

namespace Sequencer

/-- How a search has dealt with a position. -/
inductive Mark where
  /-- It has not been met. -/
  | fresh
  /-- It is on the way to the current position. -/
  | active
  /-- Everything that can be reached from it has been searched. -/
  | done
deriving DecidableEq

/-- The marks of all positions, of which at most `unmet` have not been met. -/
structure Marks (unmet : Nat) where
  /-- The marks by position. -/
  table : Array Mark
  /-- The bound holds. -/
  count_fresh_le : table.count .fresh ≤ unmet

namespace Marks

variable {unmet : Nat}

/-- No position has been met. -/
def start (size : Nat) : Marks size where
  table := Array.replicate size .fresh
  count_fresh_le := by simp

/-- The mark of a position; there is nothing to search beyond the table. -/
def mark (marks : Marks unmet) (position : Nat) : Mark :=
  marks.table[position]?.getD .done

theorem getElem?_of_mark_eq_fresh {marks : Marks unmet} {position : Nat}
    (fresh : marks.mark position = .fresh) : marks.table[position]? = some .fresh := by
  unfold mark at fresh
  cases found : marks.table[position]? with
  | none => simp [found] at fresh
  | some mark => simpa [found] using fresh

/-- If a position has not been met, the bound is not used up. -/
theorem pos_of_mark_eq_fresh {marks : Marks unmet} {position : Nat}
    (fresh : marks.mark position = .fresh) : 0 < unmet := by
  have listed := Array.mem_of_getElem? (getElem?_of_mark_eq_fresh fresh)
  exact Nat.lt_of_lt_of_le (Array.count_pos_iff.mpr listed) marks.count_fresh_le

/-- A position is met, which leaves one less. -/
def enter (marks : Marks (unmet + 1)) (position : Nat) (fresh : marks.mark position = .fresh) :
    Marks unmet where
  table := marks.table.setIfInBounds position .active
  count_fresh_le := by
    have bound := marks.count_fresh_le
    obtain ⟨inside, here⟩ := Array.getElem?_eq_some_iff.mp (getElem?_of_mark_eq_fresh fresh)
    rw [Array.setIfInBounds, dif_pos inside, Array.count_set inside, here,
      if_pos (beq_self_eq_true _), if_neg (by decide)]
    omega

/-- A position and all that can be reached from it have been searched. -/
def leave (marks : Marks unmet) (position : Nat) : Marks (unmet + 1) where
  table := marks.table.setIfInBounds position .done
  count_fresh_le := by
    have bound := marks.count_fresh_le
    unfold Array.setIfInBounds
    split
    · next inside =>
      rw [Array.count_set inside, if_neg (by decide : ¬ (Mark.done == .fresh) = true)]
      omega
    · omega

@[simp]
theorem mark_start (size position : Nat) :
    (start size).mark position = if position < size then .fresh else .done := by
  simp only [start, mark, Array.getElem?_replicate]
  split <;> rfl

@[simp]
theorem mark_enter (marks : Marks (unmet + 1)) {entered : Nat}
    (fresh : marks.mark entered = .fresh) (position : Nat) :
    (marks.enter entered fresh).mark position =
      if entered = position then .active else marks.mark position := by
  obtain ⟨inside, -⟩ := Array.getElem?_eq_some_iff.mp (getElem?_of_mark_eq_fresh fresh)
  simp only [enter, mark, Array.getElem?_setIfInBounds, if_pos inside]
  split <;> rfl

@[simp]
theorem mark_leave (marks : Marks unmet) (left position : Nat) :
    (marks.leave left).mark position = if left = position then .done else marks.mark position := by
  simp only [leave, mark, Array.getElem?_setIfInBounds]
  split
  · split <;> rfl
  · rfl

end Marks

namespace Graph

/-- Searches everything that can be reached from a position: the marks after that, or none if a
position is met on the way to itself. -/
def search (g : Graph) : (unmet : Nat) → Marks unmet → Nat → Option (Marks unmet)
  | unmet, marks, position =>
    match met : marks.mark position with
    | .active => none
    | .done => some marks
    | .fresh =>
      match unmet with
      -- Nothing would be left to be met, and here something is.
      | 0 => absurd (Marks.pos_of_mark_eq_fresh met) (Nat.lt_irrefl 0)
      | unmet + 1 =>
        ((g.dependents position).foldlM (search g unmet) (marks.enter position met)).map
          (·.leave position)

section Search

variable {g : Graph} {unmet position : Nat}

theorem search_of_active {marks : Marks unmet} (met : marks.mark position = .active) :
    g.search unmet marks position = none := by
  unfold search
  split
  · rfl
  · next other => cases met.symm.trans other
  · next other => cases met.symm.trans other

theorem search_of_done {marks : Marks unmet} (met : marks.mark position = .done) :
    g.search unmet marks position = some marks := by
  unfold search
  split
  · next other => cases met.symm.trans other
  · rfl
  · next other => cases met.symm.trans other

/-- What a position leads to is searched with the position on the way. -/
theorem search_of_fresh {marks : Marks (unmet + 1)} (met : marks.mark position = .fresh) :
    g.search (unmet + 1) marks position =
      ((g.dependents position).foldlM (g.search unmet) (marks.enter position met)).map
        (·.leave position) := by
  rw [search]
  split
  · next other => cases met.symm.trans other
  · next other => cases met.symm.trans other
  · rfl

end Search

/-- Whether there is no cycle. -/
def isAcyclic (g : Graph) : Bool :=
  ((List.range g.size).foldlM (g.search g.size) (Marks.start g.size)).isSome

end Graph

end Sequencer
