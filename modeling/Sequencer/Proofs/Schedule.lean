import Mathlib.Data.List.Lex
import Mathlib.Logic.Relation
import Mathlib.Order.Bounds.Basic

/-!
# Schedules

Orders of the positions below a bound in which each position comes after those it reads from, for
any relation `reads` between positions. A relation with such an order has no cycle. Among all such
orders there is a least one in the lexicographic sense, and it is the one that takes the smallest
position each time: where another order first differs from it, it has taken a smaller position.

## Main definitions

* `IsReady`: a position that may come next.
* `IsSchedule`: an order in which each position comes after those it reads from.
* `TakesLeast`: an order that always takes the smallest ready position.

## Main results

* `IsSchedule.not_transGen_self`: what has a schedule has no cycle.
* `TakesLeast.range`: the order in which nothing moves, if it is a schedule.
* `TakesLeast.lex_of_ne`: an order that takes the smallest is less than any other schedule.
* `TakesLeast.unique`: there is only one such order.
-/

namespace Sequencer

/-- A position below `count` may come after those in `done`: it is not one of them, and all that it
reads from are. -/
def IsReady (count : Nat) (reads : Nat → Nat → Prop) (done : List Nat) (position : Nat) : Prop :=
  position < count ∧ position ∉ done ∧ ∀ source, reads source position → source ∈ done

/-- An order of the positions below `count` in which each comes after those it reads from. -/
structure IsSchedule (count : Nat) (reads : Nat → Nat → Prop) (order : List Nat) : Prop where
  /-- Every position occurs, and it does so once. -/
  perm : order.Perm (List.range count)
  /-- What is read stands before what reads it. -/
  precedes : ∀ {source target}, reads source target → order.idxOf source < order.idxOf target

/-- Every position in an order is the smallest of those that may come after the ones before it. -/
def TakesLeast (count : Nat) (reads : Nat → Nat → Prop) (order : List Nat) : Prop :=
  ∀ done position rest, order = done ++ position :: rest →
    IsLeast {next | IsReady count reads done next} position

variable {count : Nat} {reads : Nat → Nat → Prop} {order other : List Nat}

/-! ### Places in a list -/

theorem idxOf_append_cons_self {done rest : List Nat} {position : Nat} (fresh : position ∉ done) :
    (done ++ position :: rest).idxOf position = done.length := by
  rw [List.idxOf_append, if_neg fresh, List.idxOf_cons_self, Nat.zero_add]

theorem idxOf_append_lt_iff {done rest : List Nat} {position : Nat} :
    (done ++ rest).idxOf position < done.length ↔ position ∈ done := by
  rw [List.idxOf_append]
  split
  · next listed => exact iff_of_true (List.idxOf_lt_length_of_mem listed) listed
  · next absent => exact iff_of_false (by omega) absent

/-- Two different lists of the same length part at some place. -/
theorem exists_parting : ∀ {xs ys : List Nat}, xs.length = ys.length → xs ≠ ys →
    ∃ done x y xs' ys', xs = done ++ x :: xs' ∧ ys = done ++ y :: ys' ∧ x ≠ y
  | [], [], _, different => absurd rfl different
  | x :: xs, y :: ys, length, different => by
    by_cases same : x = y
    · subst same
      have tails : xs ≠ ys := by
        intro equal
        exact different (congrArg _ equal)
      obtain ⟨done, x', y', xs', ys', rfl, rfl, part⟩ :=
        exists_parting (Nat.succ.inj length) tails
      exact ⟨x :: done, x', y', xs', ys', rfl, rfl, part⟩
    · exact ⟨[], x, y, xs, ys, rfl, rfl, same⟩

/-! ### Schedules and readiness -/

namespace IsSchedule

theorem nodup (schedule : IsSchedule count reads order) : order.Nodup :=
  schedule.perm.nodup_iff.mpr List.nodup_range

theorem mem_iff (schedule : IsSchedule count reads order) {position : Nat} :
    position ∈ order ↔ position < count := by
  rw [schedule.perm.mem_iff, List.mem_range]

/-- In a schedule, every position is ready when its turn comes. -/
theorem isReady {done rest : List Nat} {position : Nat}
    (schedule : IsSchedule count reads (done ++ position :: rest)) :
    IsReady count reads done position := by
  have fresh : position ∉ done := by
    intro listed
    exact (List.nodup_append.mp schedule.nodup).2.2 position listed position List.mem_cons_self rfl
  refine ⟨schedule.mem_iff.mp (by simp), fresh, ?_⟩
  intro source read
  have before := schedule.precedes read
  rw [idxOf_append_cons_self fresh] at before
  exact idxOf_append_lt_iff.mp before

theorem of_isReady (perm : order.Perm (List.range count))
    (bounded : ∀ {source target}, reads source target → target < count)
    (ready : ∀ done position rest, order = done ++ position :: rest →
      IsReady count reads done position) : IsSchedule count reads order := by
  refine ⟨perm, ?_⟩
  intro source target read
  have listed : target ∈ order := perm.mem_iff.mpr (List.mem_range.mpr (bounded read))
  obtain ⟨done, rest, rfl⟩ := List.append_of_mem listed
  obtain ⟨-, fresh, known⟩ := ready done target rest rfl
  rw [idxOf_append_cons_self fresh]
  exact idxOf_append_lt_iff.mpr (known source read)

/-- Along any path of readings the places in a schedule increase. -/
theorem idxOf_lt_of_transGen (schedule : IsSchedule count reads order) {source target : Nat}
    (path : Relation.TransGen reads source target) :
    order.idxOf source < order.idxOf target := by
  induction path with
  | single read => exact schedule.precedes read
  | tail _ read before => exact before.trans (schedule.precedes read)

theorem not_transGen_self (schedule : IsSchedule count reads order) (position : Nat) :
    ¬ Relation.TransGen reads position position := by
  intro path
  exact Nat.lt_irrefl _ (schedule.idxOf_lt_of_transGen path)

end IsSchedule

/-! ### Taking the smallest -/

namespace TakesLeast

theorem nil : TakesLeast count reads [] := by
  intro done position rest split
  simp at split

/-- An order that takes the smallest may go on with the smallest ready position. -/
theorem concat {position : Nat} (taken : TakesLeast count reads order)
    (least : IsLeast {next | IsReady count reads order next} position) :
    TakesLeast count reads (order ++ [position]) := by
  intro done here rest split
  -- Either `here` is the position put last, or it was in the order before.
  rcases List.eq_nil_or_concat rest with rfl | ⟨rest, last, rfl⟩
  · obtain ⟨sameDone, sameLast⟩ := List.append_inj' split rfl
    rw [← sameDone, ← List.singleton_inj.mp sameLast]
    exact least
  · rw [List.concat_eq_append, ← List.cons_append, ← List.append_assoc] at split
    exact taken done here rest (List.append_inj_left' split rfl)

theorem isSchedule (taken : TakesLeast count reads order) (perm : order.Perm (List.range count))
    (bounded : ∀ {source target}, reads source target → target < count) :
    IsSchedule count reads order := by
  apply IsSchedule.of_isReady perm bounded
  intro done position rest split
  exact (taken done position rest split).1

/-- If everything reads only from smaller positions, the positions may be taken as they are. -/
theorem range (below : ∀ {source target}, reads source target → source < target) :
    TakesLeast count reads (List.range count) := by
  intro done position rest split
  -- What is done when the turn comes to `position` is what lies below it.
  rw [List.range_eq_range'] at split
  obtain ⟨k, -, rfl, later⟩ := List.range'_eq_append_iff.mp split
  obtain ⟨here, inside, -⟩ := List.range'_eq_cons_iff.mp later.symm
  have mem_done : ∀ {other}, other ∈ List.range' 0 k ↔ other < position := by
    intro other
    rw [List.mem_range'_1]
    omega
  constructor
  · refine ⟨by omega, by simp [mem_done], ?_⟩
    intro source read
    exact mem_done.mpr (below read)
  · rintro next ⟨-, fresh, -⟩
    exact Nat.le_of_not_lt (mt mem_done.mpr fresh)

/-- An order that takes the smallest is less than any other schedule: at the place where they part
it has the smaller position. -/
theorem lex_of_ne (taken : TakesLeast count reads order) (perm : order.Perm (List.range count))
    (schedule : IsSchedule count reads other) (different : other ≠ order) :
    List.Lex (· < ·) order other := by
  have length := perm.length_eq.trans schedule.perm.length_eq.symm
  obtain ⟨done, x, y, xs, ys, rfl, rfl, part⟩ := exists_parting length different.symm
  -- The other schedule has `y` ready here, so `x`, the smallest that is, can only be less.
  have atMost : x ≤ y := (taken done x xs rfl).2 schedule.isReady
  exact List.Lex.append_left _ (.rel (Nat.lt_of_le_of_ne atMost part)) done

theorem unique (taken : TakesLeast count reads order) (takenOther : TakesLeast count reads other)
    (length : order.length = other.length) : order = other := by
  by_contra different
  obtain ⟨done, x, y, xs, ys, rfl, rfl, part⟩ := exists_parting length different
  exact part ((taken done x xs rfl).unique (takenOther done y ys rfl))

end TakesLeast

end Sequencer
