import Sequencer.Sequence
import Sequencer.Proofs.Ordering

/-!
# Programs arranged by a schedule

Arranging a program by a schedule moves its actions and changes none of them. Each name keeps its
one place, and what an action reads is bound at an earlier place.

## Main results

* `Sequence.perm_actions_arrange`: arranging permutes the actions of a program.
* `Sequence.positionOf_eq_some_iff`: a name that is bound once is found where it is bound.
* `Sequence.exists_earlier_of_reads`: what is read is bound earlier.
-/

namespace Sequencer

namespace Sequence

variable {program : Program} {order : List Nat} {name : Name}

theorem filterMap_range_getElem? {α : Type} (xs : Array α) :
    (List.range xs.size).filterMap (fun position => xs[position]?) = xs.toList := by
  have found : ∀ position ∈ List.range xs.size, (xs[position]?).isSome := by
    intro position inside
    simpa using List.mem_range.mp inside
  apply List.map_injective_iff.mpr (Option.some_injective α)
  rw [map_some_filterMap found]
  apply List.ext_getElem?
  intro position
  simp only [List.getElem?_map, Array.getElem?_toList]
  rcases Nat.lt_or_ge position xs.size with inside | outside
  · rw [List.getElem?_range inside, Array.getElem?_eq_getElem inside]
    simp [inside]
  · rw [Array.getElem?_eq_none outside, List.getElem?_eq_none (by simpa using outside)]
    rfl

theorem perm_actions_arrange (perm : order.Perm (List.range program.size)) :
    (arrange program order).actions.Perm program.actions.toList := by
  have images := perm.filterMap fun position => program.actions[position]?
  rwa [Program.size, filterMap_range_getElem?] at images

/-- The action at a place is the one at the position that the order has there. -/
theorem getElem?_actions_arrange (inside : ∀ position ∈ order, position < program.size) (k : Nat) :
    (arrange program order).actions[k]? = order[k]?.bind (program.actions[·]?) := by
  have images : (arrange program order).actions.map some =
      order.map fun position => program.actions[position]? := by
    apply map_some_filterMap
    intro position listed
    simpa [Program.size] using inside position listed
  have entry := congrArg (·[k]?) images
  simp only [List.getElem?_map] at entry
  cases there : order[k]? with
  | none =>
    rw [there, Option.map_none, Option.map_eq_none_iff] at entry
    rw [entry, Option.bind_none]
  | some position =>
    rw [there, Option.map_some, Option.map_eq_some_iff] at entry
    obtain ⟨action, found, bound⟩ := entry
    rw [found, Option.bind_some, ← bound]

theorem nodup_results_arrange (perm : order.Perm (List.range program.size)) :
    (arrange program order).results.Nodup :=
  ((perm_actions_arrange perm).map Action.result).nodup_iff.mpr program.distinct

theorem results_getElem? (s : Sequence) (k : Nat) :
    s.results[k]? = s.actions[k]?.map Action.result :=
  List.getElem?_map

/-- A name that is bound once is found at the place where it is bound. -/
theorem positionOf_eq_some_iff {s : Sequence} (distinct : s.results.Nodup) {k : Nat} :
    s.positionOf name = some k ↔ s.actions[k]?.map Action.result = some name := by
  rw [positionOf, List.findIdx?_eq_some_iff_getElem]
  constructor
  · rintro ⟨inside, bound, -⟩
    rw [List.getElem?_eq_getElem inside, Option.map_some, eq_of_beq bound]
  · intro bound
    obtain ⟨action, found, rfl⟩ := Option.map_eq_some_iff.mp bound
    obtain ⟨inside, rfl⟩ := List.getElem?_eq_some_iff.mp found
    refine ⟨inside, beq_self_eq_true _, ?_⟩
    intro j earlier same
    -- An earlier action of the same name would bind it twice.
    have insideResults : j < s.results.length := by
      rw [results, List.length_map]
      omega
    have repeated : s.results[j]? = s.results[k]? := by
      rw [results_getElem?, results_getElem?, bound, List.getElem?_eq_getElem (by omega),
        Option.map_some, eq_of_beq same]
    exact earlier.ne ((List.getElem?_inj insideResults distinct).mp repeated)

/-- In a program arranged by a schedule, what an action reads is bound at an earlier place. -/
theorem exists_earlier_of_reads (schedule : IsSchedule program.size program.Reads order)
    {i : Nat} {action : Action} (found : (arrange program order).actions[i]? = some action)
    (reads : action.Reads name) (bound : program.Binds name) :
    ∃ j < i, (arrange program order).actions[j]?.map Action.result = some name := by
  have inside : ∀ position ∈ order, position < program.size := by
    intro position listed
    exact schedule.mem_iff.mp listed
  rw [getElem?_actions_arrange inside, Option.bind_eq_some_iff] at found
  obtain ⟨target, place, foundTarget⟩ := found
  obtain ⟨source, boundSource⟩ := Program.binds_iff_exists_nameAt?.mp bound
  have dependent : program.Reads source target := ⟨name, boundSource, action, foundTarget, reads⟩
  have precedes := schedule.precedes dependent
  -- `target` stands at place `i` of the order and nowhere else, so `source` has a place below `i`.
  obtain ⟨insideOrder, rfl⟩ := List.getElem?_eq_some_iff.mp place
  rw [schedule.nodup.idxOf_getElem] at precedes
  have listed := schedule.mem_iff.mpr (Program.lt_size_of_nameAt? boundSource)
  refine ⟨order.idxOf source, precedes, ?_⟩
  rw [getElem?_actions_arrange inside, List.getElem?_idxOf listed]
  exact boundSource

end Sequence

end Sequencer
