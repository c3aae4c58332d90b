import Sequencer.Proofs.Rearranging

/-!
# Converting a sequence again

The actions of a sequence can be declared anew, in the order of the sequence. They are those of the
program it came from, so nothing can be refused that was not refused before. Every action comes
after what it reads already, so the smallest ready position is always the next one, and nothing
moves.

## Main definitions

* `Sequence.redraft`: the draft that declares the actions of a sequence in order.

## Main results

* `Draft.exists_foldlM_add`: actions with new and distinct names can be added one after another.
* `Limits.convert_redraft`: a sequence that is declared anew is converted to itself.
-/

namespace Sequencer

/-- Adds actions with new and distinct names, which is never refused. -/
theorem Draft.exists_foldlM_add {draft : Draft} {actions : List Action}
    (distinct : (resultNames draft.actions ++ actions.map Action.result).Nodup) :
    ∃ next, actions.foldlM Draft.add draft = .ok next ∧
      next.actions.toList = draft.actions.toList ++ actions ∧ next.returns = draft.returns := by
  induction actions generalizing draft with
  | nil => exact ⟨draft, rfl, by simp, rfl⟩
  | cons action rest ih =>
    rw [List.foldlM_cons]
    -- Only a name that stands before it could be a reason to refuse the action.
    have fresh : action.result ∉ resultNames draft.actions := fun bound =>
      (List.nodup_append.mp distinct).2.2 _ bound _ List.mem_cons_self rfl
    obtain ⟨after, added, actionsAfter, returnsAfter⟩ := Draft.exists_add_of_not_mem fresh
    have names : resultNames after.actions ++ rest.map Action.result =
        resultNames draft.actions ++ (action :: rest).map Action.result := by
      simp [actionsAfter]
    obtain ⟨next, built, actionsNext, returnsNext⟩ := ih (names ▸ distinct)
    refine ⟨next, ?_, ?_, returnsNext.trans returnsAfter⟩
    · rw [added]
      exact built
    · rw [actionsNext, actionsAfter]
      simp

namespace Sequence

/-- Declares the actions of a sequence in order, and its return value if there is one. -/
def redraft (s : Sequence) : Except Failure Draft := do
  let draft ← s.actions.foldlM Draft.add Draft.empty
  match s.returns with
  | some source => draft.returning source
  | none => return draft

/-- A sequence of actions with distinct names can be declared anew. -/
theorem exists_build_redraft {s : Sequence} (nonempty : s.actions ≠ [])
    (distinct : s.results.Nodup) :
    ∃ draft program, s.redraft = .ok draft ∧ draft.build = .ok program ∧
      program.actions.toList = s.actions ∧ program.returns = s.returns := by
  have names : resultNames Draft.empty.actions ++ s.actions.map Action.result = s.results := by
    simp [resultNames, Draft.empty, results]
  obtain ⟨added, adds, actions, unset⟩ := Draft.exists_foldlM_add (names ▸ distinct)
  -- Nothing has been returned yet, so the return value can be set.
  have returned : ∃ draft, s.redraft = .ok draft ∧ draft.actions = added.actions ∧
      draft.returns = s.returns := by
    rw [redraft, adds]
    cases s.returns with
    | none => exact ⟨added, rfl, rfl, unset⟩
    | some source =>
      refine ⟨{ added with returns := some source }, ?_, rfl, rfl⟩
      change added.returning source = _
      rw [Draft.returning, Draft.setReturn_of_eq_none unset]
      rfl
  obtain ⟨draft, drafted, sameActions, sameReturns⟩ := returned
  have listed : draft.actions.toList = s.actions := by
    rw [sameActions, actions]
    rfl
  have filled : 0 < draft.actions.size := by
    rw [← Array.length_toList, listed]
    exact List.length_pos_iff.mpr nonempty
  exact ⟨draft, _, drafted, dif_pos filled, listed, sameReturns⟩

/-- If a program has the actions of another one in the order of a schedule, each of its actions
reads only from earlier ones. -/
theorem lt_of_reads {program again : Program} {order : List Nat}
    (schedule : IsSchedule program.size program.Reads order) (same : program.Rearranges again)
    (listed : again.actions.toList = (arrange program order).actions) {source target : Nat}
    (reads : again.Reads source target) : source < target := by
  obtain ⟨name, bound, reader, found, reads⟩ := reads
  have binds := same.binds_iff.mpr (Program.binds_iff_exists_nameAt?.mpr ⟨source, bound⟩)
  rw [Option.mem_def, ← Array.getElem?_toList, listed] at found
  obtain ⟨j, earlier, boundThere⟩ := exists_earlier_of_reads schedule found reads binds
  rw [← listed, Array.getElem?_toList] at boundThere
  -- The earlier place is `source` itself, since a name is bound only once.
  exact Program.nameAt?_inj bound boundThere ▸ earlier

theorem arrange_range (program : Program) :
    arrange program (List.range program.size) = ⟨program.actions.toList, program.returns⟩ := by
  rw [arrange, Program.size, filterMap_range_getElem?]

end Sequence

namespace Limits

variable {limits : Limits} {program : Program}

/-- The actions of a sequence, declared anew in its order with its return value, make a program, and
the conversion of that program within the same limits gives the same sequence. -/
theorem convert_redraft {s : Sequence} (converted : (limits.convert program).outcome = .ok s) :
    ∃ draft again, s.redraft = .ok draft ∧ draft.build = .ok again ∧
      (limits.convert again).outcome = .ok s := by
  have ends := limits.converts program
  rw [converted] at ends
  cases ends with
  | @ordered order small resolved sparse perm taken =>
    have schedule := taken.isSchedule perm fun reads => (Program.Reads.lt_size reads).2
    have permActions := Sequence.perm_actions_arrange perm
    have nonempty : (Sequence.arrange program order).actions ≠ [] := by
      rw [← List.length_pos_iff, permActions.length_eq]
      exact program.nonempty
    obtain ⟨draft, again, drafted, built, listed, returned⟩ :=
      Sequence.exists_build_redraft nonempty (Sequence.nodup_results_arrange perm)
    refine ⟨draft, again, drafted, built, ?_⟩
    have same : program.Rearranges again := ⟨listed ▸ permActions.symm, returned.symm⟩
    -- Nothing has to move, so the positions as they are make the least schedule.
    have unmoved : TakesLeast again.size again.Reads (List.range again.size) :=
      TakesLeast.range (Sequence.lt_of_reads schedule same listed)
    have acyclic := not_circular_of_takesLeast (List.Perm.refl _) unmoved
    obtain ⟨orderAgain, permAgain, takenAgain, outcome⟩ := outcome_of_not_circular
      (same.size_eq ▸ small) (same.resolved_iff.mp resolved) (same.card_dependencyPairs ▸ sparse)
      acyclic
    rw [outcome, takenAgain.unique unmoved permAgain.length_eq, Sequence.arrange_range, listed,
      returned]

end Limits

namespace Sample

/-- Two of the five actions of `diamond` had moved; declared in their new order they stay. -/
theorem convert_redraft_diamond :
    (({} : Limits).convert diamond).outcome =
        .ok (Sequence.arrange diamond [3, 1, 2, 0, 4]) ∧
      ∃ draft again, (Sequence.arrange diamond [3, 1, 2, 0, 4]).redraft = .ok draft ∧
        draft.build = .ok again ∧ (({} : Limits).convert again).outcome =
          .ok (Sequence.arrange diamond [3, 1, 2, 0, 4]) := by
  have converted : (({} : Limits).convert diamond).outcome =
      .ok (Sequence.arrange diamond [3, 1, 2, 0, 4]) := by with_unfolding_all rfl
  exact ⟨converted, Limits.convert_redraft converted⟩

end Sample

end Sequencer
