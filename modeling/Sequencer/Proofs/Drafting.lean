import Mathlib.Data.List.Induction
import Sequencer.Program

/-!
# Runs of calls on a draft

Actions are added to a draft and its return value is set in any order, and calls that are refused
may stand between the others. What a run leaves behind depends on its calls alone: the actions are
those that bind a name first, the return value is the first one that was given, and a call is
refused exactly if an earlier call, refused or not, has taken its name or its place.

The step lemma says what one more call does to a draft that records a run, and the run lemma
follows by induction on the calls.

## Main definitions

* `Draft.Call`: the two ways to extend a draft.
* `Draft.perform`: the draft after a call, and the answer to the call.
* `Draft.run`: the draft after a run of calls.
* `Draft.firstBinders`: the actions whose names are not bound before them.
* `Draft.refusal`: why a call is refused after a run, if it is.

## Main results

* `Draft.Records.step`, `Draft.records_run`: what a call and a run of calls leave behind.
* `Draft.run_keeps_first`: all that can be seen of a run and of the program built after it.
-/

namespace Sequencer.Draft

/-- A way to extend a draft. -/
inductive Call where
  /-- Adds an action. -/
  | add (action : Action)
  /-- Sets the return value. -/
  | returning (source : Source)

/-- Makes a call: the draft after it, and why it is refused, if it is. -/
def perform (draft : Draft) : Call → Draft × Option Failure
  | .add action => draft.enter action
  | .returning source => draft.setReturn source

/-- Makes a call of a chain, which ends if the call is refused. -/
def chain (draft : Draft) : Call → Except Failure Draft
  | .add action => draft.add action
  | .returning source => draft.returning source

/-- The draft after a call, whatever its answer. -/
def after (draft : Draft) (call : Call) : Draft :=
  (draft.perform call).1

/-- The draft after a run of calls from the start. -/
def run (calls : List Call) : Draft :=
  calls.foldl after empty

/-! ### What a run says by its calls alone -/

/-- The action that a call tries to add. -/
def Call.action? : Call → Option Action
  | .add action => some action
  | .returning _ => none

/-- The return value that a call tries to set. -/
def Call.source? : Call → Option Source
  | .add _ => none
  | .returning source => some source

/-- The actions of a run, the refused ones included. -/
def added (calls : List Call) : List Action :=
  calls.filterMap Call.action?

/-- The return values of a run, the refused ones included. -/
def returned (calls : List Call) : List Source :=
  calls.filterMap Call.source?

/-- The actions whose names are not bound by an action before them. -/
def firstBinders (actions : List Action) : List Action :=
  (actions.zipIdx.filter fun entry =>
    entry.1.result ∉ (actions.take entry.2).map Action.result).map Prod.fst

/-- Why a call is refused after a run, if it is. -/
def refusal (calls : List Call) : Call → Option Failure
  | .add action =>
    if action.result ∈ (added calls).map Action.result then
      some (.duplicateDeclaration action.result)
    else none
  | .returning _ =>
    if returned calls = [] then none else some (.malformed .returnAlreadySet)

theorem mem_added {calls : List Call} {action : Action} :
    action ∈ added calls ↔ Call.add action ∈ calls := by
  rw [added, List.mem_filterMap]
  constructor
  · rintro ⟨call, listed, adds⟩
    cases call with
    | add other =>
      cases adds
      exact listed
    | returning source => cases adds
  · intro listed
    exact ⟨.add action, listed, rfl⟩

theorem added_concat (calls : List Call) (call : Call) :
    added (calls ++ [call]) = added calls ++ call.action?.toList := by
  cases call <;> simp [added, Call.action?]

theorem returned_concat (calls : List Call) (call : Call) :
    returned (calls ++ [call]) = returned calls ++ call.source?.toList := by
  cases call <;> simp [returned, Call.source?]

/-- One more action is a first binder if its name is new, and changes nothing about the others. -/
theorem firstBinders_concat (actions : List Action) (action : Action) :
    firstBinders (actions ++ [action]) =
      if action.result ∈ actions.map Action.result then firstBinders actions
      else firstBinders actions ++ [action] := by
  -- What stands before one of the old actions is the same with and without the new one.
  have before : ∀ entry ∈ actions.zipIdx,
      (actions ++ [action]).take entry.2 = actions.take entry.2 := by
    intro entry listed
    have inside := List.snd_lt_of_mem_zipIdx listed
    exact List.take_append_of_le_length (by omega)
  rw [firstBinders, List.zipIdx_append, List.filter_append, List.map_append,
    List.filter_congr fun entry listed => by rw [before entry listed], ← firstBinders]
  split <;> simp_all

theorem mem_map_result_firstBinders {actions : List Action} {name : Name} :
    name ∈ (firstBinders actions).map Action.result ↔ name ∈ actions.map Action.result := by
  induction actions using List.reverseRecOn generalizing name with
  | nil => rfl
  | append_singleton actions action known =>
    rw [firstBinders_concat, List.map_append, List.mem_append]
    split
    next bound =>
      -- The name of the last action is bound before it, so it adds none.
      rw [known, List.map_singleton, List.mem_singleton]
      constructor
      · exact Or.inl
      · rintro (listed | rfl)
        · exact listed
        · exact bound
    next => rw [List.map_append, List.mem_append, known]

/-! ### What a run leaves behind -/

/-- A draft that holds what a run leaves behind. -/
structure Records (calls : List Call) (draft : Draft) : Prop where
  actions : draft.actions.toList = firstBinders (added calls)
  returns : draft.returns = (returned calls).head?

namespace Records

variable {calls : List Call} {draft : Draft}

theorem mem_resultNames (records : Records calls draft) {name : Name} :
    name ∈ resultNames draft.actions ↔ name ∈ (added calls).map Action.result := by
  rw [resultNames, records.actions, mem_map_result_firstBinders]

theorem enter_of_bound (records : Records calls draft) {action : Action}
    (bound : action.result ∈ (added calls).map Action.result) :
    draft.enter action = (draft, some (.duplicateDeclaration action.result)) ∧
      Records (calls ++ [.add action]) draft := by
  refine ⟨enter_of_mem (records.mem_resultNames.mpr bound), ?_, ?_⟩
  · rw [records.actions, added_concat, Call.action?, Option.toList_some, firstBinders_concat,
      if_pos bound]
  · rw [records.returns, returned_concat, Call.source?, Option.toList_none, List.append_nil]

theorem enter_of_new (records : Records calls draft) {action : Action}
    (new : action.result ∉ (added calls).map Action.result) :
    ∃ next, draft.enter action = (next, none) ∧ Records (calls ++ [.add action]) next := by
  obtain ⟨next, entered, actions, returns⟩ := enter_of_not_mem (mt records.mem_resultNames.mp new)
  refine ⟨next, entered, ?_, ?_⟩
  · rw [actions, Array.toList_push, records.actions, added_concat, Call.action?,
      Option.toList_some, firstBinders_concat, if_neg new]
  · rw [returns, records.returns, returned_concat, Call.source?, Option.toList_none,
      List.append_nil]

theorem setReturn_of_set (records : Records calls draft) {source : Source}
    (set : returned calls ≠ []) :
    draft.setReturn source = (draft, some (.malformed .returnAlreadySet)) ∧
      Records (calls ++ [.returning source]) draft := by
  obtain ⟨first, rest, sources⟩ := List.exists_cons_of_ne_nil set
  have first := records.returns
  rw [sources, List.head?_cons] at first
  refine ⟨setReturn_of_isSome (by rw [first, Option.isSome_some]), ?_, ?_⟩
  · rw [records.actions, added_concat, Call.action?, Option.toList_none, List.append_nil]
  · rw [first, returned_concat, sources, List.cons_append, List.head?_cons]

theorem setReturn_of_unset (records : Records calls draft) (source : Source)
    (unset : returned calls = []) :
    ∃ next, draft.setReturn source = (next, none) ∧
      Records (calls ++ [.returning source]) next := by
  have nothing := records.returns
  rw [unset, List.head?_nil] at nothing
  refine ⟨_, setReturn_of_eq_none nothing, ?_, ?_⟩
  · rw [records.actions, added_concat, Call.action?, Option.toList_none, List.append_nil]
  · rw [returned_concat, unset, Call.source?, Option.toList_some, List.nil_append,
      List.head?_cons]

/-- What one more call does: it is refused as its run says and leaves the draft as it is, or it is
accepted. In both cases the draft holds what the longer run leaves behind. -/
theorem step (records : Records calls draft) (call : Call) :
    (∃ failure, refusal calls call = some failure ∧ draft.perform call = (draft, some failure) ∧
        Records (calls ++ [call]) draft) ∨
      ∃ next, refusal calls call = none ∧ draft.perform call = (next, none) ∧
        Records (calls ++ [call]) next := by
  cases call with
  | add action =>
    by_cases bound : action.result ∈ (added calls).map Action.result
    · exact Or.inl ⟨_, if_pos bound, records.enter_of_bound bound⟩
    · obtain ⟨next, enters, records⟩ := records.enter_of_new bound
      exact Or.inr ⟨next, if_neg bound, enters, records⟩
  | returning source =>
    by_cases unset : returned calls = []
    · obtain ⟨next, sets, records⟩ := records.setReturn_of_unset source unset
      exact Or.inr ⟨next, if_pos unset, sets, records⟩
    · exact Or.inl ⟨_, if_neg unset, records.setReturn_of_set unset⟩

end Records

theorem chain_eq (draft : Draft) (call : Call) :
    draft.chain call = accepted (draft.perform call) := by
  cases call <;> rfl

theorem run_concat (calls : List Call) (call : Call) :
    run (calls ++ [call]) = (run calls).after call := by
  rw [run, List.foldl_append]
  rfl

/-- What a run leaves behind. -/
theorem records_run (calls : List Call) : Records calls (run calls) := by
  induction calls using List.reverseRecOn with
  | nil => exact ⟨rfl, rfl⟩
  | append_singleton calls call records =>
    rw [run_concat, after]
    obtain ⟨failure, -, performed, records⟩ | ⟨next, -, performed, records⟩ := records.step call
    · rwa [performed]
    · rwa [performed]

/-- Every call of a run is answered as the calls before it say. -/
theorem perform_run (calls : List Call) (call : Call) :
    (∃ failure, refusal calls call = some failure ∧
        (run calls).perform call = (run calls, some failure) ∧
        (run calls).chain call = .error failure ∧ run (calls ++ [call]) = run calls) ∨
      refusal calls call = none ∧ (run calls).perform call = (run (calls ++ [call]), none) ∧
        (run calls).chain call = .ok (run (calls ++ [call])) := by
  rw [run_concat, after, chain_eq]
  obtain ⟨failure, reason, performed, -⟩ | ⟨next, none, performed, -⟩ :=
    (records_run calls).step call
  · rw [performed]
    exact Or.inl ⟨failure, reason, rfl, rfl, rfl⟩
  · rw [performed]
    exact Or.inr ⟨none, rfl, rfl⟩

theorem mem_resultNames_run {calls : List Call} {name : Name} :
    name ∈ resultNames (run calls).actions ↔
      ∃ action, .add action ∈ calls ∧ action.result = name := by
  rw [(records_run calls).mem_resultNames, List.mem_map]
  simp only [mem_added]

theorem build_eq_ok {draft : Draft} {program : Program} (built : draft.build = .ok program) :
    program.actions = draft.actions ∧ program.returns = draft.returns := by
  unfold build at built
  split at built
  · cases built
    exact ⟨rfl, rfl⟩
  · cases built

theorem exists_build_iff {draft : Draft} :
    (∃ program, draft.build = .ok program) ↔ ∃ name, name ∈ resultNames draft.actions := by
  have filled : 0 < draft.actions.size ↔ ∃ name, name ∈ resultNames draft.actions := by
    rw [← List.length_pos_iff_exists_mem, resultNames, List.length_map, Array.length_toList]
  rw [← filled]
  unfold build
  split
  next nonempty => exact iff_of_true ⟨_, rfl⟩ nonempty
  next empty => exact iff_of_false (by simp) empty

/-- For every run of calls in any order, with refused calls anywhere in it:

* the actions of the draft are, in call order, those whose name no earlier call of the run tried
  to bind;
* its return value is the first one that was given;
* the names kept for look-up are those of its actions, which are the names that the run tried to
  bind;
* every call of the run was answered as the calls before it say: a name that one of them tried to
  bind and a return value after another one were refused and left the draft as it was, and
  everything else was accepted; in a chain the same calls are refused, for the same reasons;
* a program can be built exactly if the run tried to add an action. It has the actions and the
  return value of the draft, and no two of its actions bind the same name. -/
theorem run_keeps_first (calls : List Call) :
    (run calls).actions.toList = firstBinders (added calls) ∧
    (run calls).returns = (returned calls).head? ∧
    (∀ name, name ∈ (run calls).declared ↔ name ∈ resultNames (run calls).actions) ∧
    (∀ name, name ∈ (run calls).declared ↔ ∃ action, .add action ∈ calls ∧ action.result = name) ∧
    (∀ before call later, calls = before ++ call :: later →
      (∃ failure, refusal before call = some failure ∧
        (run before).perform call = (run before, some failure) ∧
        (run before).chain call = .error failure ∧ run (before ++ [call]) = run before) ∨
      refusal before call = none ∧ (run before).perform call = (run (before ++ [call]), none) ∧
        (run before).chain call = .ok (run (before ++ [call]))) ∧
    ((∃ program, (run calls).build = .ok program) ↔ ∃ action, .add action ∈ calls) ∧
    ∀ program, (run calls).build = .ok program →
      program.actions.toList = firstBinders (added calls) ∧
      program.returns = (returned calls).head? ∧ (resultNames program.actions).Nodup := by
  have records := records_run calls
  refine ⟨records.actions, records.returns, (run calls).mem_declared, ?_, ?_, ?_, ?_⟩
  · intro name
    rw [(run calls).mem_declared, mem_resultNames_run]
  · intro before call later _
    exact perform_run before call
  · simp only [exists_build_iff, mem_resultNames_run]
    constructor
    · rintro ⟨name, action, listed, -⟩
      exact ⟨action, listed⟩
    · rintro ⟨action, listed⟩
      exact ⟨action.result, action, listed, rfl⟩
  · intro program built
    obtain ⟨actions, returns⟩ := build_eq_ok built
    rw [actions, returns]
    exact ⟨records.actions, records.returns, (run calls).distinct⟩

end Sequencer.Draft
