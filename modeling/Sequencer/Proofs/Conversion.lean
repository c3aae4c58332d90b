import Sequencer.Limits
import Sequencer.Proofs.Arrangement

/-!
# Every way a conversion can end

A conversion ends in one of five ways, each with what it says about the program: too many actions,
a name that is read and not bound, too many dependencies, a cycle, or a sequence. The ways exclude
each other, and the first one that applies is taken.

## Main definitions

* `Program.Circular`: some action depends on itself.
* `Limits.Converts`: the five ways, as a relation between a program and an outcome.

## Main results

* `Limits.converts`: every conversion ends in one of these ways.
* `Limits.outcome_of_not_circular` and the lemmas before it: if a way is the first that applies, it
  is taken.
* `Limits.convert_binds_before_use`: a sequence has the actions of its program, each after what it
  reads.
* `Limits.convert_decides`: each way is taken exactly if it is the first that applies.
* `Limits.convert_reports_cycle`: a reported cycle is one, from its earliest action.
-/

namespace Sequencer

/-- Some action reads its own result, directly or through others. -/
def Program.Circular (program : Program) : Prop :=
  ∃ position, Relation.TransGen program.Reads position position

namespace Limits

variable {limits : Limits} {program : Program}

/-- How a conversion can end, and what is true of the program then. -/
inductive Converts (limits : Limits) (program : Program) : Except Failure Sequence → Prop
  | tooManyActions (large : limits.maxActions.toNat < program.size) :
      Converts limits program (.error (.tooManyActions program.size limits.maxActions.toNat))
  | unresolved {name : Name} {reader : Option Name}
      (small : ¬ limits.maxActions.toNat < program.size)
      (first : program.readings.find? (fun reading => ¬ program.Binds reading.1) =
        some (name, reader)) :
      Converts limits program (.error (.unresolvedReference name reader))
  | tooManyEdges (small : ¬ limits.maxActions.toNat < program.size) (resolved : program.Resolved)
      (dense : limits.maxEdges.toNat < program.dependencyPairs.card) :
      Converts limits program
        (.error (.tooManyEdges program.dependencyPairs.card limits.maxEdges.toNat))
  | cycle {name : Name} {cycle : List Name} (small : ¬ limits.maxActions.toNat < program.size)
      (resolved : program.Resolved)
      (sparse : ¬ limits.maxEdges.toNat < program.dependencyPairs.card)
      (circular : program.Circular) (isCycle : program.IsCycleFrom name cycle) :
      Converts limits program (.error (.dependencyCycle name cycle))
  | ordered {order : List Nat} (small : ¬ limits.maxActions.toNat < program.size)
      (resolved : program.Resolved)
      (sparse : ¬ limits.maxEdges.toNat < program.dependencyPairs.card)
      (perm : order.Perm (List.range program.size))
      (taken : TakesLeast program.size program.Reads order) :
      Converts limits program (.ok (Sequence.arrange program order))

theorem outcome_convert (limits : Limits) (program : Program) :
    (limits.convert program).outcome =
      if limits.maxActions.toNat < program.size then
        .error (.tooManyActions program.size limits.maxActions.toNat)
      else
        match Graph.link program with
        | .error unresolved => .error unresolved.failure
        | .ok g =>
          if limits.maxEdges.toNat < g.edgeCount then
            .error (.tooManyEdges g.edgeCount limits.maxEdges.toNat)
          else (g.order program).outcome.map (Sequence.arrange program) := by
  rw [convert]
  split
  · rfl
  · rw [Traced.outcome_bind, Traced.outcome_bind, Graph.ofProgram]
    cases Graph.link program with
    | error unresolved => rfl
    | ok g =>
      -- Only the outcome counts: the reports around it are dropped by definition.
      change (ite _ _ _ : Traced Sequence).outcome = ite _ _ _
      by_cases dense : limits.maxEdges.toNat < g.edgeCount
      · rw [if_pos dense, if_pos dense]
        rfl
      · rw [if_neg dense, if_neg dense, Traced.outcome_bind]
        cases (g.order program).outcome <;> rfl

/-- Every conversion ends in one of these ways. -/
theorem converts (limits : Limits) (program : Program) :
    limits.Converts program (limits.convert program).outcome := by
  rw [outcome_convert]
  split
  · next large => exact .tooManyActions large
  next small =>
  cases linked : Graph.link program with
  | error unresolved =>
    rw [Graph.link_eq] at linked
    split at linked
    · next reading first =>
      cases linked
      exact .unresolved small first
    · cases linked
  | ok g =>
    have represents := Graph.represents_of_link linked
    have resolved := Graph.exists_link_iff_resolved.mp ⟨g, linked⟩
    simp only [represents.edgeCount_eq]
    split
    · next dense => exact .tooManyEdges small resolved dense
    next sparse =>
    rcases represents.order_cases with
      ⟨order, ordered, perm, taken⟩ | ⟨circular, name, cycle, failed, isCycle⟩
    · rw [ordered]
      exact .ordered small resolved sparse perm taken
    · rw [failed]
      exact .cycle small resolved sparse circular isCycle

/-! ### What a sequence keeps and adds -/

/-- A sequence has the actions of its program, each of them once and unchanged. Every name that an
action reads is bound at one place, which comes before the action and is where the name is found.
The return value is that of the program, and every name that it reads is bound. -/
theorem convert_binds_before_use {s : Sequence}
    (converted : (limits.convert program).outcome = .ok s) :
    s.actions.Perm program.actions.toList ∧
      (∀ i action, s.actions[i]? = some action → ∀ name, action.Reads name →
        ∃ j < i, s.positionOf name = some j ∧
          ∀ k, s.actions[k]?.map Action.result = some name ↔ k = j) ∧
      s.returns = program.returns ∧
      ∀ source ∈ s.returns, ∀ name, source.Mentions name →
        ∃ action ∈ s.actions, action.result = name := by
  have ends := limits.converts program
  rw [converted] at ends
  -- The other four ways end in a failure.
  cases ends with
  | @ordered order small resolved sparse perm taken =>
    have schedule := taken.isSchedule perm fun reads => (Program.Reads.lt_size reads).2
    have permActions := Sequence.perm_actions_arrange perm
    have found : ∀ {name k}, (Sequence.arrange program order).positionOf name = some k ↔
        (Sequence.arrange program order).actions[k]?.map Action.result = some name :=
      Sequence.positionOf_eq_some_iff (Sequence.nodup_results_arrange perm)
    refine ⟨permActions, ?_, rfl, ?_⟩
    · intro i action there name reads
      have member : action ∈ program.actions :=
        Array.mem_toList_iff.mp (permActions.mem_iff.mp (List.mem_of_getElem? there))
      have bound := resolved.1 action member name reads
      obtain ⟨j, earlier, boundThere⟩ := Sequence.exists_earlier_of_reads schedule there reads bound
      refine ⟨j, earlier, found.mpr boundThere, ?_⟩
      intro k
      rw [← found, found.mpr boundThere, Option.some_inj, eq_comm]
    · intro source returned name inside
      obtain ⟨action, member, bound⟩ := resolved.2 source returned name inside
      exact ⟨action, permActions.mem_iff.mpr (Array.mem_toList_iff.mpr member), bound⟩

/-- `d`, which reads `c` inside an object, comes after it. -/
theorem convert_diamond :
    (({} : Limits).convert Sample.diamond).outcome =
        .ok (Sequence.arrange Sample.diamond [3, 1, 2, 0, 4]) ∧
      (Sequence.arrange Sample.diamond [3, 1, 2, 0, 4]).actions.Perm
        Sample.diamond.actions.toList ∧
      ∃ j < 3, (Sequence.arrange Sample.diamond [3, 1, 2, 0, 4]).positionOf Sample.c = some j := by
  have converted : (({} : Limits).convert Sample.diamond).outcome =
      .ok (Sequence.arrange Sample.diamond [3, 1, 2, 0, 4]) := by with_unfolding_all rfl
  obtain ⟨perm, earlier, -⟩ := convert_binds_before_use converted
  obtain ⟨j, before, found, -⟩ := earlier 3 _ rfl Sample.c (by decide)
  exact ⟨converted, perm, j, before, found⟩

/-! ### Which way a conversion ends -/

theorem not_resolved_of_find? {reading : Name × Option Name}
    (first : program.readings.find? (fun reading => ¬ program.Binds reading.1) = some reading) :
    ¬ program.Resolved := by
  intro resolved
  have listed := List.mem_of_find?_eq_some first
  have unbound := List.find?_some first
  exact of_decide_eq_true unbound (Program.resolved_iff_forall_readings.mp resolved _ listed)

theorem not_circular_of_takesLeast {order : List Nat} (perm : order.Perm (List.range program.size))
    (taken : TakesLeast program.size program.Reads order) : ¬ program.Circular := by
  rintro ⟨position, path⟩
  have schedule := taken.isSchedule perm fun reads => (Program.Reads.lt_size reads).2
  exact schedule.not_transGen_self position path

section Applies

theorem outcome_of_tooManyActions (large : limits.maxActions.toNat < program.size) :
    (limits.convert program).outcome =
      .error (.tooManyActions program.size limits.maxActions.toNat) := by
  have ends := limits.converts program
  generalize (limits.convert program).outcome = outcome at ends
  cases ends with
  | tooManyActions => rfl
  | unresolved small | tooManyEdges small | cycle small | ordered small => exact absurd large small

variable (small : ¬ limits.maxActions.toNat < program.size)

include small

/-- If a name that is read is not bound, the first such is the failure. -/
theorem outcome_of_not_resolved (unresolved : ¬ program.Resolved) :
    ∃ name reader, program.readings.find? (fun reading => ¬ program.Binds reading.1) =
        some (name, reader) ∧
      (limits.convert program).outcome = .error (.unresolvedReference name reader) := by
  have ends := limits.converts program
  generalize (limits.convert program).outcome = outcome at ends
  cases ends with
  | tooManyActions large => exact absurd large small
  | unresolved _ first => exact ⟨_, _, first, rfl⟩
  | tooManyEdges _ resolved | cycle _ resolved | ordered _ resolved =>
    exact absurd resolved unresolved

variable (resolved : program.Resolved)

include resolved

theorem outcome_of_tooManyEdges (dense : limits.maxEdges.toNat < program.dependencyPairs.card) :
    (limits.convert program).outcome =
      .error (.tooManyEdges program.dependencyPairs.card limits.maxEdges.toNat) := by
  have ends := limits.converts program
  generalize (limits.convert program).outcome = outcome at ends
  cases ends with
  | tooManyActions large => exact absurd large small
  | unresolved _ first => exact absurd resolved (not_resolved_of_find? first)
  | tooManyEdges => rfl
  | cycle _ _ sparse | ordered _ _ sparse => exact absurd dense sparse

variable (sparse : ¬ limits.maxEdges.toNat < program.dependencyPairs.card)

include sparse

theorem outcome_of_circular (circular : program.Circular) :
    ∃ name cycle,
      (limits.convert program).outcome = .error (.dependencyCycle name cycle) := by
  have ends := limits.converts program
  generalize (limits.convert program).outcome = outcome at ends
  cases ends with
  | tooManyActions large => exact absurd large small
  | unresolved _ first => exact absurd resolved (not_resolved_of_find? first)
  | tooManyEdges _ _ dense => exact absurd dense sparse
  | cycle => exact ⟨_, _, rfl⟩
  | ordered _ _ _ perm taken => exact absurd circular (not_circular_of_takesLeast perm taken)

/-- If nothing speaks against it, the program is arranged by its least schedule. -/
theorem outcome_of_not_circular (acyclic : ¬ program.Circular) :
    ∃ order, order.Perm (List.range program.size) ∧
      TakesLeast program.size program.Reads order ∧
      (limits.convert program).outcome = .ok (Sequence.arrange program order) := by
  have ends := limits.converts program
  generalize (limits.convert program).outcome = outcome at ends
  cases ends with
  | tooManyActions large => exact absurd large small
  | unresolved _ first => exact absurd resolved (not_resolved_of_find? first)
  | tooManyEdges _ _ dense => exact absurd dense sparse
  | cycle _ _ _ circular => exact absurd circular acyclic
  | ordered _ _ _ perm taken => exact ⟨_, perm, taken, rfl⟩

end Applies

/-- The way a conversion ends is decided by the first of these that applies: there are more actions
than allowed; a name is read that no action binds; more pairs of actions depend on each other than
allowed; an action depends on itself. Otherwise there is a sequence. -/
theorem convert_decides (limits : Limits) (program : Program) :
    ((limits.convert program).outcome =
        .error (.tooManyActions program.size limits.maxActions.toNat) ↔
      limits.maxActions.toNat < program.size) ∧
    ((∃ name reader,
        (limits.convert program).outcome = .error (.unresolvedReference name reader)) ↔
      ¬ limits.maxActions.toNat < program.size ∧ ¬ program.Resolved) ∧
    ((limits.convert program).outcome =
        .error (.tooManyEdges program.dependencyPairs.card limits.maxEdges.toNat) ↔
      ¬ limits.maxActions.toNat < program.size ∧ program.Resolved ∧
        limits.maxEdges.toNat < program.dependencyPairs.card) ∧
    ((∃ name cycle, (limits.convert program).outcome = .error (.dependencyCycle name cycle)) ↔
      ¬ limits.maxActions.toNat < program.size ∧ program.Resolved ∧
        ¬ limits.maxEdges.toNat < program.dependencyPairs.card ∧ program.Circular) ∧
    ((∃ s, (limits.convert program).outcome = .ok s) ↔
      ¬ limits.maxActions.toNat < program.size ∧ program.Resolved ∧
        ¬ limits.maxEdges.toNat < program.dependencyPairs.card ∧ ¬ program.Circular) ∧
    ∀ failure, (limits.convert program).outcome = .error failure →
      failure = .tooManyActions program.size limits.maxActions.toNat ∨
      (∃ name reader, failure = .unresolvedReference name reader) ∨
      failure = .tooManyEdges program.dependencyPairs.card limits.maxEdges.toNat ∨
      ∃ name cycle, failure = .dependencyCycle name cycle := by
  have ends := limits.converts program
  generalize (limits.convert program).outcome = outcome at ends
  -- The conditions of the five ways exclude each other, so one way settles all equivalences.
  cases ends with
  | tooManyActions large => simp [large]
  | unresolved small first => simp [small, not_resolved_of_find? first]
  | tooManyEdges small resolved dense => simp [small, resolved, dense]
  | cycle small resolved sparse circular isCycle => simp [small, resolved, sparse, circular]
  | ordered small resolved sparse perm taken =>
    simp [small, resolved, sparse, not_circular_of_takesLeast perm taken]

/-! ### What a cycle says -/

/-- If a conversion, or the order of a program by its own graph, fails with a cycle, then it is a
cycle of the program and starts with its earliest action. -/
theorem convert_reports_cycle {name : Name} {cycle : List Name}
    (failed : (limits.convert program).outcome = .error (.dependencyCycle name cycle) ∨
      ∃ g, (Graph.ofProgram program).outcome = .ok g ∧
        (g.order program).outcome = .error (.dependencyCycle name cycle)) :
    program.IsCycleFrom name cycle := by
  rcases failed with converted | ⟨g, built, ordered⟩
  · have ends := limits.converts program
    rw [converted] at ends
    cases ends with
    | cycle small resolved sparse circular isCycle => exact isCycle
  · have represents := Graph.represents_of_link (Graph.outcome_ofProgram_eq_ok_iff.mp built)
    rcases represents.order_cases with
      ⟨order, other, -⟩ | ⟨-, otherName, otherCycle, other, isCycle⟩
    · cases other.symm.trans ordered
    · cases other.symm.trans ordered
      exact isCycle

end Limits

namespace Sample

/-- `b`, `c` and `d` wait for each other, and the actions around them wait for these. -/
def knot : Program where
  actions := #[
    ⟨a, .assign (.reference c [])⟩,
    ⟨b, .call join [.input [], .array [.reference d []] []]⟩,
    ⟨c, .assign (.reference b [])⟩,
    ⟨d, .assign (.reference c [])⟩,
    ⟨e, .assign (.reference a [])⟩]
  returns := none
  nonempty := by decide
  distinct := by decide

/-- The search starts at `a`, which is not part of the cycle. -/
theorem convert_knot :
    (({} : Limits).convert knot).outcome = .error (.dependencyCycle b [b, c, d]) ∧
      knot.IsCycleFrom b [b, c, d] := by
  have failed : (({} : Limits).convert knot).outcome = .error (.dependencyCycle b [b, c, d]) := by
    with_unfolding_all rfl
  exact ⟨failed, Limits.convert_reports_cycle (Or.inl failed)⟩

end Sample

end Sequencer
