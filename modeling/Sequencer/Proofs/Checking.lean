import Sequencer.Proofs.Arrangement

/-!
# The checks of a sequence

A sequence can be checked by itself, for every name being bound before it is read, and against a
program, for having its actions. Both checks are programs of their own that know nothing of graphs
or orders. What they accept is said here in terms of what is bound and read, and a program arranged
by a schedule passes both.

The second check compares actions up to equality of numbers. All it needs here is that everything is
equal to itself, which holds since no number is different from itself.

## Main results

* `Source.same_self`: every source is equal to itself.
* `Sequence.bindsBeforeUse_eq_true_iff`: what the first check accepts.
* `Sequence.bindsBeforeUse_arrange`, `Sequence.completes_arrange`: a program arranged by a schedule
  passes both checks.
-/

namespace Sequencer

/-! ### Equality up to equality of numbers -/

theorem Literal.same_self (literal : Literal) : literal.same literal = true := by
  cases literal with
  | bool value => simp [same]
  | string value => simp [same]
  | number value => cases value <;> simp [same, Number.same, Binary64.same]

namespace Source

mutual

/-- Every source is equal to itself. -/
theorem same_self : ∀ source : Source, source.same source = true
  | .input path => by simp [same]
  | .reference name path => by simp [same]
  | .constant value path => by simp [same, value.same_self]
  | .array items path => by simp [same, sameItems_self items]
  | .object fields path => by simp [same, sameFields_self fields]

theorem sameItems_self : ∀ items : List Source, sameItems items items = true
  | [] => rfl
  | item :: rest => by simp [sameItems, same_self item, sameItems_self rest]

theorem sameFields_self : ∀ fields : List (String × Source), sameFields fields fields = true
  | [] => rfl
  | (_, value) :: rest => by simp [sameFields, same_self value, sameFields_self rest]

end

instance : ReflBEq Source where
  rfl {source} := same_self source

end Source

instance : ReflBEq Action where
  rfl {action} := by
    change action.same action = true
    cases action with
    | mk result operation => cases operation <;> simp [Action.same, Operation.same]

namespace Sequence

variable {program : Program} {order : List Nat}

/-! ### Binding before use -/

/-- What holds wherever a list is split holds at its head, and wherever its tail is split. -/
theorem forall_split_cons {α : Type} {x : α} {xs : List α} {P : List α → α → Prop} :
    (∀ done y rest, x :: xs = done ++ y :: rest → P done y) ↔
      P [] x ∧ ∀ done y rest, xs = done ++ y :: rest → P (x :: done) y := by
  constructor
  · intro all
    refine ⟨all [] x xs rfl, ?_⟩
    rintro done y rest rfl
    exact all (x :: done) y rest rfl
  · rintro ⟨here, later⟩ done y rest split
    rcases List.cons_eq_append_iff.mp split with ⟨rfl, head⟩ | ⟨done, rfl, tail⟩
    · cases head
      exact here
    · exact later done y rest tail

theorem mem_insert_iff {bound : Std.TreeSet Name} {name other : Name} :
    other ∈ bound.insert name ↔ other = name ∨ other ∈ bound := by
  rw [Std.TreeSet.mem_insert, Std.LawfulEqOrd.compare_eq_iff_eq, eq_comm]

/-- The names bound after some actions are those bound before and those the actions bind. -/
theorem mem_of_boundAfter {bound after : Std.TreeSet Name} {actions : List Action} {name : Name}
    (passed : boundAfter bound actions = some after) :
    name ∈ after ↔ name ∈ bound ∨ name ∈ actions.map Action.result := by
  induction actions generalizing bound with
  | nil =>
    cases passed
    simp
  | cons action rest ih =>
    rw [boundAfter] at passed
    split at passed
    · rw [ih passed, mem_insert_iff, List.map_cons, List.mem_cons, or_assoc, or_left_comm]
    · cases passed

/-- The actions pass exactly if each reads only what was bound before, or what an earlier one
binds. -/
theorem isSome_boundAfter_iff {bound : Std.TreeSet Name} {actions : List Action} :
    (boundAfter bound actions).isSome ↔ ∀ done action rest, actions = done ++ action :: rest →
      ∀ name, action.Reads name → name ∈ bound ∨ name ∈ done.map Action.result := by
  induction actions generalizing bound with
  | nil => simp [boundAfter]
  | cons action rest ih =>
    have here : action.references.all (bound.contains ·) = true ↔
        ∀ name, action.Reads name → name ∈ bound := by
      simp only [List.all_eq_true, Action.mem_references, Std.TreeSet.contains_iff_mem]
    rw [forall_split_cons, boundAfter]
    simp only [List.map_nil, List.not_mem_nil, or_false, ← here, List.map_cons, List.mem_cons]
    split
    · next passes =>
      rw [ih, and_iff_right passes]
      simp only [mem_insert_iff, or_assoc, or_left_comm]
    · next fails => simp [fails]

/-- The check accepts a sequence exactly if every name is bound by an earlier action when an action
reads it, and by some action if the return value reads it. -/
theorem bindsBeforeUse_eq_true_iff {s : Sequence} :
    s.bindsBeforeUse = true ↔
      (∀ done action rest, s.actions = done ++ action :: rest →
        ∀ name, action.Reads name → name ∈ done.map Action.result) ∧
      ∀ source ∈ s.returns, ∀ name, source.Mentions name → name ∈ s.results := by
  have inOrder : (boundAfter ∅ s.actions).isSome ↔ ∀ done action rest,
      s.actions = done ++ action :: rest →
        ∀ name, action.Reads name → name ∈ done.map Action.result := by
    simp only [isSome_boundAfter_iff, Std.TreeSet.not_mem_emptyc, false_or]
  rw [← inOrder, bindsBeforeUse]
  cases passed : boundAfter ∅ s.actions with
  | none => simp
  | some after =>
    have bound : ∀ name, name ∈ after ↔ name ∈ s.results := by
      intro name
      rw [mem_of_boundAfter passed, or_iff_right Std.TreeSet.not_mem_emptyc, results]
    simp only [List.all_eq_true, List.mem_flatMap, Option.mem_toList, Source.mem_references,
      Std.TreeSet.contains_iff_mem, bound, Option.isSome_some, true_and]
    constructor
    · intro all source returned name inside
      exact all name ⟨source, returned, inside⟩
    · rintro all name ⟨source, returned, inside⟩
      exact all source returned name inside

/-! ### A program arranged by a schedule -/

theorem bindsBeforeUse_arrange (resolved : program.Resolved)
    (schedule : IsSchedule program.size program.Reads order) :
    (arrange program order).bindsBeforeUse = true := by
  have permActions := perm_actions_arrange schedule.perm
  rw [bindsBeforeUse_eq_true_iff]
  constructor
  · intro done action rest split name reads
    have member : action ∈ program.actions := by
      rw [← Array.mem_toList_iff, ← permActions.mem_iff, split]
      simp
    have found : (arrange program order).actions[done.length]? = some action := by
      rw [split]
      simp
    obtain ⟨j, earlier, boundThere⟩ := exists_earlier_of_reads schedule found reads
      (resolved.1 action member name reads)
    -- A place before that of the action is one of those that are done.
    rw [split, List.getElem?_append_left earlier, ← List.getElem?_map] at boundThere
    exact List.mem_of_getElem? boundThere
  · intro source returned name inside
    obtain ⟨action, member, bound⟩ := resolved.2 source returned name inside
    have placed := permActions.mem_iff.mpr (Array.mem_toList_iff.mpr member)
    exact List.mem_map.mpr ⟨action, placed, bound⟩

theorem completes_arrange (perm : order.Perm (List.range program.size)) :
    (arrange program order).completes program = true := by
  have permActions := perm_actions_arrange perm
  have sameLength : (arrange program order).length = program.size := permActions.length_eq
  simp only [completes, sameLength, beq_self_eq_true, nodup_results_arrange perm, decide_true,
    Bool.and_self, Bool.true_and, List.all_eq_true]
  intro action member
  exact List.elem_eq_true_of_mem (permActions.mem_iff.mpr member)

end Sequence

end Sequencer
