import Sequencer.Proofs.Conversion

/-!
# One more action at the end

An action that is declared last and reads only what is bound already has the largest position, and
no other action reads it. So however early it is ready, it is never the smallest ready position
while another one is left, and it takes nothing away from the others: the sequence goes on with it.

## Main definitions

* `Program.declareLast`: a program with one more action.

## Main results

* `TakesLeast.concat_count`: the least order of one more position that nothing else reads.
* `Draft.exists_add_build`: how to declare the action in a draft.
* `Limits.convert_declareLast`: the sequence of the program with one more action.
-/

namespace Sequencer

/-! ### One more position -/

namespace TakesLeast

variable {count : Nat} {reads more : Nat → Nat → Prop} {order : List Nat}

/-- A position above all others is never the smallest ready one, so an order of the others still
takes the smallest if that position is there. -/
theorem succ (taken : TakesLeast count reads order)
    (same : ∀ {source target}, target < count → (more source target ↔ reads source target)) :
    TakesLeast (count + 1) more order := by
  intro done position rest split
  obtain ⟨ready, least⟩ := taken done position rest split
  have isReady_iff : ∀ {next}, next < count →
      (IsReady (count + 1) more done next ↔ IsReady count reads done next) := by
    intro next below
    simp only [IsReady, same below, below, Nat.lt_succ_of_lt below]
  constructor
  · exact (isReady_iff ready.1).mpr ready
  · intro next mayFollow
    rcases Nat.lt_or_ge next count with below | above
    · exact least ((isReady_iff below).mp mayFollow)
    · exact ready.1.le.trans above

/-- One more position that reads only from the others and is read by none comes last. -/
theorem concat_count (taken : TakesLeast count reads order)
    (perm : order.Perm (List.range count))
    (same : ∀ {source target}, target < count → (more source target ↔ reads source target))
    (below : ∀ {source}, more source count → source < count) :
    TakesLeast (count + 1) more (order ++ [count]) := by
  have mem_order : ∀ {position}, position ∈ order ↔ position < count := by
    intro position
    rw [perm.mem_iff, List.mem_range]
  apply (taken.succ same).concat
  constructor
  · refine ⟨Nat.lt_succ_self count, ?_, ?_⟩
    · rw [mem_order]
      exact Nat.lt_irrefl count
    · intro source read
      exact mem_order.mpr (below read)
  · rintro next ⟨-, unplaced, -⟩
    rw [mem_order] at unplaced
    exact Nat.le_of_not_lt unplaced

end TakesLeast

/-! ### One more action -/

namespace Program

variable {program : Program} {action : Action} {name : Name} {position : Nat}

/-- The program with one more action, declared last, whose name is not bound. -/
def declareLast (program : Program) (action : Action) (fresh : ¬ program.Binds action.result) :
    Program where
  actions := program.actions.push action
  returns := program.returns
  nonempty := by simp
  distinct := by
    rw [resultNames_push, ← List.concat_eq_append]
    apply List.Nodup.concat _ program.distinct
    rwa [mem_resultNames_iff]

variable (fresh : ¬ program.Binds action.result)

theorem size_declareLast : (program.declareLast action fresh).size = program.size + 1 :=
  Array.size_push action

theorem getElem?_declareLast (position : Nat) :
    (program.declareLast action fresh).actions[position]? =
      if position = program.size then some action else program.actions[position]? :=
  Array.getElem?_push

theorem binds_declareLast_of_binds (binds : program.Binds name) :
    (program.declareLast action fresh).Binds name := by
  obtain ⟨binder, member, bound⟩ := binds
  exact ⟨binder, Array.mem_push_of_mem action member, bound⟩

/-- A name that the program binds stays where it is. -/
theorem nameAt?_declareLast_of_binds (binds : program.Binds name) :
    (program.declareLast action fresh).nameAt? position = some name ↔
      program.nameAt? position = some name := by
  rw [nameAt?, getElem?_declareLast]
  split
  · next last =>
    have other : action.result ≠ name := fun same => fresh (same ▸ binds)
    have none : program.nameAt? position ≠ some name := fun bound =>
      (lt_size_of_nameAt? bound).ne last
    simp [other, none]
  · rfl

variable (resolved : program.Resolved) (known : ∀ name, action.Reads name → program.Binds name)

include resolved

/-- The actions of the program read what they read before: none of them can read the new name. -/
theorem reads_declareLast_iff {source target : Nat} (inside : target < program.size) :
    (program.declareLast action fresh).Reads source target ↔ program.Reads source target := by
  have bound : ∀ reader ∈ program.actions[target]?, ∀ name, reader.Reads name →
      program.Binds name := fun reader found =>
    resolved.1 reader (Array.mem_of_getElem? found)
  rw [Reads, getElem?_declareLast, if_neg inside.ne]
  constructor
  · rintro ⟨name, boundAt, reader, found, reads⟩
    have binds := bound reader found name reads
    exact ⟨name, (nameAt?_declareLast_of_binds fresh binds).mp boundAt, reader, found, reads⟩
  · rintro ⟨name, boundAt, reader, found, reads⟩
    have binds := bound reader found name reads
    exact ⟨name, (nameAt?_declareLast_of_binds fresh binds).mpr boundAt, reader, found, reads⟩

include known

theorem resolved_declareLast : (program.declareLast action fresh).Resolved := by
  constructor
  · intro reader member name reads
    apply binds_declareLast_of_binds
    rcases Array.mem_push.mp member with old | rfl
    · exact resolved.1 reader old name reads
    · exact known name reads
  · intro source returned name inside
    exact binds_declareLast_of_binds fresh (resolved.2 source returned name inside)

omit resolved

/-- The new action reads only from the others. -/
theorem lt_size_of_reads_last {source : Nat}
    (reads : (program.declareLast action fresh).Reads source program.size) :
    source < program.size := by
  obtain ⟨name, boundAt, reader, found, reads⟩ := reads
  rw [Option.mem_def, getElem?_declareLast, if_pos rfl, Option.some_inj] at found
  subst found
  exact lt_size_of_nameAt? ((nameAt?_declareLast_of_binds fresh (known name reads)).mp boundAt)

end Program

theorem Sequence.arrange_declareLast {program : Program} {action : Action}
    (fresh : ¬ program.Binds action.result) {order : List Nat}
    (inside : ∀ position ∈ order, position < program.size) :
    arrange (program.declareLast action fresh) (order ++ [program.size]) =
      ⟨(arrange program order).actions ++ [action], program.returns⟩ := by
  have others : order.filterMap (fun position =>
      (program.declareLast action fresh).actions[position]?) =
      order.filterMap fun position => program.actions[position]? := by
    apply List.filterMap_congr
    intro position listed
    rw [Program.getElem?_declareLast, if_neg (inside position listed).ne]
  have last : [program.size].filterMap (fun position =>
      (program.declareLast action fresh).actions[position]?) = [action] := by
    apply List.filterMap_cons_some
    rw [Program.getElem?_declareLast, if_pos rfl]
  rw [arrange, List.filterMap_append, others, last]
  rfl

/-- A draft of the program takes the action, and gives the program with that action last. -/
theorem Draft.exists_add_build {draft : Draft} {program : Program} {action : Action}
    (built : draft.build = .ok program) (fresh : ¬ program.Binds action.result) :
    ∃ next, draft.add action = .ok next ∧
      next.build = .ok (program.declareLast action fresh) := by
  rw [build] at built
  split at built
  · obtain rfl := Except.ok.inj built
    have unbound : action.result ∉ resultNames draft.actions := by
      intro listed
      obtain ⟨binder, member, bound⟩ := List.mem_map.mp listed
      exact fresh ⟨binder, Array.mem_toList_iff.mp member, bound⟩
    obtain ⟨next, added, actions, returns⟩ := exists_add_of_not_mem unbound
    have filled : 0 < next.actions.size := by
      rw [actions, Array.size_push]
      exact Nat.succ_pos _
    refine ⟨next, added, (dif_pos filled).trans ?_⟩
    simp only [Program.declareLast, actions, returns]
  · cases built

/-- Let a program have a sequence, and let an action bind a new name and read only names that the
program binds. Every draft of the program takes the action. If the program with that action last is
within the limits, its sequence is the old one followed by the action. -/
theorem Limits.convert_declareLast {limits : Limits} {program : Program} {action : Action}
    {s : Sequence} (converted : (limits.convert program).outcome = .ok s)
    (fresh : ¬ program.Binds action.result)
    (known : ∀ name, action.Reads name → program.Binds name) :
    (∀ draft : Draft, draft.build = .ok program → ∃ next, draft.add action = .ok next ∧
      next.build = .ok (program.declareLast action fresh)) ∧
    ((program.declareLast action fresh).size ≤ limits.maxActions.toNat →
      (program.declareLast action fresh).dependencyPairs.card ≤ limits.maxEdges.toNat →
      (limits.convert (program.declareLast action fresh)).outcome =
        .ok ⟨s.actions ++ [action], s.returns⟩) := by
  refine ⟨fun draft built => Draft.exists_add_build built fresh, ?_⟩
  intro small sparse
  have ends := limits.converts program
  rw [converted] at ends
  cases ends with
  | @ordered order _ resolved _ perm taken =>
    have extendedTaken : TakesLeast (program.size + 1) (program.declareLast action fresh).Reads
        (order ++ [program.size]) :=
      taken.concat_count perm (Program.reads_declareLast_iff fresh resolved)
        (Program.lt_size_of_reads_last fresh known)
    have extendedPerm : (order ++ [program.size]).Perm (List.range (program.size + 1)) := by
      rw [List.range_succ]
      exact perm.append_right _
    rw [← Program.size_declareLast fresh] at extendedTaken extendedPerm
    obtain ⟨other, otherPerm, otherTaken, outcome⟩ := outcome_of_not_circular
      (Nat.not_lt_of_le small) (Program.resolved_declareLast fresh resolved known)
      (Nat.not_lt_of_le sparse) (not_circular_of_takesLeast extendedPerm extendedTaken)
    have length := otherPerm.length_eq.trans extendedPerm.length_eq.symm
    have inside : ∀ position ∈ order, position < program.size := by
      intro position listed
      exact List.mem_range.mp (perm.mem_iff.mp listed)
    rw [outcome, otherTaken.unique extendedTaken length,
      Sequence.arrange_declareLast fresh inside]
    rfl

namespace Sample

def f : Name := ⟨"f", by decide⟩

/-- An action that is ready once `a` is bound. -/
def late : Action := ⟨f, .call join [.reference a [], .constant (.bool true) []]⟩

theorem not_binds_late : ¬ diamond.Binds late.result := by
  decide

/-- In the sequence of `diamond` the first action binds `a`, and `late` still comes last. -/
theorem convert_diamond_late :
    (({} : Limits).convert diamond).outcome =
        .ok (Sequence.arrange diamond [3, 1, 2, 0, 4]) ∧
      (({} : Limits).convert (diamond.declareLast late not_binds_late)).outcome =
        .ok ⟨(Sequence.arrange diamond [3, 1, 2, 0, 4]).actions ++ [late], diamond.returns⟩ := by
  have converted : (({} : Limits).convert diamond).outcome =
      .ok (Sequence.arrange diamond [3, 1, 2, 0, 4]) := by with_unfolding_all rfl
  have known : ∀ name, late.Reads name → diamond.Binds name := by
    intro name reads
    obtain rfl : name = a := by
      simpa [late, Action.Reads, Action.sources, Operation.sources] using reads
    decide
  exact ⟨converted, (Limits.convert_declareLast converted not_binds_late known).2 (by decide)
    (by decide)⟩

end Sample

end Sequencer
