import Mathlib.Combinatorics.Enumerative.DoubleCounting
import Sequencer.Proofs.Conversion

/-!
# Declaring actions in another order

Two programs with the same actions and the same return value may have each action at another
position. What reads what is a matter of names, so the dependencies of the one are those of the
other with the positions changed. All that decides how a conversion ends can be said of the
dependencies as a whole: their number, and whether they have a cycle. Hence the order in which
actions are declared has no influence on that. It does have one on which of several unresolved names
and which of several cycles is reported, and on the order of the sequence.

## Main definitions

* `Program.Rearranges`: two programs have the same actions and the same return value.
* `Program.Counterpart`: the actions at two positions bind the same name.
* `Limits.Agrees`: two outcomes differ at most in what the order of actions decides.

## Main results

* `Program.Rearranges.circular_iff`, `Program.Rearranges.card_dependencyPairs`: rearranged programs
  have the same cycles and the same number of dependencies.
* `Limits.convert_agrees`: conversions of rearranged programs end alike.
-/

namespace Sequencer

namespace Program

variable {p q : Program} {name : Name}

/-- The same actions in some other order, and the same return value. -/
structure Rearranges (p q : Program) : Prop where
  perm : p.actions.toList.Perm q.actions.toList
  returns_eq : p.returns = q.returns

/-- The action at one position of a program and that at another of another bind the same name. -/
def Counterpart (p q : Program) (i j : Nat) : Prop :=
  ∃ name, p.nameAt? i = some name ∧ q.nameAt? j = some name

namespace Counterpart

variable {i j k : Nat}

theorem symm (same : Counterpart p q i j) : Counterpart q p j i := by
  obtain ⟨name, first, second⟩ := same
  exact ⟨name, second, first⟩

theorem right_unique (first : Counterpart p q i j) (second : Counterpart p q i k) : j = k := by
  obtain ⟨name, bound, boundFirst⟩ := first
  obtain ⟨other, boundOther, boundSecond⟩ := second
  obtain rfl : name = other := Option.some_inj.mp (bound.symm.trans boundOther)
  exact nameAt?_inj boundFirst boundSecond

theorem left_unique (first : Counterpart p q i k) (second : Counterpart p q j k) : i = j :=
  right_unique first.symm second.symm

end Counterpart

namespace Rearranges

theorem symm (same : p.Rearranges q) : q.Rearranges p :=
  ⟨same.perm.symm, same.returns_eq.symm⟩

variable (same : p.Rearranges q)

include same

theorem size_eq : p.size = q.size :=
  same.perm.length_eq

theorem mem_iff {action : Action} : action ∈ p.actions ↔ action ∈ q.actions := by
  rw [← Array.mem_toList_iff, same.perm.mem_iff, Array.mem_toList_iff]

/-! ### What is said by names is the same -/

theorem binds_iff : p.Binds name ↔ q.Binds name := by
  simp only [Binds, same.mem_iff]

theorem readsName_iff {reader : Name} : p.ReadsName name reader ↔ q.ReadsName name reader := by
  simp only [ReadsName, same.mem_iff]

theorem resolved_iff : p.Resolved ↔ q.Resolved := by
  simp only [Resolved, same.mem_iff, same.binds_iff, same.returns_eq]

/-! ### What is said by positions is the same at counterparts -/

theorem exists_counterpart {i : Nat} (inside : i < p.size) : ∃ j, Counterpart p q i j := by
  obtain ⟨name, bound⟩ := exists_nameAt? inside
  have binds := same.binds_iff.mp (binds_iff_exists_nameAt?.mpr ⟨i, bound⟩)
  obtain ⟨j, boundThere⟩ := binds_iff_exists_nameAt?.mp binds
  exact ⟨j, name, bound, boundThere⟩

theorem reads_iff {source target source' target' : Nat}
    (sources : Counterpart p q source source') (targets : Counterpart p q target target') :
    p.Reads source target ↔ q.Reads source' target' := by
  obtain ⟨name, bound, bound'⟩ := sources
  obtain ⟨reader, boundReader, boundReader'⟩ := targets
  rw [← Program.readsName_iff bound boundReader, same.readsName_iff,
    Program.readsName_iff bound' boundReader']

theorem transGen_reads {source target source' target' : Nat}
    (path : Relation.TransGen p.Reads source target)
    (sources : Counterpart p q source source') (targets : Counterpart p q target target') :
    Relation.TransGen q.Reads source' target' := by
  induction path generalizing target' with
  | single reads => exact .single ((same.reads_iff sources targets).mp reads)
  | tail _ reads walked =>
    -- The position in between has a counterpart as well, where the two parts of the path meet.
    obtain ⟨middle, middles⟩ := same.exists_counterpart reads.lt_size.1
    exact .tail (walked middles) ((same.reads_iff middles targets).mp reads)

theorem circular_of_circular (circular : p.Circular) : q.Circular := by
  obtain ⟨position, cycle⟩ := circular
  obtain ⟨next, reads, -⟩ := Relation.TransGen.head'_iff.mp cycle
  obtain ⟨position', counterpart⟩ := same.exists_counterpart (Reads.lt_size reads).1
  exact ⟨position', same.transGen_reads cycle counterpart counterpart⟩

theorem circular_iff : p.Circular ↔ q.Circular :=
  ⟨same.circular_of_circular, same.symm.circular_of_circular⟩

/-- Every pair of dependent positions has a pair of counterparts, and no two pairs have the same. -/
theorem card_dependencyPairs_le : p.dependencyPairs.card ≤ q.dependencyPairs.card := by
  apply Finset.card_le_card_of_forall_subsingleton fun pair pair' =>
    Counterpart p q pair.1 pair'.1 ∧ Counterpart p q pair.2 pair'.2
  · rintro ⟨source, target⟩ listed
    have reads := mem_dependencyPairs.mp listed
    obtain ⟨source', sources⟩ := same.exists_counterpart reads.lt_size.1
    obtain ⟨target', targets⟩ := same.exists_counterpart reads.lt_size.2
    have reads' := (same.reads_iff sources targets).mp reads
    exact ⟨(source', target'), mem_dependencyPairs.mpr reads', sources, targets⟩
  · intro pair' _ first isFirst second isSecond
    exact Prod.ext (isFirst.2.1.left_unique isSecond.2.1) (isFirst.2.2.left_unique isSecond.2.2)

theorem card_dependencyPairs : p.dependencyPairs.card = q.dependencyPairs.card :=
  le_antisymm same.card_dependencyPairs_le same.symm.card_dependencyPairs_le

end Rearranges

/-! ### The first name that is not bound -/

/-- Some action reads a name that is not bound. -/
def Dangling (program : Program) : Prop :=
  ∃ action ∈ program.actions, ∃ name, action.Reads name ∧ ¬ program.Binds name

theorem Rearranges.dangling_iff (same : p.Rearranges q) : p.Dangling ↔ q.Dangling := by
  simp only [Dangling, same.mem_iff, same.binds_iff]

theorem dangling_of_find? {program : Program} {reader : Name}
    (first : program.readings.find? (fun reading => ¬ program.Binds reading.1) =
      some (name, some reader)) : program.Dangling := by
  have unbound := List.find?_some first
  rcases mem_readings.mp (List.mem_of_find?_eq_some first) with ⟨action, member, -, reads⟩ | ⟨⟨⟩, -⟩
  exact ⟨action, member, name, reads, of_decide_eq_true unbound⟩

/-- What actions read comes first. If the first unbound name is in the return value, then all that
actions read is bound, and the name is the first unbound one there. -/
theorem not_dangling_of_find? {program : Program}
    (first : program.readings.find? (fun reading => ¬ program.Binds reading.1) =
      some (name, none)) :
    ¬ program.Dangling ∧ (program.returns.toList.flatMap Source.references).find?
      (fun name => ¬ program.Binds name) = some name := by
  rw [readings, List.find?_append, List.find?_map, List.find?_map, Option.or_eq_some_iff] at first
  rcases first with byAction | ⟨bound, byReturn⟩
  · obtain ⟨demand, -, same⟩ := Option.map_eq_some_iff.mp byAction
    cases same
  · constructor
    · rintro ⟨action, member, read, reads, unbound⟩
      obtain ⟨position, found⟩ := Array.mem_iff_getElem?.mp member
      have listed : (read, action.result, position) ∈ program.demands :=
        mem_demands.mpr ⟨action, found, rfl, reads⟩
      rw [Option.map_eq_none_iff, List.find?_eq_none] at bound
      exact bound _ listed (decide_eq_true unbound)
    · obtain ⟨first, found, same⟩ := Option.map_eq_some_iff.mp byReturn
      cases same
      exact found

end Program

namespace Limits

variable {limits : Limits} {p q : Program}

/-- Two outcomes differ at most in what the order of actions decides: in the order of a sequence, in
which action reads an unbound name and in the name it reads, and in the cycle that is reported. -/
inductive Agrees : Except Failure Sequence → Except Failure Sequence → Prop
  | sequences {s t : Sequence} (perm : s.actions.Perm t.actions) (returns : s.returns = t.returns) :
      Agrees (.ok s) (.ok t)
  | tooManyActions (count max : Nat) :
      Agrees (.error (.tooManyActions count max)) (.error (.tooManyActions count max))
  | unresolvedByActions (name other reader otherReader : Name) :
      Agrees (.error (.unresolvedReference name (some reader)))
        (.error (.unresolvedReference other (some otherReader)))
  | unresolvedByReturn (name : Name) :
      Agrees (.error (.unresolvedReference name none)) (.error (.unresolvedReference name none))
  | tooManyEdges (count max : Nat) :
      Agrees (.error (.tooManyEdges count max)) (.error (.tooManyEdges count max))
  | cycles (name other : Name) (cycle otherCycle : List Name) :
      Agrees (.error (.dependencyCycle name cycle)) (.error (.dependencyCycle other otherCycle))

/-- The first unbound names of rearranged programs are both read by actions, or are the same name of
the return value. -/
theorem agrees_of_find? (same : p.Rearranges q) {name other : Name}
    {reader otherReader : Option Name}
    (first : p.readings.find? (fun reading => ¬ p.Binds reading.1) = some (name, reader))
    (firstOther : q.readings.find? (fun reading => ¬ q.Binds reading.1) =
      some (other, otherReader)) :
    Agrees (.error (.unresolvedReference name reader))
      (.error (.unresolvedReference other otherReader)) := by
  cases reader with
  | some reader =>
    have dangling := same.dangling_iff.mp (Program.dangling_of_find? first)
    cases otherReader with
    | some otherReader => exact .unresolvedByActions name other reader otherReader
    | none => exact absurd dangling (Program.not_dangling_of_find? firstOther).1
  | none =>
    obtain ⟨bound, found⟩ := Program.not_dangling_of_find? first
    cases otherReader with
    | some otherReader =>
      exact absurd (same.dangling_iff.mpr (Program.dangling_of_find? firstOther)) bound
    | none =>
      -- Both are found by the same search in the same return value.
      have foundOther := (Program.not_dangling_of_find? firstOther).2
      simp only [← same.returns_eq, ← same.binds_iff] at foundOther
      obtain rfl : name = other := Option.some_inj.mp (found.symm.trans foundOther)
      exact .unresolvedByReturn name

/-- Conversions of two programs with the same actions and the same return value end alike, in
whatever order the actions are declared. -/
theorem convert_agrees (perm : p.actions.toList.Perm q.actions.toList)
    (returns : p.returns = q.returns) :
    Agrees (limits.convert p).outcome (limits.convert q).outcome := by
  have same : p.Rearranges q := ⟨perm, returns⟩
  have ends := limits.converts p
  generalize (limits.convert p).outcome = outcome at ends
  -- Whatever speaks against the one program speaks against the other, and nothing before it does.
  cases ends with
  | tooManyActions large =>
    rw [outcome_of_tooManyActions (same.size_eq ▸ large), same.size_eq]
    exact .tooManyActions _ _
  | unresolved small first =>
    have unresolved := mt same.resolved_iff.mpr (not_resolved_of_find? first)
    obtain ⟨other, reader, firstOther, failed⟩ :=
      outcome_of_not_resolved (same.size_eq ▸ small) unresolved
    rw [failed]
    exact agrees_of_find? same first firstOther
  | tooManyEdges small resolved dense =>
    rw [outcome_of_tooManyEdges (same.size_eq ▸ small) (same.resolved_iff.mp resolved)
      (same.card_dependencyPairs ▸ dense), same.card_dependencyPairs]
    exact .tooManyEdges _ _
  | cycle small resolved sparse circular =>
    obtain ⟨other, otherCycle, failed⟩ := outcome_of_circular (same.size_eq ▸ small)
      (same.resolved_iff.mp resolved) (same.card_dependencyPairs ▸ sparse)
      (same.circular_iff.mp circular)
    rw [failed]
    exact .cycles _ _ _ _
  | ordered small resolved sparse orderPerm taken =>
    have acyclic := mt same.circular_iff.mpr (not_circular_of_takesLeast orderPerm taken)
    obtain ⟨otherOrder, otherPerm, -, done⟩ := outcome_of_not_circular (same.size_eq ▸ small)
      (same.resolved_iff.mp resolved) (same.card_dependencyPairs ▸ sparse) acyclic
    rw [done]
    refine .sequences ?_ returns
    -- Both sequences are permutations of the actions that the programs share.
    exact (Sequence.perm_actions_arrange orderPerm).trans
      (perm.trans (Sequence.perm_actions_arrange otherPerm).symm)

end Limits

namespace Sample

/-- The actions of `knot`, the last one first. -/
def tonk : Program where
  actions := knot.actions.toList.reverse.toArray
  returns := none
  nonempty := by decide
  distinct := by decide

/-- The actions of `diamond`, the last one first, with its return value. -/
def turnedDiamond : Program where
  actions := diamond.actions.toList.reverse.toArray
  returns := diamond.returns
  nonempty := by decide
  distinct := by decide

/-- The cycle of `knot` is reported from `b`, and that of `tonk` from `d`. Both `diamond` and
`turnedDiamond` are put in order, `e` last in the one sequence and first in the other. -/
theorem convert_tonk : (knot.actions.toList.Perm tonk.actions.toList ∧
      (({} : Limits).convert tonk).outcome = .error (.dependencyCycle d [d, b, c]) ∧
      Limits.Agrees (({} : Limits).convert knot).outcome (({} : Limits).convert tonk).outcome) ∧
    diamond.actions.toList.Perm turnedDiamond.actions.toList ∧
      (({} : Limits).convert diamond).outcome.map Sequence.results = .ok [a, b, c, d, e] ∧
      (({} : Limits).convert turnedDiamond).outcome.map Sequence.results = .ok [e, a, c, b, d] ∧
      Limits.Agrees (({} : Limits).convert diamond).outcome
        (({} : Limits).convert turnedDiamond).outcome := by
  have perm : knot.actions.toList.Perm tonk.actions.toList := (List.reverse_perm _).symm
  have permDiamond : diamond.actions.toList.Perm turnedDiamond.actions.toList :=
    (List.reverse_perm _).symm
  refine ⟨⟨perm, by with_unfolding_all rfl, Limits.convert_agrees perm rfl⟩, permDiamond, ?_, ?_,
    Limits.convert_agrees permDiamond rfl⟩
  · with_unfolding_all rfl
  · with_unfolding_all rfl

end Sample

end Sequencer
