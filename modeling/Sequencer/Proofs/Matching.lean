import Mathlib.Data.List.Nodup
import Mathlib.Data.List.Perm.Basic
import Mathlib.Data.List.Perm.Subperm
import Sequencer.Proofs.Checking

/-!
# Sequences that complete a program

Whether a sequence completes a program is checked without counting anything: the lengths have to be
the same, no name may be bound twice in the sequence, and each action of the program has to be equal
to one of the sequence. Equal actions bind the same name. So the names of the program, which are
distinct, all occur among as many names of the sequence, and there is room for no other. The actions
can then be paired by their names, and since a name occurs only once in the sequence, the partner of
an action is the very one that it was found equal to.

## Main definitions

* `Sequence.Matches`: the actions of a sequence and of a program can be paired one to one, so that
  partners are equal.

## Main results

* `Source.same_comm`: equality of sources does not depend on their order.
* `Sequence.completes_iff_matches`: the check accepts exactly the sequences that match the program.
-/

namespace Sequencer

/-! ### Equality of sources and actions -/

theorem Number.same_comm (a b : Number) : a.same b = b.same a := by
  cases a with
  | integer m =>
    cases b with
    | integer n => exact BEq.comm
    | float y => rfl
  | float x =>
    cases b with
    | integer n => rfl
    | float y =>
      change (x == y || (x.isZero && y.isZero)) = (y == x || (y.isZero && x.isZero))
      rw [BEq.comm (a := x), Bool.and_comm]

theorem Literal.same_comm (a b : Literal) : a.same b = b.same a := by
  cases a with
  | bool value => cases b <;> simp [same, BEq.comm (a := value)]
  | number value => cases b <;> simp [same, value.same_comm]
  | string value => cases b <;> simp [same, BEq.comm (a := value)]

namespace Source

mutual

/-- Equality of sources does not depend on their order. -/
theorem same_comm : ∀ a b : Source, a.same b = b.same a
  | .input p, b => by cases b <;> simp [same, BEq.comm (a := p)]
  | .reference name p, b => by cases b <;> simp [same, BEq.comm (a := p), BEq.comm (a := name)]
  | .constant value p, b => by cases b <;> simp [same, BEq.comm (a := p), value.same_comm]
  | .array items p, b => by cases b <;> simp [same, BEq.comm (a := p), sameItems_comm items]
  | .object fields p, b => by cases b <;> simp [same, BEq.comm (a := p), sameFields_comm fields]

theorem sameItems_comm : ∀ as bs : List Source, sameItems as bs = sameItems bs as
  | [], bs => by cases bs <;> rfl
  | a :: as, bs => by cases bs <;> simp [sameItems, same_comm a, sameItems_comm as]

theorem sameFields_comm : ∀ as bs : List (String × Source), sameFields as bs = sameFields bs as
  | [], bs => by cases bs <;> rfl
  | (key, a) :: as, bs => by
    cases bs <;> simp [sameFields, BEq.comm (a := key), same_comm a, sameFields_comm as]

end

/-- Lists of sources are compared like the items of arrays. -/
theorem beq_eq_sameItems (as bs : List Source) : (as == bs) = sameItems as bs := by
  induction as generalizing bs with
  | nil => cases bs <;> rfl
  | cons a as ih =>
    cases bs with
    | nil => rfl
    | cons b bs =>
      rw [List.cons_beq_cons, ih]
      rfl

end Source

namespace Action

variable {a b : Action}

theorem beq_comm : (a == b) = (b == a) := by
  change (a.result == b.result && a.operation.same b.operation) =
    (b.result == a.result && b.operation.same a.operation)
  have operations : a.operation.same b.operation = b.operation.same a.operation := by
    cases a.operation with
    | call s as =>
      cases b.operation with
      | call t bs =>
        simp only [Operation.same, Source.beq_eq_sameItems, Source.sameItems_comm as,
          BEq.comm (a := s)]
      | assign source => rfl
    | assign source =>
      cases b.operation with
      | call t bs => rfl
      | assign other => exact source.same_comm other
  rw [operations, BEq.comm (a := a.result)]

/-- Equal actions bind the same name. -/
theorem result_eq_of_beq (same : a == b) : a.result = b.result :=
  beq_iff_eq.mp (Bool.and_eq_true_iff.mp same).1

end Action

/-! ### Pairing by names -/

namespace Sequence

variable {s : Sequence} {program : Program}

/-- The actions of a sequence and of a program can be paired one to one, so that partners are equal
up to equality of numbers. -/
def Matches (s : Sequence) (program : Program) : Prop :=
  ∃ partners : List Action, partners.Perm program.actions.toList ∧
    List.Forall₂ (fun action partner => action == partner) s.actions partners

theorem results_eq_of_forall₂ {partners : List Action}
    (paired : List.Forall₂ (fun action partner => action == partner) s.actions partners) :
    s.results = partners.map Action.result := by
  rw [results, ← List.forall₂_eq_eq_eq, List.forall₂_map_left_iff, List.forall₂_map_right_iff]
  exact paired.imp fun _ _ => Action.result_eq_of_beq

/-- If no name of the program is missing and there are no more names than actions, then there are no
others. -/
theorem perm_results (length : s.length = program.size)
    (found : ∀ action ∈ program.actions.toList, s.actions.contains action = true) :
    s.results.Perm (resultNames program.actions) := by
  have bound : resultNames program.actions ⊆ s.results := by
    intro name listed
    obtain ⟨action, member, rfl⟩ := List.mem_map.mp listed
    obtain ⟨other, placed, same⟩ := List.contains_iff_exists_mem_beq.mp (found action member)
    exact List.mem_map.mpr ⟨other, placed, (Action.result_eq_of_beq same).symm⟩
  have room : s.results.length ≤ (resultNames program.actions).length := by
    rw [results, resultNames, List.length_map, List.length_map]
    exact length.le
  exact ((program.distinct.subperm bound).perm_of_length_le room).symm

/-- The check accepts a sequence exactly if its actions can be paired one to one with those of the
program, so that partners are equal. -/
theorem completes_iff_matches (s : Sequence) (program : Program) :
    s.completes program = true ↔ s.Matches program := by
  simp only [completes, Bool.and_eq_true, beq_iff_eq, decide_eq_true_iff, List.all_eq_true]
  constructor
  · rintro ⟨⟨length, distinct⟩, found⟩
    -- An action of the program goes where its name stands in the sequence.
    have named : List.Forall₂ (fun name (action : Action) => name = action.result)
        (resultNames program.actions) program.actions.toList :=
      List.forall₂_map_left_iff.mpr (List.forall₂_same.mpr fun _ _ => rfl)
    obtain ⟨partners, paired, perm⟩ := List.perm_comp_forall₂ (perm_results length found) named
    refine ⟨partners, perm, List.forall₂_iff_zip.mpr ?_⟩
    obtain ⟨lengths, names⟩ := List.forall₂_iff_zip.mp (List.forall₂_map_left_iff.mp paired)
    refine ⟨lengths, ?_⟩
    intro action partner together
    obtain ⟨placed, partnered⟩ := List.of_mem_zip together
    obtain ⟨other, otherPlaced, same⟩ :=
      List.contains_iff_exists_mem_beq.mp (found partner (perm.mem_iff.mp partnered))
    -- The action that the partner was found equal to has the same name, so it is this one.
    have sameName : other.result = action.result :=
      (Action.result_eq_of_beq same).symm.trans (names together).symm
    obtain rfl := List.inj_on_of_nodup_map distinct otherPlaced placed sameName
    rwa [Action.beq_comm]
  · rintro ⟨partners, perm, paired⟩
    refine ⟨⟨paired.length_eq.trans perm.length_eq, ?_⟩, ?_⟩
    · rw [results_eq_of_forall₂ paired]
      exact (perm.map Action.result).nodup_iff.mpr program.distinct
    · intro action member
      have partnered := perm.mem_iff.mpr member
      obtain ⟨place, inside, rfl⟩ := List.getElem_of_mem partnered
      have insideOther : place < s.actions.length := paired.length_eq ▸ inside
      refine List.contains_iff_exists_mem_beq.mpr ⟨_, List.getElem_mem insideOther, ?_⟩
      rw [Action.beq_comm]
      exact paired.get insideOther inside

-- The two zeros are equal, so an action that takes one is paired with an action that takes the other.
example : (⟨[⟨Sample.a, .assign (.constant (.number (.float ⟨true, 0, 0⟩)) [])⟩], none⟩ :
      Sequence).completes
    (.single ⟨Sample.a, .assign (.constant (.number (.float ⟨false, 0, 0⟩)) [])⟩) = true := by
  decide

end Sequence

end Sequencer
