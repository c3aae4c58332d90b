import Mathlib.Tactic.IntervalCases
import Sequencer.Proofs.Deciding

/-!
# Orders by the graph of another program

A graph is taken for the graph of a program if it has the names of the program at its positions. What
the actions read is not looked at. So the graph of one program is taken for that of any other one with
the same names, and then gives the order of the program it was made of. That order suits the other
program if its actions read only what the actions at the same places depend on; in general it does
not.

## Main definitions

* `Program.ValidOrder`: in an order, every name that an action reads is bound before it.
* `Program.ReadsWithin`: the actions of one program read only what those of another one depend on.

## Main results

* `Graph.Represents.describes_iff`: a graph is taken for that of any program with the same names.
* `Graph.Represents.order_other`: it treats such a program as its own one and refuses any other.
* `Graph.describes_decides_order`: whether a graph is taken for that of a program, and what follows.
* `Graph.order_by_other_graph`: which orders are given by the graph of another program, and when they
  are valid.
* `Sample.order_ahead_invalid`: an order that is given and not valid.
-/

namespace Sequencer

namespace Program

/-- Every name that an action reads is bound by an action that comes before it in the order. -/
def ValidOrder (program : Program) (order : List Nat) : Prop :=
  ∀ target action, program.actions[target]? = some action → ∀ name, action.Reads name →
    ∃ source, program.nameAt? source = some name ∧ target ∈ order ∧
      order.idxOf source < order.idxOf target

/-- Every name that an action reads is bound, in the other program, by an action that the action at
the same place there depends on, directly or through others. -/
def ReadsWithin (program other : Program) : Prop :=
  ∀ target action, program.actions[target]? = some action → ∀ name, action.Reads name →
    ∃ source, other.nameAt? source = some name ∧ Relation.TransGen other.Reads source target

variable {a b : Program}

theorem size_eq_of_resultNames_eq (names : resultNames a.actions = resultNames b.actions) :
    a.size = b.size := by
  have lengths := congrArg List.length names
  rwa [resultNames, resultNames, List.length_map, List.length_map, Array.length_toList,
    Array.length_toList] at lengths

/-- A schedule of one program is valid for any program that has its names and reads within it. -/
theorem ReadsWithin.validOrder {order : List Nat} (within : b.ReadsWithin a)
    (names : resultNames a.actions = resultNames b.actions)
    (schedule : IsSchedule a.size a.Reads order) : b.ValidOrder order := by
  intro target action found name reads
  obtain ⟨source, bound, path⟩ := within target action found name reads
  refine ⟨source, nameAt?_eq_of_resultNames_eq names ▸ bound, ?_,
    schedule.idxOf_lt_of_transGen path⟩
  rw [schedule.mem_iff, size_eq_of_resultNames_eq names]
  exact (Array.getElem?_eq_some_iff.mp found).1

end Program

namespace Graph

variable {g : Graph} {a b : Program}

/-- A graph is taken for that of any program with the names of its own. -/
theorem Represents.describes_iff (represents : g.Represents a) :
    g.describes b = true ↔ resultNames a.actions = resultNames b.actions := by
  simp only [Graph.describes, represents.size_eq, represents.size_declarations, Bool.and_eq_true,
    beq_iff_eq, and_self, List.all_eq_true, Prod.forall, represents.declarer_iff,
    List.mk_mem_zipIdx_iff_getElem?, Array.getElem?_toList]
  constructor
  · rintro ⟨size, known⟩
    -- Both have a name at the same positions, and those of `b` are where the graph has them.
    apply List.ext_getElem?
    intro position
    rw [← Program.nameAt?_eq_getElem?, ← Program.nameAt?_eq_getElem?]
    rcases Nat.lt_or_ge position b.size with inside | outside
    · have found := Array.getElem?_eq_getElem inside
      rw [known _ position found]
      exact (Program.nameAt?_eq_some_iff.mpr ⟨_, found, rfl⟩).symm
    · rw [Program.nameAt?, Program.nameAt?, Array.getElem?_eq_none outside,
        Array.getElem?_eq_none (show a.size ≤ position from size ▸ outside)]
  · intro names
    refine ⟨Program.size_eq_of_resultNames_eq names, ?_⟩
    intro action position found
    rw [Program.nameAt?_eq_of_resultNames_eq names]
    exact Program.nameAt?_eq_some_iff.mpr ⟨action, found, rfl⟩

/-- The graph of a program treats a program with the same names as its own one, down to the events,
and refuses any other. -/
theorem Represents.order_other (represents : g.Represents a) :
    g.order b =
      if resultNames a.actions = resultNames b.actions then g.order a
      else ⟨[.foreignGraph g.size b.size], .error (.malformed .foreignGraph)⟩ := by
  split
  next names =>
    -- The edges are those of `a` either way. Only the names on a cycle are looked up in `b`.
    have sameNames : a.namesAt = b.namesAt := by
      funext positions
      exact congrArg positions.filterMap (Program.nameAt?_eq_of_resultNames_eq names)
    rw [order, order, if_pos (represents.describes_iff.mpr names), if_pos represents.describes,
      sameNames]
  next other => rw [order, if_neg (mt represents.describes_iff.mp other)]

/-- The graph of a program gives the order of that program, or refuses a program with other names. -/
theorem Represents.outcome_order_other (represents : g.Represents a) :
    (g.order b).outcome =
      if resultNames a.actions = resultNames b.actions then (g.order a).outcome
      else .error (.malformed .foreignGraph) := by
  rw [represents.order_other]
  split <;> rfl

/-- A program has an action, so the graph without positions is not taken for its graph. -/
theorem describes_empty (program : Program) : ({} : Graph).describes program = false := by
  have other : ({} : Graph).size ≠ program.size := program.nonempty.ne
  rw [describes, beq_false_of_ne other, Bool.false_and, Bool.false_and]

/-- The only order that the graph of a program gives is the least schedule of that program. -/
theorem Represents.order_eq_ok_iff (represents : g.Represents a) {order : List Nat} :
    (g.order b).outcome = .ok order ↔ resultNames a.actions = resultNames b.actions ∧
      order.Perm (List.range a.size) ∧ TakesLeast a.size a.Reads order := by
  rw [represents.outcome_order_other]
  split
  next names =>
    rw [and_iff_right names]
    obtain ⟨least, ordered, perm, taken⟩ | ⟨circular, name, cycle, failed, -⟩ :=
      represents.order_cases
    · rw [ordered, Except.ok.injEq]
      constructor
      · rintro rfl
        exact ⟨perm, taken⟩
      · rintro ⟨permOther, takenOther⟩
        exact taken.unique takenOther (perm.length_eq.trans permOther.length_eq.symm)
    · -- A program with a cycle has no schedule, and its graph gives none.
      rw [failed]
      refine iff_of_false (by simp) ?_
      rintro ⟨perm, taken⟩
      exact Limits.not_circular_of_takesLeast perm taken circular
  next other => simp [other]

/-- For the graph `g` of a program `a` and any program `b`:

* `b` is refused if its names are not those of `a`, and is otherwise put in the order of `a`,
  whatever its actions read;
* what is given is valid for `b` exactly if the names differ or the least schedule of `a`, if there
  is one, is valid for `b`;
* it is valid if the actions of `b` read only what those of `a` at the same places depend on. -/
theorem order_by_other_graph (built : (ofProgram a).outcome = .ok g) (b : Program) :
    ((g.order b).outcome =
      if resultNames a.actions = resultNames b.actions then (g.order a).outcome
      else .error (.malformed .foreignGraph)) ∧
    ((∀ order, (g.order b).outcome = .ok order → b.ValidOrder order) ↔
      (resultNames a.actions = resultNames b.actions →
        ∀ order : List Nat, order.Perm (List.range a.size) → TakesLeast a.size a.Reads order →
          b.ValidOrder order)) ∧
    (b.ReadsWithin a → ∀ order, (g.order b).outcome = .ok order → b.ValidOrder order) := by
  have represents := represents_of_link (outcome_ofProgram_eq_ok_iff.mp built)
  refine ⟨represents.outcome_order_other, ?_, ?_⟩
  · simp only [represents.order_eq_ok_iff, and_imp]
    exact forall_comm
  · intro within order ordered
    obtain ⟨names, perm, taken⟩ := represents.order_eq_ok_iff.mp ordered
    have schedule := taken.isSchedule perm fun reads => (Program.Reads.lt_size reads).2
    exact within.validOrder names schedule

/-- For the graph `g` of a program `a` and any program `b`:

* `g` is taken for the graph of `b` exactly if both programs bind the same names in the same order;
* then `b` is treated as `a` is, down to the events, so it is put in the same order or has the same
  cycle, and does not fail in another way;
* otherwise `b` is refused;
* the graph without positions is not taken for the graph of any program. -/
theorem describes_decides_order (built : (ofProgram a).outcome = .ok g) (b : Program) :
    (g.describes b = true ↔ resultNames a.actions = resultNames b.actions) ∧
    (g.describes b = true → g.order b = g.order a ∧
      ((∃ order, (g.order b).outcome = .ok order) ∨
        ∃ name cycle, (g.order b).outcome = .error (.dependencyCycle name cycle))) ∧
    (g.describes b = false → (g.order b).outcome = .error (.malformed .foreignGraph)) ∧
    ({} : Graph).describes b = false := by
  have represents := represents_of_link (outcome_ofProgram_eq_ok_iff.mp built)
  have taken := represents.describes_iff (b := b)
  refine ⟨taken, ?_, ?_, describes_empty b⟩
  · intro described
    have same : g.order b = g.order a := by
      rw [represents.order_other, if_pos (taken.mp described)]
    rw [same]
    refine ⟨rfl, ?_⟩
    obtain ⟨order, ordered, -, -⟩ | ⟨-, name, cycle, failed, -⟩ := represents.order_cases
    · exact Or.inl ⟨order, ordered⟩
    · exact Or.inr ⟨name, cycle, failed⟩
  · intro refused
    have other : resultNames a.actions ≠ resultNames b.actions := by
      intro names
      rw [taken.mpr names] at refused
      cases refused
    rw [represents.outcome_order_other, if_neg other]

end Graph

namespace Sample

/-- The names of `diamond` at the same positions. `d` reads `a` only, which it depended on through
`b` and `c`, and `c` reads nothing. -/
def shortcut : Program where
  actions := #[
    ⟨d, .assign (.reference a [])⟩,
    ⟨b, .assign (.reference a [.field "x"])⟩,
    ⟨c, .assign (.input [])⟩,
    ⟨a, .assign (.input [])⟩,
    ⟨e, .assign (.input [])⟩]
  returns := none
  nonempty := by decide
  distinct := by decide

theorem readsWithin_shortcut : shortcut.ReadsWithin diamond := by
  intro target action found name reads
  have inside : target < 5 := (Array.getElem?_eq_some_iff.mp found).1
  have listed := Action.mem_references.mpr reads
  interval_cases target <;> cases found
  · obtain rfl : name = a := List.mem_singleton.mp listed
    exact ⟨3, rfl, .tail (.single (show diamond.Reads 3 1 by decide)) (by decide)⟩
  · obtain rfl : name = a := List.mem_singleton.mp listed
    exact ⟨3, rfl, .single (by decide)⟩
  all_goals exact absurd listed List.not_mem_nil

/-- The graph of `diamond` puts `shortcut` in an order that is valid for it. -/
theorem order_shortcut : ∃ g, (Graph.ofProgram diamond).outcome = .ok g ∧
    (g.order shortcut).outcome = .ok [3, 1, 2, 0, 4] ∧ shortcut.ReadsWithin diamond ∧
    shortcut.ValidOrder [3, 1, 2, 0, 4] := by
  have built : (Graph.ofProgram diamond).outcome =
      .ok ((Graph.ofResults diamond).addEdges diamond.links) := rfl
  have ordered : (((Graph.ofResults diamond).addEdges diamond.links).order shortcut).outcome =
      .ok [3, 1, 2, 0, 4] := by with_unfolding_all rfl
  obtain ⟨-, -, valid⟩ := Graph.order_by_other_graph built shortcut
  exact ⟨_, built, ordered, readsWithin_shortcut, valid readsWithin_shortcut _ ordered⟩

/-- Two actions that read nothing. -/
def apart : Program where
  actions := #[⟨a, .call join []⟩, ⟨b, .call join []⟩]
  returns := none
  nonempty := by decide
  distinct := by decide

/-- The same names, but the first action reads what the second one binds. -/
def ahead : Program where
  actions := #[⟨a, .call join [.reference b []]⟩, ⟨b, .call join []⟩]
  returns := none
  nonempty := by decide
  distinct := by decide

/-- The graph of `apart`, which is not that of `ahead`, is taken for it and gives an order in which `a`
comes before `b`, which it reads. -/
theorem order_ahead_invalid : ∃ g, (Graph.ofProgram apart).outcome = .ok g ∧
    (Graph.ofProgram ahead).outcome ≠ .ok g ∧ (g.order ahead).outcome = .ok [0, 1] ∧
    ¬ ahead.ValidOrder [0, 1] := by
  have built : (Graph.ofProgram apart).outcome =
      .ok ((Graph.ofResults apart).addEdges apart.links) := rfl
  have ordered : (((Graph.ofResults apart).addEdges apart.links).order ahead).outcome =
      .ok [0, 1] := by with_unfolding_all rfl
  refine ⟨_, built, ?_, ordered, ?_⟩
  · intro same
    have edges := congrArg Graph.edgeCount (Except.ok.inj same)
    cases edges
  · intro valid
    obtain ⟨source, bound, -, before⟩ := valid 0 _ rfl b (by decide)
    obtain rfl : source = 1 := Program.nameAt?_inj bound rfl
    exact absurd before (by decide)

/-- The names of `knot`, bound by actions that read nothing. -/
def untied : Program where
  actions := #[⟨a, .call join []⟩, ⟨b, .call join []⟩, ⟨c, .call join []⟩, ⟨d, .call join []⟩,
    ⟨e, .call join []⟩]
  returns := none
  nonempty := by decide
  distinct := by decide

/-- By the graph of `knot`, `untied` has the cycle of `knot`, and `ahead` is refused. -/
theorem describes_untied : ∃ g, (Graph.ofProgram knot).outcome = .ok g ∧
    g.describes untied = true ∧ g.order untied = g.order knot ∧
    (g.order untied).outcome = .error (.dependencyCycle b [b, c, d]) ∧
    g.describes ahead = false ∧ (g.order ahead).outcome = .error (.malformed .foreignGraph) ∧
    ({} : Graph).describes ahead = false := by
  have built : (Graph.ofProgram knot).outcome =
      .ok ((Graph.ofResults knot).addEdges knot.links) := rfl
  have failed : (((Graph.ofResults knot).addEdges knot.links).order knot).outcome =
      .error (.dependencyCycle b [b, c, d]) := by with_unfolding_all rfl
  obtain ⟨taken, same, -, -⟩ := Graph.describes_decides_order built untied
  obtain ⟨takenAhead, -, refused, empty⟩ := Graph.describes_decides_order built ahead
  have described := taken.mpr rfl
  have notDescribed := Bool.eq_false_iff.mpr (mt takenAhead.mp (by decide))
  obtain ⟨sameOrder, -⟩ := same described
  exact ⟨_, built, described, sameOrder, sameOrder ▸ failed, notDescribed, refused notDescribed,
    empty⟩

end Sample

end Sequencer
