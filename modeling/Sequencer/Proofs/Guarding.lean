import Sequencer.Proofs.Checking
import Sequencer.Proofs.Deciding
import Sequencer.Proofs.Searching

/-!
# No default is ever used

Look-ups are total: outside a table they give a default, and a counter that is at zero stays there
when it is lowered. Such a default would hide a miscount. None is ever used, because all tables of a
graph are about the same edges, and because a counter counts what is still waited for. This holds for
the graph of any program, also when it is used to order another program that has the same names at
the same positions: then the graph has as many positions as that program has actions.

In a conversion the order is checked in three ways that do not depend on how it was found. It passes
all of them.

## Main definitions

* `Placement.StepsInside`: the next step of a placement looks up only what is there.
* `Placement.WalksInside`: so does a walk along positions that wait.
* `Graph.OrdersInside`: so does ordering a program by a graph.

## Main results

* `Graph.Coherent.ordersInside`: a coherent graph orders any program in this way.
* `Limits.orders_inside_and_passes_checks`: this holds for all graphs that there are, and the order
  passes its checks.
-/

namespace Sequencer

namespace Placement

variable {g : Graph} {p : Placement}

/-- The next step looks up only what is there. The position that it places lies in the graph and has
not been placed, and each position that it releases has a counter, which is not at zero when its turn
comes. -/
def StepsInside (g : Graph) (p : Placement) : Prop :=
  ∀ position rest, p.ready = position :: rest →
    position < g.nodes.size ∧ position ∉ p.placed ∧
      ∀ done target later, g.dependents position = done ++ target :: later →
        let q := done.foldl release { p with placed := position :: p.placed, ready := rest }
        target < q.waiting.size ∧ 0 < q.waitingAt target

/-- Wherever the walk along waiting positions comes, the position lies in the graph, and each
position that it reads from has a counter. -/
def WalksInside (g : Graph) (p : Placement) : Prop :=
  ∀ first ∈ p.firstWaiting, ∀ current,
    Relation.ReflTransGen (fun here next => p.nextWaiting g here = some next) first current →
      current < g.nodes.size ∧ ∀ source ∈ g.dependencies current, source < p.waiting.size

theorem Sound.stepsInside (coherent : g.Coherent) (sound : p.Sound g) : p.StepsInside g := by
  intro position rest ready
  obtain ⟨inside, fresh, -⟩ := sound.mem_ready.mp (ready ▸ List.mem_cons_self)
  refine ⟨inside, fresh, ?_⟩
  intro done target later split
  have released : target ∈ g.dependents position := by
    rw [split]
    simp
  have edge := coherent.mem_dependents.mp released
  -- A position is released once, so its counter is still what it was before the step.
  have untouched : target ∉ done := by
    intro already
    have distinct := coherent.nodup_dependents position
    rw [split] at distinct
    exact (List.nodup_append.mp distinct).2.2 target already target List.mem_cons_self rfl
  have waits : 0 < p.waitingAt target := by
    rw [Nat.pos_iff_ne_zero, ne_eq, sound.waitingAt_eq_zero_iff]
    intro known
    exact fresh (known position edge)
  constructor
  · rw [size_waiting_foldl_release, sound.size_waiting]
    exact edge.target_lt
  · rw [waitingAt_foldl_release, List.count_eq_zero.mpr untouched]
    exact waits

end Placement

namespace Graph

variable {g : Graph} {program : Program}

/-- A graph that there is: the empty one, or the graph of some program. -/
def Obtained (g : Graph) : Prop :=
  g = {} ∨ ∃ program, (ofProgram program).outcome = .ok g

/-- Ordering a program by a graph, which may have been made for another program, looks up only what
is there. -/
structure OrdersInside (g : Graph) (program : Program) : Prop where
  /-- At every stage of placing, so does the next step; in particular no position is placed twice. -/
  steps : ∀ count, (Placement.run g count (Placement.start g)).StepsInside g
  walk : g.place.WalksInside g
  /-- The program has an action at every position of a cycle. -/
  cycle_lt : g.describes program = true → g.place.placed.length < g.size →
    ∀ position ∈ g.findCycle g.place, position < program.actions.size
  /-- The program has an action at every position of an order, and no position occurs twice. -/
  order_lt : ∀ order, (g.order program).outcome = .ok order →
    order.Nodup ∧ ∀ position ∈ order, position < program.actions.size
  /-- If positions are left over, a cycle among them is found. -/
  located : (g.order program).outcome ≠ .error (.malformed .cycleNotLocated)

theorem Obtained.coherent (obtained : g.Obtained) : g.Coherent := by
  rcases obtained with rfl | ⟨program, built⟩
  · exact @coherent_of_nodes_eq {} 0 rfl rfl
  · exact (represents_of_link (outcome_ofProgram_eq_ok_iff.mp built)).coherent

theorem size_eq_of_describes (describes : g.describes program = true) :
    g.size = program.size := by
  simp only [Graph.describes, Bool.and_eq_true, beq_iff_eq] at describes
  exact describes.1.1

namespace Coherent

variable (coherent : g.Coherent)

include coherent

theorem walksInside : g.place.WalksInside g := by
  intro first found current path
  -- A walk starts where something waits, and goes on only to where something waits.
  have waits : 0 < g.place.waitingAt current := by
    cases path with
    | refl =>
      have isWaiting := List.find?_some found
      exact of_decide_eq_true isWaiting
    | tail _ goesOn => exact (Placement.edge_of_nextWaiting goesOn).2
  refine ⟨((waitingAt_place_pos_iff coherent).mp waits).1, ?_⟩
  intro source edge
  rw [(sound_place coherent).size_waiting]
  exact coherent.source_lt edge

/-- Every position of a cycle has an action in any program that the graph describes. -/
theorem lt_of_mem_findCycle (describes : g.describes program = true)
    (left : g.place.placed.length < g.size) :
    ∀ position ∈ g.findCycle g.place, position < program.actions.size := by
  have stuck : g.sort = .error (g.findCycle g.place) := if_pos left
  intro position listed
  have inside := (coherent.ring_of_sort stuck).2 position listed
  rwa [size_eq_of_describes describes] at inside

/-- An order repeats no position, and the program has an action at each. -/
theorem nodup_order {order : List Nat} (ordered : (g.order program).outcome = .ok order) :
    order.Nodup ∧ ∀ position ∈ order, position < program.actions.size := by
  have sound := sound_place coherent
  by_cases describes : g.describes program = true
  · rw [outcome_order_of_describes describes, sort] at ordered
    split at ordered
    · cases ordered
    · obtain rfl : g.place.placed.reverse = order := Except.ok.inj ordered
      refine ⟨List.nodup_reverse.mpr sound.nodup_placed, ?_⟩
      intro position placed
      have inside := sound.placed_lt position (List.mem_reverse.mp placed)
      rwa [size_eq_of_describes describes] at inside
  · rw [Graph.order, if_neg describes] at ordered
    cases ordered

/-- What waits for ever waits for something that does, so the walk comes round and the cycle has a
name to report. -/
theorem order_ne_cycleNotLocated (program : Program) :
    (g.order program).outcome ≠ .error (.malformed .cycleNotLocated) := by
  intro lost
  by_cases describes : g.describes program = true
  · rw [outcome_order_of_describes describes] at lost
    cases sorted : g.sort with
    | ok order =>
      rw [sorted] at lost
      cases lost
    | error ring =>
      obtain ⟨name, rest, named⟩ :=
        coherent.exists_cycleFailure_eq (size_eq_of_describes describes) sorted
      rw [sorted] at lost
      cases named.symm.trans (Except.error.inj lost)
  · rw [Graph.order, if_neg describes] at lost
    cases lost

theorem ordersInside (program : Program) : g.OrdersInside program where
  steps count := ((Placement.Sound.start coherent).run coherent count).stepsInside coherent
  walk := coherent.walksInside
  cycle_lt := coherent.lt_of_mem_findCycle
  order_lt _ := coherent.nodup_order
  located := coherent.order_ne_cycleNotLocated program

end Coherent

/-- An order of a program by its own graph passes the checks. -/
theorem Represents.passes_checks (represents : g.Represents program) (resolved : program.Resolved)
    {order : List Nat} (ordered : (g.order program).outcome = .ok order) :
    g.isAcyclic = true ∧ (Sequence.arrange program order).bindsBeforeUse = true ∧
      (Sequence.arrange program order).completes program = true := by
  refine ⟨?_, ?_⟩
  · rw [isAcyclic_eq_true_iff represents.coherent, ← represents.exists_order_iff]
    exact ⟨order, ordered⟩
  · rcases represents.order_cases with ⟨other, found, perm, taken⟩ | ⟨-, name, cycle, failed, -⟩
    · obtain rfl : other = order := Except.ok.inj (found.symm.trans ordered)
      have schedule := taken.isSchedule perm fun reads => (Program.Reads.lt_size reads).2
      exact ⟨Sequence.bindsBeforeUse_arrange resolved schedule, Sequence.completes_arrange perm⟩
    · cases failed.symm.trans ordered

end Graph

/-- Ordering any program by any graph that there is looks up only what is there. Whenever a
conversion comes to an order, the search for cycles finds none in the graph, and the sequence passes
both of its checks. -/
theorem Limits.orders_inside_and_passes_checks :
    (∀ g : Graph, g.Obtained → ∀ program, g.OrdersInside program) ∧
      ∀ (limits : Limits) (program : Program) (g : Graph) (order : List Nat),
        ¬ limits.maxActions.toNat < program.size → (Graph.ofProgram program).outcome = .ok g →
        ¬ limits.maxEdges.toNat < g.edgeCount → (g.order program).outcome = .ok order →
        g.isAcyclic = true ∧
          (limits.convert program).outcome = .ok (Sequence.arrange program order) ∧
          (Sequence.arrange program order).bindsBeforeUse = true ∧
          (Sequence.arrange program order).completes program = true := by
  constructor
  · intro g obtained program
    exact obtained.coherent.ordersInside program
  · intro limits program g order small built sparse ordered
    have linked := Graph.outcome_ofProgram_eq_ok_iff.mp built
    have resolved := Graph.exists_link_iff_resolved.mp ⟨g, linked⟩
    obtain ⟨acyclic, checks⟩ := (Graph.represents_of_link linked).passes_checks resolved ordered
    refine ⟨acyclic, ?_, checks⟩
    rw [outcome_convert, if_neg small, linked]
    dsimp only
    rw [if_neg sparse, ordered]
    rfl

namespace Sample

/-- The names of `knot`, bound by actions that read nothing. -/
def loose : Program where
  actions := (knot.actions.toList.map fun action => ⟨action.result, .assign (.input [])⟩).toArray
  returns := none
  nonempty := by decide
  distinct := by decide

/-- The graph of `knot` finds its own cycle in `loose`, which has none, and looks up only what is
there. The order of `diamond` passes its checks. -/
theorem orders_inside_loose :
    (∃ g, (Graph.ofProgram knot).outcome = .ok g ∧
      (g.order loose).outcome = .error (.dependencyCycle b [b, c, d]) ∧ g.OrdersInside loose) ∧
    ∃ g, (Graph.ofProgram diamond).outcome = .ok g ∧
      (g.order diamond).outcome = .ok [3, 1, 2, 0, 4] ∧ g.isAcyclic = true ∧
      (Sequence.arrange diamond [3, 1, 2, 0, 4]).bindsBeforeUse = true ∧
      (Sequence.arrange diamond [3, 1, 2, 0, 4]).completes diamond = true := by
  have builtKnot : (Graph.ofProgram knot).outcome = .ok knot.graph := rfl
  have builtDiamond : (Graph.ofProgram diamond).outcome = .ok diamond.graph := rfl
  have ordered : (diamond.graph.order diamond).outcome = .ok [3, 1, 2, 0, 4] := by
    with_unfolding_all rfl
  obtain ⟨inside, checks⟩ := Limits.orders_inside_and_passes_checks
  obtain ⟨acyclic, -, passes⟩ := checks {} diamond diamond.graph _ (by decide) builtDiamond
    (by decide) ordered
  exact ⟨⟨_, builtKnot, by with_unfolding_all rfl, inside _ (Or.inr ⟨knot, builtKnot⟩) loose⟩,
    _, builtDiamond, ordered, acyclic, passes⟩

end Sample

end Sequencer
