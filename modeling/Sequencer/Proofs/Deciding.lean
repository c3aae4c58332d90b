import Mathlib.Data.List.Sort
import Sequencer.Proofs.Conversion

/-!
# What decides an outcome

Placing looks at a graph only through its positions and its edges. The edges are found in ascending
order at each position, in whatever order and however often they were added, and what has been placed
determines the counters and the ready list. So two graphs with the same edges are placed in step, and
a walk along what waits passes the same positions. Hence two programs with the same dependencies by
position are put in the same order or have the same cycle, whatever their names are and whatever their
actions do.

## Main definitions

* `Graph.Alike`: two graphs have the same positions and the same edges.
* `Graph.sort`: the positions of a graph in order, or else the positions of a cycle.
* `Program.Parallel`: two programs have the same dependencies by position.

## Main results

* `Placement.Sound.eq_of_placed_eq`: what has been placed determines a placement.
* `Graph.Alike.run_eq`: graphs with the same edges are placed in step.
* `Program.Parallel.sort_eq`: programs with the same dependencies are sorted alike.
* `Limits.outcome_convert_eq`: how a conversion ends, by the names that are read and the positions.
-/

namespace Sequencer

/-- What has been placed determines the counters and the ready list. -/
theorem Placement.Sound.eq_of_placed_eq {g : Graph} {p q : Placement} (sound : p.Sound g)
    (soundOther : q.Sound g) (placed : p.placed = q.placed) : p = q := by
  have counters : ∀ position, p.waitingAt position = q.waitingAt position := by
    intro position
    rw [sound.waitingAt_eq, soundOther.waitingAt_eq, placed]
  have waiting : p.waiting = q.waiting := by
    apply Array.ext (sound.size_waiting.trans soundOther.size_waiting.symm)
    intro position inside insideOther
    have entry := counters position
    rwa [waitingAt, waitingAt, Array.getElem?_eq_getElem inside,
      Array.getElem?_eq_getElem insideOther, Option.getD_some, Option.getD_some] at entry
  have ready : p.ready = q.ready := by
    apply sound.ascending.eq_of_mem_iff soundOther.ascending
    intro position
    rw [sound.mem_ready, soundOther.mem_ready, placed, counters]
  calc p = ⟨p.placed, p.waiting, p.ready⟩ := rfl
    _ = ⟨q.placed, q.waiting, q.ready⟩ := by rw [placed, waiting, ready]

/-! ### Graphs with the same edges -/

namespace Graph

/-- Coherent graphs with the same positions and the same edges. Their names may differ, and so may
the order in which they list the readers of a position. -/
structure Alike (g h : Graph) : Prop where
  left : g.Coherent
  right : h.Coherent
  size_eq : g.size = h.size
  edge_iff : ∀ {source target}, g.Edge source target ↔ h.Edge source target

/-- The positions in an order in which each comes after those it reads from. If there is none, the
positions of a cycle. -/
def sort (g : Graph) : Except (List Nat) (List Nat) :=
  if g.place.placed.length < g.size then .error (g.findCycle g.place)
  else .ok g.place.placed.reverse

/-- A graph that describes a program orders it by sorting its own positions. -/
theorem outcome_order_of_describes {g : Graph} {program : Program}
    (describes : g.describes program = true) :
    (g.order program).outcome =
      g.sort.mapError fun ring => cycleFailure (program.namesAt ring) := by
  rw [order, if_pos describes, sort]
  simp only [List.length_reverse]
  split <;> rfl

/-- If sorting ends with a cycle, it has a position, and all its positions lie in the graph. -/
theorem Coherent.ring_of_sort {g : Graph} {ring : List Nat} (coherent : g.Coherent)
    (stuck : g.sort = .error ring) : ring ≠ [] ∧ ∀ position ∈ ring, position < g.size := by
  rw [sort] at stuck
  split at stuck
  · next left =>
    obtain ⟨least, rest, found, isRing, -⟩ := findCycle_eq coherent left
    obtain rfl : g.findCycle g.place = ring := Except.error.inj stuck
    rw [found]
    refine ⟨isRing.ne_nil, ?_⟩
    intro position listed
    exact ((waitingAt_place_pos_iff coherent).mp (isRing.waits position listed)).1
  · cases stuck

/-- In a program with as many actions, the failure that reports the cycle has a name to start with. -/
theorem Coherent.exists_cycleFailure_eq {g : Graph} {program : Program} {ring : List Nat}
    (coherent : g.Coherent) (size : g.size = program.size) (stuck : g.sort = .error ring) :
    ∃ name rest, cycleFailure (program.namesAt ring) = .dependencyCycle name (name :: rest) := by
  obtain ⟨nonempty, inside⟩ := coherent.ring_of_sort stuck
  obtain ⟨first, others, rfl⟩ := List.exists_cons_of_ne_nil nonempty
  obtain ⟨name, bound⟩ := Program.exists_nameAt? (size ▸ inside first List.mem_cons_self)
  have names : program.namesAt (first :: others) = name :: program.namesAt others :=
    List.filterMap_cons_some bound
  rw [names]
  exact ⟨name, _, rfl⟩

namespace Alike

variable {g h : Graph} {p : Placement} (alike : g.Alike h)

include alike

theorem dependencies_eq : g.dependencies = h.dependencies := by
  funext position
  apply (alike.left.ascending position).eq_of_mem_iff (alike.right.ascending position)
  intro source
  exact alike.edge_iff

theorem edge_eq : g.Edge = h.Edge := by
  funext source target
  exact propext alike.edge_iff

/-- Soundness speaks only of the number of positions and of the edges. -/
theorem sound (sound : p.Sound g) : p.Sound h := by
  have size := alike.size_eq
  have edges := alike.edge_eq
  have dependencies := alike.dependencies_eq
  refine ⟨size ▸ sound.size_waiting, sound.nodup_placed, size ▸ sound.placed_lt,
    dependencies ▸ sound.waitingAt_eq, sound.ascending, ?_, ?_⟩
  · exact size ▸ sound.mem_ready
  · exact size ▸ edges ▸ sound.takesLeast

/-- Both graphs have the same positions ready, so a step places the same one. -/
theorem step_eq (sound : p.Sound g) : p.step g = p.step h := by
  have after := alike.sound (sound.step alike.left)
  have afterOther := (alike.sound sound).step alike.right
  apply after.eq_of_placed_eq afterOther
  cases ready : p.ready with
  | nil => rw [Placement.step, Placement.step, ready]
  | cons position rest => rw [Placement.placed_step ready, Placement.placed_step ready]

theorem run_eq (count : Nat) (sound : p.Sound g) :
    Placement.run g count p = Placement.run h count p := by
  induction count generalizing p with
  | zero => rfl
  | succ count ih =>
    rw [Placement.run, Placement.run, ih (sound.step alike.left), alike.step_eq sound]

theorem place_eq : g.place = h.place := by
  have sound := Placement.Sound.start alike.left
  have start : Placement.start g = Placement.start h :=
    (alike.sound sound).eq_of_placed_eq (Placement.Sound.start alike.right) rfl
  rw [place, place, alike.run_eq g.size sound, start, alike.size_eq]

/-- A walk goes on to the smallest position that is read from and waits, which is the same in both
graphs. -/
theorem follow_eq (count : Nat) (trail : List Nat) (current : Nat) :
    p.follow g count trail current = p.follow h count trail current := by
  induction count generalizing trail current with
  | zero => rfl
  | succ count ih =>
    rw [Placement.follow, Placement.follow, Placement.nextWaiting, Placement.nextWaiting,
      alike.dependencies_eq]
    simp only [ih]

theorem sort_eq : g.sort = h.sort := by
  have cycles : g.findCycle h.place = h.findCycle h.place := by
    rw [findCycle, findCycle, alike.size_eq]
    simp only [alike.follow_eq]
  rw [sort, sort, alike.place_eq, alike.size_eq, cycles]

end Alike

end Graph

/-! ### Programs with the same dependencies -/

namespace Program

variable {p q : Program}

/-- The graph of a program, with edges for those names that are bound. -/
def graph (program : Program) : Graph :=
  (Graph.ofResults program).addEdges program.links

theorem represents_graph (program : Program) : program.graph.Represents program :=
  Graph.represents_addEdges_links program

/-- What is read, action by action and then by the return value. -/
theorem readings_eq (program : Program) :
    program.readings =
      program.actions.toList.flatMap (fun action =>
        action.references.map (·, some action.result)) ++
      (program.returns.toList.flatMap Source.references).map (·, none) := by
  have actions : program.demands.map (fun demand => (demand.1, some demand.2.1)) =
      program.actions.toList.flatMap fun action =>
        action.references.map (·, some action.result) := by
    rw [demands, List.map_flatMap]
    -- The positions play no part, so the actions may be taken without them.
    conv_rhs => rw [← List.zipIdx_map_fst 0 program.actions.toList, List.flatMap_map]
    simp only [demandsOf, List.map_map, Function.comp_def]
  rw [readings, actions]

/-- Actions at the same positions depend on each other. -/
structure Parallel (p q : Program) : Prop where
  size_eq : p.size = q.size
  reads_iff : ∀ {source target}, p.Reads source target ↔ q.Reads source target

namespace Parallel

variable (parallel : p.Parallel q)

include parallel

theorem sort_eq : p.graph.sort = q.graph.sort := by
  have first := p.represents_graph
  have second := q.represents_graph
  apply Graph.Alike.sort_eq
  refine ⟨first.coherent, second.coherent, ?_, ?_⟩
  · rw [first.size_eq, second.size_eq, parallel.size_eq]
  · intro source target
    rw [first.edge_iff, second.edge_iff, parallel.reads_iff]

theorem dependencyPairs_eq : p.dependencyPairs = q.dependencyPairs := by
  ext ⟨source, target⟩
  rw [mem_dependencyPairs, mem_dependencyPairs, parallel.reads_iff]

end Parallel

end Program

/-- How a conversion ends. Names matter for what is read and not bound, positions for all that comes
after that. -/
theorem Limits.outcome_convert_eq (limits : Limits) (program : Program) :
    (limits.convert program).outcome =
      if limits.maxActions.toNat < program.size then
        .error (.tooManyActions program.size limits.maxActions.toNat)
      else
        match program.readings.find? fun reading => ¬ program.Binds reading.1 with
        | some reading => .error (.unresolvedReference reading.1 reading.2)
        | none =>
          if limits.maxEdges.toNat < program.dependencyPairs.card then
            .error (.tooManyEdges program.dependencyPairs.card limits.maxEdges.toNat)
          else
            (program.graph.sort.mapError fun ring =>
              Graph.cycleFailure (program.namesAt ring)).map (Sequence.arrange program) := by
  have represents := program.represents_graph
  rw [outcome_convert, Graph.link_eq, ← represents.edgeCount_eq,
    ← Graph.outcome_order_of_describes represents.describes]
  split
  · rfl
  · cases program.readings.find? fun reading => decide (¬ program.Binds reading.1) <;> rfl

end Sequencer
