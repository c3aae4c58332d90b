import Mathlib.Data.List.Count
import Mathlib.Data.List.Nodup
import Sequencer.Graph.Placement
import Sequencer.Proofs.Edges
import Sequencer.Proofs.Schedule

/-!
# What placing keeps

The state of a placement is sound if its counters count the positions still waited for and its ready
list holds what may come next. A step places the smallest ready position and lowers the counters of
those that read from it, which keeps the state sound. After as many steps as there are positions
nothing is ready any more; what is left then waits for something else that is left.

## Main definitions

* `Placement.Sound`: the invariant.

## Main results

* `Placement.Sound.step`, `Placement.Sound.run`: it is kept by a step and by a run.
* `Graph.ready_place`: when placing ends, nothing is ready.
* `Graph.waitingAt_place_pos_iff`: what is left is what still waits.
* `Graph.exists_waiting_source`: what is left reads from something that is left.
-/

namespace Sequencer

/-! ### Counting what is not yet listed -/

theorem countP_notMem_cons {xs done : List Nat} {position : Nat} (fresh : position ∉ done) :
    xs.countP (· ∉ position :: done) + xs.count position = xs.countP (· ∉ done) := by
  induction xs with
  | nil => rfl
  | cons x xs ih =>
    rw [List.countP_cons, List.countP_cons, List.count_cons, ← ih]
    -- `position` itself is counted on the right only, and `count` makes up for it.
    by_cases same : x = position
    · subst same
      simp only [List.mem_cons_self, not_true_eq_false, decide_false, Bool.false_eq_true, if_false,
        beq_self_eq_true, if_true, fresh, not_false_eq_true, decide_true]
      omega
    · simp only [List.mem_cons, same, false_or, beq_iff_eq, if_false]
      omega

theorem isReady_reverse {count : Nat} {reads : Nat → Nat → Prop} {done : List Nat}
    {position : Nat} :
    IsReady count reads done.reverse position ↔ IsReady count reads done position := by
  simp only [IsReady, List.mem_reverse]

/-- What is listed in an order that takes the smallest reads only from what is listed. -/
theorem TakesLeast.mem_of_reads {count : Nat} {reads : Nat → Nat → Prop} {order : List Nat}
    {source target : Nat} (taken : TakesLeast count reads order) (listed : target ∈ order)
    (read : reads source target) : source ∈ order := by
  obtain ⟨done, rest, rfl⟩ := List.append_of_mem listed
  obtain ⟨-, -, known⟩ := (taken done target rest rfl).1
  exact List.mem_append_left _ (known source read)

namespace Placement

variable {g : Graph} {p : Placement} {position : Nat}

/-- The counters and the ready list of a placement say what is true of the positions placed. -/
structure Sound (g : Graph) (p : Placement) : Prop where
  /-- There is a counter for every position. -/
  size_waiting : p.waiting.size = g.size
  /-- No position is placed twice. -/
  nodup_placed : p.placed.Nodup
  placed_lt : ∀ position ∈ p.placed, position < g.size
  /-- A counter gives the number of positions read from that are not placed. -/
  waitingAt_eq : ∀ position,
    p.waitingAt position = (g.dependencies position).countP (· ∉ p.placed)
  /-- What is ready is listed in ascending order, each position once. -/
  ascending : p.ready.Pairwise (· < ·)
  /-- What is ready is what is not placed and waits for nothing. -/
  mem_ready : ∀ {position}, position ∈ p.ready ↔
    position < g.size ∧ position ∉ p.placed ∧ p.waitingAt position = 0
  /-- Each position was the smallest ready one when it was placed. -/
  takesLeast : TakesLeast g.size g.Edge p.placed.reverse

/-! ### Releasing positions -/

theorem waitingAt_release (p : Placement) (released position : Nat) :
    (p.release released).waitingAt position =
      if released = position then p.waitingAt position - 1 else p.waitingAt position := by
  simp only [release, waitingAt, Array.getElem?_setIfInBounds]
  split
  · next here =>
    subst here
    split
    · rfl
    · next outside =>
      rw [Array.getElem?_eq_none (Nat.le_of_not_lt outside)]
      rfl
  · rfl

theorem mem_ready_release {released : Nat} :
    position ∈ (p.release released).ready ↔
      position ∈ p.ready ∨ position = released ∧ p.waitingAt released ≤ 1 := by
  simp only [release, Nat.sub_eq_zero_iff_le]
  split
  · next last => rw [mem_insertAscending, or_comm, and_iff_left last]
  · next more => simp [more]

section Releases

variable (targets : List Nat) (p : Placement)

@[simp]
theorem placed_foldl_release : (targets.foldl release p).placed = p.placed := by
  induction targets generalizing p with
  | nil => rfl
  | cons target rest ih => exact ih (p.release target)

@[simp]
theorem size_waiting_foldl_release :
    (targets.foldl release p).waiting.size = p.waiting.size := by
  induction targets generalizing p with
  | nil => rfl
  | cons target rest ih =>
    rw [List.foldl_cons, ih, release, Array.size_setIfInBounds]

/-- A counter goes down as often as its position is released. -/
theorem waitingAt_foldl_release (position : Nat) :
    (targets.foldl release p).waitingAt position =
      p.waitingAt position - targets.count position := by
  induction targets generalizing p with
  | nil => rfl
  | cons target rest ih =>
    rw [List.foldl_cons, ih, waitingAt_release, List.count_cons]
    by_cases here : target = position
    · simp only [here, beq_self_eq_true, if_true]
      omega
    · simp only [here, beq_iff_eq, if_false, Nat.add_zero]

variable {targets p}

/-- Of the positions released once each, those become ready that waited for one position. -/
theorem mem_ready_foldl_release (distinct : targets.Nodup) :
    position ∈ (targets.foldl release p).ready ↔
      position ∈ p.ready ∨ position ∈ targets ∧ p.waitingAt position ≤ 1 := by
  induction targets generalizing p with
  | nil => simp
  | cons target rest ih =>
    obtain ⟨notLater, restDistinct⟩ := List.nodup_cons.mp distinct
    rw [List.foldl_cons, ih restDistinct, mem_ready_release, waitingAt_release, List.mem_cons]
    by_cases here : position = target
    · subst here
      simp [notLater]
    · simp [here, Ne.symm here]

/-- The ready list stays ascending if no released position is on it. -/
theorem ascending_foldl_release (distinct : targets.Nodup)
    (fresh : ∀ target ∈ targets, target ∉ p.ready) (ascending : p.ready.Pairwise (· < ·)) :
    (targets.foldl release p).ready.Pairwise (· < ·) := by
  induction targets generalizing p with
  | nil => exact ascending
  | cons target rest ih =>
    obtain ⟨notLater, restDistinct⟩ := List.nodup_cons.mp distinct
    obtain ⟨freshHere, freshLater⟩ := List.forall_mem_cons.mp fresh
    apply ih restDistinct
    · intro later listed
      rw [mem_ready_release, not_or]
      exact ⟨freshLater later listed, fun entered => notLater (entered.1 ▸ listed)⟩
    · rw [release]
      split
      · exact pairwise_insertAscending ascending freshHere
      · exact ascending

end Releases

/-! ### What a step does -/

section Step

variable {rest : List Nat} (ready : p.ready = position :: rest)

include ready

theorem step_eq : p.step g = (g.dependents position).foldl release
    { p with placed := position :: p.placed, ready := rest } := by
  rw [step, ready]

theorem placed_step : (p.step g).placed = position :: p.placed := by
  rw [step_eq ready, placed_foldl_release]

theorem waitingAt_step (i : Nat) :
    (p.step g).waitingAt i = p.waitingAt i - (g.dependents position).count i := by
  rw [step_eq ready, waitingAt_foldl_release]
  rfl

theorem mem_ready_step (distinct : (g.dependents position).Nodup) {i : Nat} :
    i ∈ (p.step g).ready ↔ i ∈ rest ∨ i ∈ g.dependents position ∧ p.waitingAt i ≤ 1 := by
  rw [step_eq ready]
  exact mem_ready_foldl_release distinct

end Step

/-! ### Sound placements -/

namespace Sound

theorem waitingAt_eq_zero_iff (sound : p.Sound g) :
    p.waitingAt position = 0 ↔ ∀ source, g.Edge source position → source ∈ p.placed := by
  rw [sound.waitingAt_eq, List.countP_eq_zero]
  simp only [decide_eq_true_eq, not_not, Graph.Edge]

theorem mem_ready_iff_isReady (sound : p.Sound g) :
    position ∈ p.ready ↔ IsReady g.size g.Edge p.placed position := by
  rw [sound.mem_ready, sound.waitingAt_eq_zero_iff, IsReady]

/-- What is placed reads only from what is placed. -/
theorem mem_placed_of_edge (sound : p.Sound g) {source target : Nat} (placed : target ∈ p.placed)
    (edge : g.Edge source target) : source ∈ p.placed :=
  List.mem_reverse.mp (sound.takesLeast.mem_of_reads (List.mem_reverse.mpr placed) edge)

/-- What is placed are some of the positions, each once. -/
theorem subperm_range (sound : p.Sound g) : p.placed.Subperm (List.range g.size) := by
  apply List.subperm_of_subset sound.nodup_placed
  intro position placed
  exact List.mem_range.mpr (sound.placed_lt position placed)

theorem length_placed_le (sound : p.Sound g) : p.placed.length ≤ g.size := by
  have bound := sound.subperm_range.length_le
  rwa [List.length_range] at bound

/-- If as many positions are placed as there are, all are. -/
theorem perm_range_of_size_le (sound : p.Sound g) (full : g.size ≤ p.placed.length) :
    p.placed.Perm (List.range g.size) := by
  apply sound.subperm_range.perm_of_length_le
  rw [List.length_range]
  exact full

/-- Nothing is placed at the start, and the ready positions are those that read from none. -/
theorem start (coherent : g.Coherent) : (Placement.start g).Sound g := by
  have counters : ∀ position, (Placement.start g).waitingAt position = g.inDegree position := by
    intro position
    rw [waitingAt, Placement.start, Array.getElem?_map, Graph.inDegree, Graph.node]
    cases g.nodes[position]? <;> rfl
  refine ⟨?_, List.nodup_nil, ?_, ?_, ?_, ?_, TakesLeast.nil⟩
  · simp [Placement.start, Graph.size]
  · intro position placed
    exact absurd placed List.not_mem_nil
  · intro position
    rw [counters, coherent.inDegree_eq]
    simp [Placement.start]
  · exact List.pairwise_lt_range.filter _
  · intro position
    rw [counters]
    simp [Placement.start, Graph.roots]

/-- Counting down what reads from the placed position is counting it as placed. -/
private theorem waitingAt_after (sound : p.Sound g) (coherent : g.Coherent)
    (fresh : position ∉ p.placed) (i : Nat) :
    p.waitingAt i - (g.dependents position).count i =
      (g.dependencies i).countP (· ∉ position :: p.placed) := by
  -- The edge from `position` to `i` is listed at both ends or at none.
  have entries : (g.dependents position).count i = (g.dependencies i).count position := by
    rw [(coherent.nodup_dependents position).count, (coherent.nodup_dependencies i).count]
    exact if_congr coherent.mem_dependents rfl rfl
  rw [sound.waitingAt_eq, entries, ← countP_notMem_cons fresh, Nat.add_sub_cancel]

section Step

variable (coherent : g.Coherent) (sound : p.Sound g) {rest : List Nat}
  (ready : p.ready = position :: rest)

include sound ready

private theorem placed_now : position < g.size ∧ position ∉ p.placed ∧ p.waitingAt position = 0 :=
  sound.mem_ready.mp (ready ▸ List.mem_cons_self)

private theorem mem_rest_iff {i : Nat} : i ∈ rest ↔ i ∈ p.ready ∧ i ≠ position := by
  have sorted := sound.ascending
  rw [ready, List.pairwise_cons] at sorted
  rw [ready, List.mem_cons]
  constructor
  · intro later
    exact ⟨Or.inr later, (sorted.1 i later).ne'⟩
  · rintro ⟨listed, other⟩
    exact listed.resolve_left other

/-- What reads from the position just placed was neither placed nor ready: it still waits. -/
private theorem waits_of_edge {i : Nat} (edge : g.Edge position i) :
    0 < p.waitingAt i ∧ i ∉ p.placed ∧ i ≠ position := by
  obtain ⟨-, fresh, idle⟩ := sound.placed_now ready
  refine ⟨?_, ?_, ?_⟩
  · rw [Nat.pos_iff_ne_zero, ne_eq, sound.waitingAt_eq_zero_iff]
    intro known
    exact fresh (known position edge)
  · intro placed
    exact fresh (sound.mem_placed_of_edge placed edge)
  · intro same
    rw [same] at edge
    exact fresh (sound.waitingAt_eq_zero_iff.mp idle position edge)

/-- The position just placed was the smallest that could be. -/
private theorem isLeast_now :
    IsLeast {next | IsReady g.size g.Edge p.placed.reverse next} position := by
  have sorted := sound.ascending
  rw [ready, List.pairwise_cons] at sorted
  constructor
  · exact isReady_reverse.mpr (sound.mem_ready_iff_isReady.mp (ready ▸ List.mem_cons_self))
  · intro next mayFollow
    have alsoReady := sound.mem_ready_iff_isReady.mpr (isReady_reverse.mp mayFollow)
    rcases List.mem_cons.mp (ready ▸ alsoReady) with rfl | later
    · exact le_rfl
    · exact (sorted.1 next later).le

include coherent

private theorem ascending_step : (p.step g).ready.Pairwise (· < ·) := by
  rw [step_eq ready]
  have sorted := sound.ascending
  rw [ready, List.pairwise_cons] at sorted
  refine ascending_foldl_release (coherent.nodup_dependents position) ?_ sorted.2
  intro target released later
  have waits := (sound.waits_of_edge ready (coherent.mem_dependents.mp released)).1
  have wasReady := ((sound.mem_rest_iff ready).mp later).1
  exact waits.ne' (sound.mem_ready.mp wasReady).2.2

private theorem mem_ready_step_iff {i : Nat} :
    i ∈ (p.step g).ready ↔
      i < g.size ∧ i ∉ (p.step g).placed ∧ (p.step g).waitingAt i = 0 := by
  have distinct := coherent.nodup_dependents position
  rw [mem_ready_step ready distinct, sound.mem_rest_iff ready, sound.mem_ready, placed_step ready,
    waitingAt_step ready, List.mem_cons, not_or]
  -- Only what reads from `position` is touched. It becomes ready if it waited for nothing else.
  by_cases edge : g.Edge position i
  · obtain ⟨waits, unplaced, other⟩ := sound.waits_of_edge ready edge
    have released := coherent.mem_dependents.mpr edge
    have bounded := edge.target_lt
    rw [List.count_eq_one_of_mem distinct released]
    simp only [released, unplaced, other, bounded, true_and, not_false_eq_true]
    omega
  · have untouched : i ∉ g.dependents position := fun released =>
      edge (coherent.mem_dependents.mp released)
    rw [List.count_eq_zero.mpr untouched, Nat.sub_zero]
    tauto

end Step

/-- A step keeps a placement sound. -/
theorem step (coherent : g.Coherent) (sound : p.Sound g) : (p.step g).Sound g := by
  cases ready : p.ready with
  | nil =>
    rw [Placement.step, ready]
    exact sound
  | cons position rest =>
    obtain ⟨inside, fresh, -⟩ := sound.placed_now ready
    refine ⟨?_, ?_, ?_, ?_, sound.ascending_step coherent ready,
      sound.mem_ready_step_iff coherent ready, ?_⟩
    · rw [step_eq ready, size_waiting_foldl_release, sound.size_waiting]
    · rw [placed_step ready]
      exact List.nodup_cons.mpr ⟨fresh, sound.nodup_placed⟩
    · rw [placed_step ready]
      exact List.forall_mem_cons.mpr ⟨inside, sound.placed_lt⟩
    · intro i
      rw [waitingAt_step ready, placed_step ready]
      exact sound.waitingAt_after coherent fresh i
    · rw [placed_step ready, List.reverse_cons]
      exact sound.takesLeast.concat (sound.isLeast_now ready)

theorem run (coherent : g.Coherent) (count : Nat) (sound : p.Sound g) :
    (Placement.run g count p).Sound g := by
  induction count generalizing p with
  | zero => exact sound
  | succ count ih => exact ih (sound.step coherent)

end Sound

/-! ### The end of a run -/

theorem run_eq_of_ready_eq_nil (done : p.ready = []) (count : Nat) : run g count p = p := by
  induction count with
  | zero => rfl
  | succ count ih => rw [run, step, done, ih]

theorem length_placed_step (more : p.ready ≠ []) :
    (p.step g).placed.length = p.placed.length + 1 := by
  obtain ⟨position, rest, ready⟩ := List.exists_cons_of_ne_nil more
  rw [placed_step ready, List.length_cons]

/-- Each step places one more position or finds none ready, so enough steps leave none ready. -/
theorem ready_run_eq_nil (coherent : g.Coherent) (sound : p.Sound g) {count : Nat}
    (enough : g.size ≤ p.placed.length + count) : (run g count p).ready = [] := by
  induction count generalizing p with
  | zero =>
    rw [run, List.eq_nil_iff_forall_not_mem]
    intro position listed
    obtain ⟨inside, fresh, -⟩ := sound.mem_ready.mp listed
    have all := sound.perm_range_of_size_le enough
    exact fresh (all.mem_iff.mpr (List.mem_range.mpr inside))
  | succ count ih =>
    by_cases done : p.ready = []
    · rw [run_eq_of_ready_eq_nil done, done]
    · refine ih (sound.step coherent) ?_
      rw [length_placed_step done]
      omega

end Placement

namespace Graph

variable {g : Graph} {position : Nat}

theorem sound_place (coherent : g.Coherent) : g.place.Sound g :=
  (Placement.Sound.start coherent).run coherent g.size

theorem ready_place (coherent : g.Coherent) : g.place.ready = [] :=
  Placement.ready_run_eq_nil coherent (Placement.Sound.start coherent) (Nat.le_add_left _ _)

/-- What is left in the end is what still waits. -/
theorem waitingAt_place_pos_iff (coherent : g.Coherent) :
    0 < g.place.waitingAt position ↔ position < g.size ∧ position ∉ g.place.placed := by
  have sound := sound_place coherent
  constructor
  · intro waits
    rw [sound.waitingAt_eq, List.countP_pos_iff] at waits
    obtain ⟨source, edge, unplaced⟩ := waits
    refine ⟨Edge.target_lt edge, ?_⟩
    intro placed
    exact of_decide_eq_true unplaced (sound.mem_placed_of_edge placed edge)
  · rintro ⟨inside, unplaced⟩
    -- Otherwise it would be ready, and nothing is.
    by_contra idle
    have ready := sound.mem_ready.mpr ⟨inside, unplaced, Nat.eq_zero_of_not_pos idle⟩
    rw [ready_place coherent] at ready
    exact List.not_mem_nil ready

/-- What is left reads from something that is left. -/
theorem exists_waiting_source (coherent : g.Coherent) (waits : 0 < g.place.waitingAt position) :
    ∃ source, g.Edge source position ∧ 0 < g.place.waitingAt source := by
  rw [(sound_place coherent).waitingAt_eq, List.countP_pos_iff] at waits
  obtain ⟨source, edge, unplaced⟩ := waits
  exact ⟨source, edge, (waitingAt_place_pos_iff coherent).mpr
    ⟨coherent.source_lt edge, of_decide_eq_true unplaced⟩⟩

end Graph

end Sequencer
