import Mathlib.Algebra.BigOperators.Group.Finset.Basic
import Sequencer.Proofs.Ordering

/-!
# The tables of a linked graph

The graph of a program keeps its edges at both ends and counts them, for each position and as a
whole. Linking goes through the readers in ascending order, so an edge that is new ends at a reader
that is not below any reader entered before. Hence the readers of a position are listed in
ascending order too, although nothing sorts them.

## Main results

* `Graph.Coherent.ascending_dependents`: edges that are added by ascending target leave the readers
  of each position ascending.
* `Graph.Coherent.edgeCount_eq_sum_dependencies`, `Graph.Coherent.edgeCount_eq_sum_dependents`: the
  edges are counted at either end.
* `Graph.tables_of_ofProgram`: all tables of the graph of a program, in terms of the program.
-/

namespace Sequencer

/-- Pairs are counted by listing, for each second component, the first ones that go with it. -/
theorem card_eq_sum_length {pairs : Finset (Nat × Nat)} {count : Nat} {listed : Nat → List Nat}
    (inside : ∀ pair ∈ pairs, pair.2 < count) (distinct : ∀ second, (listed second).Nodup)
    (mem_listed : ∀ {first second}, first ∈ listed second ↔ (first, second) ∈ pairs) :
    pairs.card = ∑ second ∈ Finset.range count, (listed second).length := by
  have maps : (pairs : Set (Nat × Nat)).MapsTo Prod.snd (Finset.range count) := by
    intro pair member
    exact Finset.mem_coe.mpr (Finset.mem_range.mpr (inside pair member))
  rw [Finset.card_eq_sum_card_fiberwise maps]
  apply Finset.sum_congr rfl
  intro second _
  -- The pairs with one second component are those of the first ones listed for it.
  have fiber : {pair ∈ pairs | pair.2 = second} =
      (listed second).toFinset.image fun first => (first, second) := by
    ext ⟨first, other⟩
    simp only [Finset.mem_filter, Finset.mem_image, List.mem_toFinset, mem_listed, Prod.mk.injEq]
    constructor
    · rintro ⟨member, rfl⟩
      exact ⟨first, member, rfl, rfl⟩
    · rintro ⟨_, member, rfl, rfl⟩
      exact ⟨member, rfl⟩
  rw [fiber, Finset.card_image_of_injective _ (Prod.mk_left_injective second),
    List.toFinset_card_of_nodup (distinct second)]

namespace Graph

variable {g : Graph} {program : Program}

/-! ### Counting edges at either end -/

namespace Coherent

theorem edgeCount_eq_sum_dependencies (coherent : g.Coherent) :
    g.edgeCount = ∑ position ∈ Finset.range g.size, (g.dependencies position).length := by
  rw [coherent.edgeCount_eq]
  apply card_eq_sum_length _ coherent.nodup_dependencies coherent.mem_edges.symm
  rintro ⟨source, target⟩ member
  exact (coherent.mem_edges.mp member).target_lt

theorem edgeCount_eq_sum_dependents (coherent : g.Coherent) :
    g.edgeCount = ∑ position ∈ Finset.range g.size, (g.dependents position).length := by
  -- Seen from the source, every edge is the swapped pair.
  have swapped : ∀ {source target},
      target ∈ g.dependents source ↔ (target, source) ∈ g.edges.image Prod.swap := by
    intro source target
    rw [coherent.mem_dependents, ← coherent.mem_edges, Finset.mem_image]
    constructor
    · intro member
      exact ⟨_, member, rfl⟩
    · rintro ⟨⟨_, _⟩, member, ⟨⟩⟩
      exact member
  rw [coherent.edgeCount_eq, ← Finset.card_image_of_injective g.edges Prod.swap_injective]
  apply card_eq_sum_length _ coherent.nodup_dependents swapped
  rintro ⟨target, source⟩ member
  exact coherent.source_lt (coherent.mem_dependents.mp (swapped.mpr member))

/-! ### Readers in ascending order -/

/-- One more edge, whose target is not below those entered at its source. -/
theorem ascending_dependents_addEdge {source target : Nat} (coherent : g.Coherent)
    (sourceLt : source < g.size) (targetLt : target < g.size)
    (ascending : ∀ position, (g.dependents position).Pairwise (· < ·))
    (latest : ∀ reader, g.Edge source reader → reader ≤ target) (position : Nat) :
    ((g.addEdge source target).dependents position).Pairwise (· < ·) := by
  by_cases present : g.Edge source target
  · rw [addEdge_of_edge (coherent.ascending target) present]
    exact ascending position
  rw [dependents_addEdge_of_new (coherent.ascending target) present sourceLt targetLt]
  split
  · next here =>
    subst here
    refine List.pairwise_append.mpr ⟨ascending source, List.pairwise_singleton _ _, ?_⟩
    intro reader listed last isLast
    rw [List.mem_singleton.mp isLast]
    have edge := coherent.mem_dependents.mp listed
    -- The new target is not listed yet, so what is listed lies strictly below it.
    apply lt_of_le_of_ne (latest reader edge)
    rintro rfl
    exact present edge
  · exact ascending position

/-- Edges added by ascending target leave the readers of each position ascending. -/
theorem ascending_dependents {pairs : List (Nat × Nat)} (coherent : g.Coherent)
    (inside : ∀ pair ∈ pairs, pair.1 < g.size ∧ pair.2 < g.size)
    (sorted : pairs.Pairwise fun earlier later => earlier.2 ≤ later.2)
    (ascending : ∀ position, (g.dependents position).Pairwise (· < ·))
    (latest : ∀ source reader, g.Edge source reader → ∀ pair ∈ pairs, reader ≤ pair.2)
    (position : Nat) : ((g.addEdges pairs).dependents position).Pairwise (· < ·) := by
  -- The run keeps it true that no reader entered so far lies above a target still to come.
  induction pairs generalizing g with
  | nil => exact ascending position
  | cons pair pairs ih =>
    obtain ⟨⟨sourceLt, targetLt⟩, rest⟩ := List.forall_mem_cons.mp inside
    obtain ⟨below, sortedRest⟩ := List.pairwise_cons.mp sorted
    rw [addEdges_cons]
    apply ih (coherent.addEdge sourceLt targetLt) _ sortedRest
    · apply coherent.ascending_dependents_addEdge sourceLt targetLt ascending
      intro reader edge
      exact latest pair.1 reader edge pair List.mem_cons_self
    · intro source reader edge later member
      rw [edge_addEdge coherent sourceLt targetLt] at edge
      rcases edge with edge | ⟨-, rfl⟩
      · exact latest source reader edge later (List.mem_cons_of_mem _ member)
      · exact below later member
    · simpa only [size_addEdge] using rest

end Coherent

theorem pairwise_snd_zipIdx {α : Type} (xs : List α) :
    xs.zipIdx.Pairwise fun earlier later => earlier.2 < later.2 := by
  apply List.pairwise_map.mp
  rw [List.zipIdx_map_snd]
  exact List.pairwise_lt_range'

/-- The edges of a program are added by ascending target. -/
theorem pairwise_links (program : Program) :
    program.links.Pairwise fun earlier later => earlier.2 ≤ later.2 := by
  have demands : program.demands.Pairwise fun earlier later => earlier.2.2 ≤ later.2.2 := by
    rw [Program.demands, List.pairwise_flatMap]
    -- The target stays the same within an action and grows from one action to the next.
    constructor
    · intro entry _
      rw [Program.demandsOf, List.pairwise_map]
      exact List.pairwise_of_forall fun _ _ => le_rfl
    · apply (pairwise_snd_zipIdx _).imp
      intro first second before demand member other memberOther
      obtain ⟨_, _, rfl⟩ := List.mem_map.mp member
      obtain ⟨_, _, rfl⟩ := List.mem_map.mp memberOther
      exact before.le
  rw [Program.links]
  apply demands.filterMap
  intro demand other before pair linked otherPair otherLinked
  obtain ⟨_, _, rfl⟩ := Option.map_eq_some_iff.mp linked
  obtain ⟨_, _, rfl⟩ := Option.map_eq_some_iff.mp otherLinked
  exact before

/-! ### The graph of a program -/

/-- The readers of a position are listed in ascending order. -/
theorem ascending_dependents_of_link (linked : link program = .ok g) (position : Nat) :
    (g.dependents position).Pairwise (· < ·) := by
  have start := coherent_ofResults program
  have edgeless := not_edge_ofResults program
  have empty : ∀ position, (ofResults program).dependents position = [] := by
    intro position
    rw [List.eq_nil_iff_forall_not_mem]
    intro reader listed
    exact edgeless position reader (start.mem_dependents.mp listed)
  rw [eq_addEdges_of_link linked]
  apply start.ascending_dependents lt_size_of_mem_links (pairwise_links program)
  · intro position
    rw [empty]
    exact List.Pairwise.nil
  · intro source reader edge
    exact absurd edge (edgeless source reader)

/-- The positions that read from none are those of actions that read nothing. -/
theorem Represents.mem_roots_iff (represents : g.Represents program)
    (resolved : program.Resolved) {position : Nat} :
    position ∈ g.roots ↔
      ∃ action ∈ program.actions[position]?, ∀ name, ¬ action.Reads name := by
  have idle : g.inDegree position = 0 ↔ ∀ source, ¬ program.Reads source position := by
    rw [represents.coherent.inDegree_eq, List.length_eq_zero_iff, List.eq_nil_iff_forall_not_mem]
    exact forall_congr' fun source => not_congr represents.edge_iff
  rw [roots, List.mem_filter, List.mem_range, beq_iff_eq, idle, represents.size_eq]
  constructor
  · rintro ⟨inside, unread⟩
    refine ⟨_, Array.getElem?_eq_getElem inside, ?_⟩
    intro name reads
    -- Every name that is read is bound somewhere, which would make an edge.
    have bound := resolved.1 _ (Array.getElem_mem inside) name reads
    obtain ⟨source, boundSource⟩ := Program.binds_iff_exists_nameAt?.mp bound
    exact unread source ⟨name, boundSource, _, Array.getElem?_eq_getElem inside, reads⟩
  · rintro ⟨action, found, nothing⟩
    refine ⟨(Array.getElem?_eq_some_iff.mp found).1, ?_⟩
    rintro source ⟨name, -, reader, foundReader, reads⟩
    obtain rfl : action = reader := Option.some_inj.mp (found.symm.trans foundReader)
    exact nothing name reads

/-- The graph of a program has the positions of its actions and the names at them. There is an edge
exactly where an action reads another one. Both lists of neighbours are strictly ascending and hold
exactly the other ends of the edges, the roots are the positions of the actions that read nothing,
and the number of edges is the total length of the lists at either end. -/
theorem tables_of_ofProgram (built : (ofProgram program).outcome = .ok g) :
    g.size = program.size ∧
      (∀ name position, g.declarer name = some position ↔
        ∃ action, program.actions[position]? = some action ∧ action.result = name) ∧
      (∀ source target, g.hasEdge source target = true ↔
        source < program.size ∧ target < program.size ∧ program.Reads source target) ∧
      (∀ position, (g.dependencies position).Pairwise (· < ·) ∧
        ∀ source, source ∈ g.dependencies position ↔ g.hasEdge source position = true) ∧
      (∀ position, (g.dependents position).Pairwise (· < ·) ∧
        ∀ target, target ∈ g.dependents position ↔ g.hasEdge position target = true) ∧
      (g.roots.Pairwise (· < ·) ∧ ∀ position, position ∈ g.roots ↔
        ∃ action ∈ program.actions[position]?, ∀ name, ¬ action.Reads name) ∧
      g.edgeCount = ∑ position ∈ Finset.range g.size, (g.dependencies position).length ∧
      g.edgeCount = ∑ position ∈ Finset.range g.size, (g.dependents position).length := by
  have linked := outcome_ofProgram_eq_ok_iff.mp built
  have represents := represents_of_link linked
  have resolved := exists_link_iff_resolved.mp ⟨g, linked⟩
  have coherent := represents.coherent
  refine ⟨represents.size_eq, ?_, ?_, ?_, ?_, ⟨?_, ?_⟩,
    coherent.edgeCount_eq_sum_dependencies, coherent.edgeCount_eq_sum_dependents⟩
  · intro name position
    rw [represents.declarer_iff, Program.nameAt?_eq_some_iff]
  · intro source target
    rw [hasEdge_eq_true_iff, represents.edge_iff, ← and_assoc]
    exact (and_iff_right_of_imp Program.Reads.lt_size).symm
  · intro position
    refine ⟨coherent.ascending position, ?_⟩
    intro source
    exact hasEdge_eq_true_iff.symm
  · intro position
    refine ⟨ascending_dependents_of_link linked position, ?_⟩
    intro target
    rw [coherent.mem_dependents, hasEdge_eq_true_iff]
  · exact List.pairwise_lt_range.filter _
  · intro position
    exact represents.mem_roots_iff resolved

end Graph

namespace Sample

/-- `b` reads `a`, which is declared after it, three times and at different depths. It also reads
itself. -/
def echo : Program where
  actions := #[
    ⟨b, .call join [.reference a [],
      .array [.reference b [], .object [("k", .reference a [])] []] [],
      .reference a [.index 0]]⟩,
    ⟨c, .assign (.reference a [])⟩,
    ⟨a, .assign (.input [])⟩]
  returns := none
  nonempty := by decide
  distinct := by decide

/-- The edges of `echo` are from `a` to the other two and from `b` to itself, each counted once. -/
theorem tables_echo : ∃ g, (Graph.ofProgram echo).outcome = .ok g ∧
    g.dependencies 0 = [0, 2] ∧ g.dependents 2 = [0, 1] ∧ g.roots = [2] ∧ g.edgeCount = 3 ∧
    (∀ source, source ∈ [0, 2] ↔ g.hasEdge source 0 = true) ∧
    g.edgeCount = ∑ position ∈ Finset.range g.size, (g.dependents position).length := by
  have built : (Graph.ofProgram echo).outcome =
      .ok ((Graph.ofResults echo).addEdges echo.links) := rfl
  obtain ⟨-, -, -, atTarget, -, -, -, total⟩ := Graph.tables_of_ofProgram built
  exact ⟨_, built, by decide, by decide, by decide, by decide, (atTarget 0).2, total⟩

end Sample

end Sequencer
