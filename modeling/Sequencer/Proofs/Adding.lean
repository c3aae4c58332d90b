import Sequencer.Proofs.Deciding

/-!
# Edges in any order

An edge that is added again changes nothing, and the list at its target is kept sorted. So all that
is left of a run of additions is the set of its pairs, except that the readers of a position are
listed in the order in which they came. No additions are exchanged to show this. Every run leaves a
coherent graph whose edges are its pairs, and coherent graphs with the same edges agree in all
tables but that one.

## Main definitions

* `Graph.ofEdges`: the graph with a number of positions to which edges are added one after another.

## Main results

* `Graph.Alike.inDegree_eq`, `Graph.Alike.dependents_perm`, `Graph.Alike.edgeCount_eq`: graphs with
  the same edges agree in their counters, and list the same readers.
* `Graph.tables_of_same_pairs`: runs with the same pairs build the same tables.
-/

namespace Sequencer

namespace Graph

/-! ### Tables of graphs with the same edges -/

namespace Alike

variable {g h : Graph} (alike : g.Alike h)

include alike

theorem inDegree_eq (position : Nat) : g.inDegree position = h.inDegree position := by
  rw [alike.left.inDegree_eq, alike.right.inDegree_eq, alike.dependencies_eq]

/-- The readers of a position may be listed in another order. -/
theorem dependents_perm (position : Nat) :
    (g.dependents position).Perm (h.dependents position) := by
  have distinct := alike.left.nodup_dependents position
  have distinctOther := alike.right.nodup_dependents position
  refine (List.perm_ext_iff_of_nodup distinct distinctOther).mpr ?_
  intro target
  rw [alike.left.mem_dependents, alike.right.mem_dependents, alike.edge_iff]

theorem edgeCount_eq : g.edgeCount = h.edgeCount := by
  have edges : g.edges = h.edges := by
    ext ⟨source, target⟩
    rw [alike.left.mem_edges, alike.right.mem_edges, alike.edge_iff]
  rw [alike.left.edgeCount_eq, alike.right.edgeCount_eq, edges]

end Alike

/-! ### Graphs given by their edges -/

/-- The graph with the given number of positions, after adding the given edges one after another. -/
def ofEdges (count : Nat) (pairs : List (Nat × Nat)) : Graph :=
  (withNodes count).addEdges pairs

section OfEdges

variable {count : Nat} {pairs : List (Nat × Nat)}

theorem size_ofEdges (count : Nat) (pairs : List (Nat × Nat)) :
    (ofEdges count pairs).size = count := by
  rw [ofEdges, size_addEdges, size_withNodes]

variable (inside : ∀ pair ∈ pairs, pair.1 < count ∧ pair.2 < count)

include inside

private theorem lt_size_withNodes :
    ∀ pair ∈ pairs, pair.1 < (withNodes count).size ∧ pair.2 < (withNodes count).size := by
  rw [size_withNodes]
  exact inside

theorem coherent_ofEdges : (ofEdges count pairs).Coherent :=
  (coherent_withNodes count).addEdges (lt_size_withNodes inside)

/-- The edges are the pairs that were added. -/
theorem edge_ofEdges {source target : Nat} :
    (ofEdges count pairs).Edge source target ↔ (source, target) ∈ pairs := by
  have start := coherent_withNodes count
  rw [ofEdges, edge_addEdges start (lt_size_withNodes inside)]
  exact or_iff_right (start.not_edge_of_edgeCount_eq_zero rfl)

/-- Each pair is counted once, however often it was added. -/
theorem edgeCount_ofEdges : (ofEdges count pairs).edgeCount = pairs.toFinset.card := by
  have coherent := coherent_ofEdges inside
  have edges : (ofEdges count pairs).edges = pairs.toFinset := by
    ext ⟨source, target⟩
    rw [coherent.mem_edges, edge_ofEdges inside, List.mem_toFinset]
  rw [coherent.edgeCount_eq, edges]

end OfEdges

/-- If two runs of additions have the same pairs, in whatever order and however often, the graphs
that they build have the same dependencies and counters, and list the same readers at each position,
perhaps in another order. The dependencies are strictly ascending, there is an edge for each pair
and no other, and the number of edges is the number of distinct pairs. -/
theorem tables_of_same_pairs {count : Nat} {first second : List (Nat × Nat)}
    (inside : ∀ pair ∈ first, pair.1 < count ∧ pair.2 < count)
    (same : ∀ pair, pair ∈ first ↔ pair ∈ second) :
    ((ofEdges count first).size = count ∧ (ofEdges count second).size = count) ∧
      (∀ position,
        (ofEdges count first).dependencies position =
          (ofEdges count second).dependencies position ∧
        (ofEdges count first).inDegree position = (ofEdges count second).inDegree position ∧
        ((ofEdges count first).dependents position).Perm
          ((ofEdges count second).dependents position) ∧
        ((ofEdges count first).dependencies position).Pairwise (· < ·)) ∧
      (∀ source target,
        (ofEdges count first).hasEdge source target = true ↔ (source, target) ∈ first) ∧
      (ofEdges count first).edgeCount = (ofEdges count second).edgeCount ∧
      (ofEdges count first).edgeCount = first.toFinset.card := by
  have insideSecond : ∀ pair ∈ second, pair.1 < count ∧ pair.2 < count := by
    intro pair listed
    exact inside pair ((same pair).mpr listed)
  have coherent := coherent_ofEdges inside
  have alike : (ofEdges count first).Alike (ofEdges count second) := by
    refine ⟨coherent, coherent_ofEdges insideSecond, ?_, ?_⟩
    · rw [size_ofEdges, size_ofEdges]
    · intro source target
      rw [edge_ofEdges inside, edge_ofEdges insideSecond, same]
  refine ⟨⟨size_ofEdges count first, size_ofEdges count second⟩, ?_, ?_, alike.edgeCount_eq,
    edgeCount_ofEdges inside⟩
  · intro position
    exact ⟨congrFun alike.dependencies_eq position, alike.inDegree_eq position,
      alike.dependents_perm position, coherent.ascending position⟩
  · intro source target
    rw [hasEdge_eq_true_iff, edge_ofEdges inside]

end Graph

namespace Sample

/-- Two runs add four edges, one of them from a position to itself. They list the readers of the
first position in different orders. -/
theorem tables_of_four_pairs :
    (Graph.ofEdges 3 [(0, 2), (1, 2), (0, 2), (2, 2), (0, 1)]).dependents 0 = [2, 1] ∧
    (Graph.ofEdges 3 [(0, 1), (2, 2), (1, 2), (0, 2)]).dependents 0 = [1, 2] ∧
    [2, 1].Perm [1, 2] ∧
    (Graph.ofEdges 3 [(0, 2), (1, 2), (0, 2), (2, 2), (0, 1)]).dependencies 2 = [0, 1, 2] ∧
    (Graph.ofEdges 3 [(0, 1), (2, 2), (1, 2), (0, 2)]).dependencies 2 = [0, 1, 2] ∧
    (Graph.ofEdges 3 [(0, 1), (2, 2), (1, 2), (0, 2)]).edgeCount = 4 := by
  have fewer : ([(0, 2), (1, 2), (0, 2), (2, 2), (0, 1)] : List (Nat × Nat)) ⊆
      [(0, 1), (2, 2), (1, 2), (0, 2)] := by decide
  have more : ([(0, 1), (2, 2), (1, 2), (0, 2)] : List (Nat × Nat)) ⊆
      [(0, 2), (1, 2), (0, 2), (2, 2), (0, 1)] := by decide
  obtain ⟨-, tables, -, counts, total⟩ := @Graph.tables_of_same_pairs 3 _ _ (by decide)
    fun pair => ⟨@fewer pair, @more pair⟩
  obtain ⟨-, -, readers, -⟩ := tables 0
  have sources : (Graph.ofEdges 3 [(0, 2), (1, 2), (0, 2), (2, 2), (0, 1)]).dependencies 2 =
      [0, 1, 2] := by decide
  exact ⟨by decide, by decide, readers, sources, (tables 2).1 ▸ sources, counts ▸ total⟩

end Sample

end Sequencer
