import Mathlib.Data.Finset.Prod
import Mathlib.Data.Finset.Card
import Sequencer.Graph.Basic

/-!
# Coherent graphs

A graph keeps the same edges four times: at the target, at the source, as a number for each target
and as a number for the whole. It is coherent if these agree. Without edges it is, and an added edge
keeps it so; hence it is whatever edges are added, in whatever order and however often.

## Main definitions

* `Graph.Edge`, `Graph.edges`: the edges as a relation and as a set.
* `Graph.Coherent`: all tables of the graph are about these edges.
* `Graph.addEdges`: adds edges one after another.

## Main results

* `Graph.Coherent.addEdge`: one more edge keeps a graph coherent.
* `Graph.edge_addEdges`: the edges after a run of additions are those before and those added.
-/

namespace Sequencer

namespace Graph

variable {g : Graph} {source target position : Nat}

/-- The position `target` reads from the position `source`. -/
def Edge (g : Graph) (source target : Nat) : Prop :=
  source ∈ g.dependencies target

instance (g : Graph) : DecidableRel g.Edge := fun source target =>
  inferInstanceAs (Decidable (source ∈ g.dependencies target))

/-- The edges between positions of the graph. -/
def edges (g : Graph) : Finset (Nat × Nat) :=
  {pair ∈ Finset.range g.size ×ˢ Finset.range g.size | g.Edge pair.1 pair.2}

/-- The tables of a graph are about the same edges. -/
structure Coherent (g : Graph) : Prop where
  /-- The positions that a position reads from are listed in ascending order, each once. -/
  ascending : ∀ position, (g.dependencies position).Pairwise (· < ·)
  /-- An edge that is listed at one end is listed at the other. -/
  mem_dependents : ∀ {source target}, target ∈ g.dependents source ↔ g.Edge source target
  /-- An edge is listed once at its source. -/
  nodup_dependents : ∀ position, (g.dependents position).Nodup
  /-- The edges at each target are counted. -/
  inDegree_eq : ∀ position, g.inDegree position = (g.dependencies position).length
  /-- All edges are counted. -/
  edgeCount_eq : g.edgeCount = g.edges.card

/-- Adds edges one after another. -/
def addEdges (g : Graph) (pairs : List (Nat × Nat)) : Graph :=
  pairs.foldl (fun g pair => g.addEdge pair.1 pair.2) g

@[simp]
theorem hasEdge_eq_true_iff : g.hasEdge source target = true ↔ g.Edge source target := by
  simp [hasEdge, Edge, dependencies]

/-! ### Positions beyond the graph -/

theorem node_eq_of_size_le (outside : g.size ≤ position) : g.node position = {} := by
  rw [node, Array.getElem?_eq_none outside, Option.getD_none]

theorem Edge.target_lt (edge : g.Edge source target) : target < g.size := by
  by_contra outside
  rw [Edge, dependencies, node_eq_of_size_le (Nat.le_of_not_lt outside)] at edge
  exact List.not_mem_nil edge

namespace Coherent

theorem source_lt (coherent : g.Coherent) (edge : g.Edge source target) : source < g.size := by
  by_contra outside
  have listed := coherent.mem_dependents.mpr edge
  rw [dependents, node_eq_of_size_le (Nat.le_of_not_lt outside)] at listed
  exact List.not_mem_nil listed

theorem nodup_dependencies (coherent : g.Coherent) (position : Nat) :
    (g.dependencies position).Nodup :=
  (coherent.ascending position).imp Nat.ne_of_lt

theorem mem_edges (coherent : g.Coherent) :
    (source, target) ∈ g.edges ↔ g.Edge source target := by
  simp only [edges, Finset.mem_filter, Finset.mem_product, Finset.mem_range,
    and_iff_right_iff_imp]
  exact fun edge => ⟨coherent.source_lt edge, edge.target_lt⟩

/-- All edges are counted, so there is none if none has been counted. -/
theorem not_edge_of_edgeCount_eq_zero (coherent : g.Coherent) (none : g.edgeCount = 0) :
    ¬ g.Edge source target := by
  intro edge
  have listed := coherent.mem_edges.mpr edge
  rw [coherent.edgeCount_eq, Finset.card_eq_zero] at none
  rw [none] at listed
  exact Finset.notMem_empty _ listed

end Coherent

/-! ### One more edge -/

/-- An edge that is there already changes nothing. -/
theorem addEdge_of_edge (ascending : (g.dependencies target).Pairwise (· < ·))
    (edge : g.Edge source target) : g.addEdge source target = g := by
  have listed : source ∈ (g.node target).readsFrom := List.mem_reverse.mp edge
  have present := (insertDescending_eq_none_iff (List.pairwise_reverse.mp ascending)).mpr listed
  rw [addEdge, present]

/-- A new edge is entered at both of its ends, and every other entry stays. -/
theorem node_addEdge {readsFrom : List Nat}
    (added : insertDescending source (g.node target).readsFrom = some readsFrom)
    (sourceLt : source < g.size) (targetLt : target < g.size) (position : Nat) :
    (g.addEdge source target).node position =
      { readsFrom := if target = position then readsFrom else (g.node position).readsFrom
        readBy := if source = position then target :: (g.node position).readBy
          else (g.node position).readBy
        inDegree := if target = position then (g.node position).inDegree + 1
          else (g.node position).inDegree } := by
  -- Beyond the graph nothing is entered, because both ends lie in it.
  rcases Nat.lt_or_ge position g.size with inside | outside
  · have found := Array.getElem?_eq_getElem inside
    rw [addEdge, added]
    simp only [node, Array.getElem?_modify, found]
    by_cases atTarget : target = position <;> by_cases atSource : source = position <;>
      simp [atTarget, atSource]
  · have targetNe : target ≠ position := by omega
    have sourceNe : source ≠ position := by omega
    have stillOutside : (g.addEdge source target).size ≤ position := by
      rw [size_addEdge]
      exact outside
    rw [node_eq_of_size_le stillOutside, node_eq_of_size_le outside, if_neg targetNe,
      if_neg sourceNe, if_neg targetNe]

section New

variable (ascending : (g.dependencies target).Pairwise (· < ·)) (new : ¬ g.Edge source target)
  (sourceLt : source < g.size) (targetLt : target < g.size)

include ascending new

private theorem exists_insertDescending :
    ∃ readsFrom, insertDescending source (g.node target).readsFrom = some readsFrom := by
  cases added : insertDescending source (g.node target).readsFrom with
  | none =>
    have sorted := List.pairwise_reverse.mp ascending
    exact absurd (List.mem_reverse.mpr ((insertDescending_eq_none_iff sorted).mp added)) new
  | some readsFrom => exact ⟨readsFrom, rfl⟩

theorem edgeCount_addEdge_of_new : (g.addEdge source target).edgeCount = g.edgeCount + 1 := by
  obtain ⟨readsFrom, added⟩ := exists_insertDescending ascending new
  rw [addEdge, added]

include sourceLt targetLt

theorem dependents_addEdge_of_new (position : Nat) :
    (g.addEdge source target).dependents position =
      if source = position then g.dependents position ++ [target] else g.dependents position := by
  obtain ⟨readsFrom, added⟩ := exists_insertDescending ascending new
  rw [dependents, node_addEdge added sourceLt targetLt]
  by_cases here : source = position <;> simp [here, dependents]

theorem inDegree_addEdge_of_new (position : Nat) :
    (g.addEdge source target).inDegree position =
      if target = position then g.inDegree position + 1 else g.inDegree position := by
  obtain ⟨readsFrom, added⟩ := exists_insertDescending ascending new
  rw [inDegree, node_addEdge added sourceLt targetLt]
  rfl

/-- The list at the target is still ascending, with one more member. -/
theorem dependencies_addEdge_of_new :
    ((g.addEdge source target).dependencies target).Pairwise (· < ·) ∧
      ((g.addEdge source target).dependencies target).Perm (source :: g.dependencies target) := by
  obtain ⟨readsFrom, added⟩ := exists_insertDescending ascending new
  have sorted := List.pairwise_reverse.mp ascending
  have sortedAfter := pairwise_of_insertDescending_eq_some sorted added
  rw [dependencies, node_addEdge added sourceLt targetLt]
  simp only [if_true, List.pairwise_reverse]
  refine ⟨sortedAfter, ?_⟩
  -- Both lists are without repetition, so it is enough that they have the same members.
  refine (List.perm_ext_iff_of_nodup ?_ ?_).mpr ?_
  · exact List.nodup_reverse.mpr (sortedAfter.imp Nat.ne_of_gt)
  · exact List.nodup_cons.mpr ⟨new, ascending.imp Nat.ne_of_lt⟩
  · intro x
    simp only [List.mem_reverse, List.mem_cons, dependencies]
    exact mem_of_insertDescending_eq_some added

theorem dependencies_addEdge_of_ne (other : position ≠ target) :
    (g.addEdge source target).dependencies position = g.dependencies position := by
  obtain ⟨readsFrom, added⟩ := exists_insertDescending ascending new
  rw [dependencies, node_addEdge added sourceLt targetLt]
  simp [other.symm, dependencies]

end New

section Step

variable (coherent : g.Coherent) (sourceLt : source < g.size) (targetLt : target < g.size)

include coherent sourceLt targetLt

theorem edge_addEdge {s t : Nat} :
    (g.addEdge source target).Edge s t ↔ g.Edge s t ∨ s = source ∧ t = target := by
  have ascending := coherent.ascending target
  by_cases present : g.Edge source target
  · rw [addEdge_of_edge ascending present]
    constructor
    · exact Or.inl
    · intro edge
      rcases edge with edge | ⟨rfl, rfl⟩
      · exact edge
      · exact present
  · by_cases here : t = target
    · subst here
      have members := (dependencies_addEdge_of_new ascending present sourceLt targetLt).2
      rw [Edge, members.mem_iff, List.mem_cons, or_comm]
      simp [Edge]
    · rw [Edge, dependencies_addEdge_of_ne ascending present sourceLt targetLt here]
      simp [here, Edge]

theorem edges_addEdge : (g.addEdge source target).edges = insert (source, target) g.edges := by
  ext ⟨s, t⟩
  simp only [edges, Finset.mem_filter, Finset.mem_product, Finset.mem_range, size_addEdge,
    Finset.mem_insert, Prod.mk.injEq, edge_addEdge coherent sourceLt targetLt]
  constructor
  · rintro ⟨inside, edge⟩
    rcases edge with edge | same
    · exact Or.inr ⟨inside, edge⟩
    · exact Or.inl same
  · intro listed
    rcases listed with ⟨rfl, rfl⟩ | ⟨inside, edge⟩
    · exact ⟨⟨sourceLt, targetLt⟩, Or.inr ⟨rfl, rfl⟩⟩
    · exact ⟨inside, Or.inl edge⟩

/-- One more edge keeps a graph coherent. -/
theorem Coherent.addEdge : (g.addEdge source target).Coherent := by
  have ascending := coherent.ascending target
  by_cases present : g.Edge source target
  · rw [addEdge_of_edge ascending present]
    exact coherent
  have atTarget := dependencies_addEdge_of_new ascending present sourceLt targetLt
  have elsewhere : ∀ {position}, position ≠ target →
      (g.addEdge source target).dependencies position = g.dependencies position :=
    dependencies_addEdge_of_ne ascending present sourceLt targetLt
  have listedAt := dependents_addEdge_of_new ascending present sourceLt targetLt
  refine ⟨?_, ?_, ?_, ?_, ?_⟩
  · intro position
    by_cases here : position = target
    · exact here ▸ atTarget.1
    · exact elsewhere here ▸ coherent.ascending position
  · intro s t
    rw [listedAt, edge_addEdge coherent sourceLt targetLt, ← coherent.mem_dependents]
    split
    · next here => simp [here]
    · next other => simp [Ne.symm other]
  · intro position
    rw [listedAt]
    split
    · next here =>
      -- The new target is not listed yet, since the edge is new.
      subst here
      rw [List.nodup_append]
      refine ⟨coherent.nodup_dependents source, List.nodup_singleton target, ?_⟩
      intro known listed last isLast same
      rw [same, List.mem_singleton.mp isLast] at listed
      exact present (coherent.mem_dependents.mp listed)
    · exact coherent.nodup_dependents position
  · intro position
    rw [inDegree_addEdge_of_new ascending present sourceLt targetLt, coherent.inDegree_eq]
    split
    · next here => rw [← here, atTarget.2.length_eq, List.length_cons]
    · next other => rw [elsewhere (Ne.symm other)]
  · have fresh : (source, target) ∉ g.edges := fun listed =>
      present (coherent.mem_edges.mp listed)
    rw [edgeCount_addEdge_of_new ascending present, edges_addEdge coherent sourceLt targetLt,
      Finset.card_insert_of_notMem fresh, coherent.edgeCount_eq]

end Step

/-! ### Runs of additions -/

@[simp]
theorem addEdges_nil (g : Graph) : g.addEdges [] = g := rfl

@[simp]
theorem addEdges_cons (g : Graph) (pair : Nat × Nat) (pairs : List (Nat × Nat)) :
    g.addEdges (pair :: pairs) = (g.addEdge pair.1 pair.2).addEdges pairs := rfl

@[simp]
theorem size_addEdges (g : Graph) (pairs : List (Nat × Nat)) :
    (g.addEdges pairs).size = g.size := by
  induction pairs generalizing g with
  | nil => rfl
  | cons pair pairs ih => rw [addEdges_cons, ih, size_addEdge]

@[simp]
theorem declarer_addEdges (g : Graph) (pairs : List (Nat × Nat)) (name : Name) :
    (g.addEdges pairs).declarer name = g.declarer name := by
  induction pairs generalizing g with
  | nil => rfl
  | cons pair pairs ih => rw [addEdges_cons, ih, declarer_addEdge]

/-- A graph without edges is coherent, whatever names it has. -/
theorem coherent_of_nodes_eq {count : Nat} (nodes : g.nodes = Array.replicate count {})
    (edgeCount : g.edgeCount = 0) : g.Coherent := by
  have empty : ∀ position, g.node position = {} := by
    intro position
    rw [node, nodes, Array.getElem?_replicate]
    split <;> rfl
  have edgeless : g.edges = ∅ := by
    rw [edges, Finset.filter_eq_empty_iff]
    intro pair _ edge
    rw [Edge, dependencies, empty] at edge
    exact List.not_mem_nil edge
  refine ⟨?_, ?_, ?_, ?_, by rw [edgeCount, edgeless, Finset.card_empty]⟩ <;>
    simp [dependencies, dependents, inDegree, Edge, empty]

theorem coherent_withNodes (count : Nat) : (withNodes count).Coherent :=
  coherent_of_nodes_eq rfl rfl

theorem Coherent.addEdges {pairs : List (Nat × Nat)} (coherent : g.Coherent)
    (inside : ∀ pair ∈ pairs, pair.1 < g.size ∧ pair.2 < g.size) :
    (g.addEdges pairs).Coherent := by
  induction pairs generalizing g with
  | nil => exact coherent
  | cons pair pairs ih =>
    obtain ⟨⟨sourceLt, targetLt⟩, rest⟩ := List.forall_mem_cons.mp inside
    rw [addEdges_cons]
    refine ih (coherent.addEdge sourceLt targetLt) ?_
    simpa only [size_addEdge] using rest

/-- The edges after a run of additions are those before and those added. -/
theorem edge_addEdges {pairs : List (Nat × Nat)} (coherent : g.Coherent)
    (inside : ∀ pair ∈ pairs, pair.1 < g.size ∧ pair.2 < g.size) :
    (g.addEdges pairs).Edge source target ↔ g.Edge source target ∨ (source, target) ∈ pairs := by
  induction pairs generalizing g with
  | nil => simp
  | cons pair pairs ih =>
    obtain ⟨⟨sourceLt, targetLt⟩, rest⟩ := List.forall_mem_cons.mp inside
    have kept : ∀ pair' ∈ pairs, pair'.1 < (g.addEdge pair.1 pair.2).size ∧
        pair'.2 < (g.addEdge pair.1 pair.2).size := by
      simpa only [size_addEdge] using rest
    rw [addEdges_cons, ih (coherent.addEdge sourceLt targetLt) kept,
      edge_addEdge coherent sourceLt targetLt, or_assoc, List.mem_cons, Prod.ext_iff]

end Graph

end Sequencer
