import Mathlib.Data.List.Cycle
import Sequencer.Graph.Order
import Sequencer.Proofs.Placing

/-!
# The cycle that is found

When placing ends early, each position that is left goes on to the smallest position it reads from
that is left too. A walk along these has to come back to its own trail, since it can only pass as
many positions as there are. The part of the trail from there on, the last position first, is a
ring: each position reads from the one before it, and the first from the last. Turning a ring keeps
it one.

## Main definitions

* `Placement.IsRing`: distinct waiting positions, each of which goes on to the one before it.

## Main results

* `Placement.isRing_follow`: a walk that goes on long enough ends in a ring.
* `Graph.findCycle_eq`: what is found is a ring that starts with its smallest position.
* `Placement.IsRing.eq_singleton_of_edge`: if the smallest position of such a ring reads from
  itself, it is the only one.
-/

namespace Sequencer

/-! ### Cutting a list at a member -/

theorem drop_idxOf_append_cons_self {before after : List Nat} {x : Nat} (fresh : x ∉ before) :
    (before ++ x :: after).drop ((before ++ x :: after).idxOf x) = x :: after := by
  rw [idxOf_append_cons_self fresh, List.drop_left]

theorem rotateLeft_idxOf_append_cons_self {before after : List Nat} {x : Nat}
    (fresh : x ∉ before) :
    (before ++ x :: after).rotateLeft ((before ++ x :: after).idxOf x) = x :: after ++ before := by
  rw [idxOf_append_cons_self fresh, List.rotateLeft]
  split
  next short =>
    -- A list of one member is not turned at all.
    rw [List.length_append, List.length_cons] at short
    rw [List.eq_nil_of_length_eq_zero (by omega : before.length = 0), List.nil_append,
      List.append_nil]
  next =>
    dsimp only
    rw [Nat.mod_eq_of_lt (by simp), List.drop_left, List.take_left]

/-- A list is turned so that its smallest member comes first. -/
theorem startAtLeast_eq {ring : List Nat} (nonempty : ring ≠ []) :
    ∃ least rest, startAtLeast ring = least :: rest ∧ (least :: rest).IsRotated ring ∧
      ∀ x ∈ ring, least ≤ x := by
  obtain ⟨least, found⟩ := Option.isSome_iff_exists.mp (List.isSome_min?_of_ne_nil nonempty)
  obtain ⟨listed, smallest⟩ := List.min?_eq_some_iff.mp found
  obtain ⟨before, after, rfl, fresh⟩ := List.eq_append_cons_of_mem listed
  refine ⟨least, after ++ before, ?_, ?_, smallest⟩
  · simp only [startAtLeast, found]
    rw [rotateLeft_idxOf_append_cons_self fresh, List.cons_append]
  · rw [← List.cons_append]
    exact List.isRotated_append

namespace Placement

variable {g : Graph} {p : Placement} {position : Nat}

/-! ### Going on to what is waited for -/

/-- A position goes on to one that it reads from and that waits too. -/
theorem edge_of_nextWaiting {next : Nat} (goesOn : p.nextWaiting g position = some next) :
    g.Edge next position ∧ 0 < p.waitingAt next := by
  have waits := List.find?_some goesOn
  exact ⟨List.mem_of_find?_eq_some goesOn, of_decide_eq_true waits⟩

/-- The position gone on to is the smallest such. -/
theorem nextWaiting_le {next source : Nat} (coherent : g.Coherent)
    (goesOn : p.nextWaiting g position = some next) (edge : g.Edge source position)
    (waits : 0 < p.waitingAt source) : next ≤ source := by
  obtain ⟨-, before, after, split, skipped⟩ := List.find?_eq_some_iff_append.mp goesOn
  have sorted := coherent.ascending position
  rw [split] at sorted
  rw [Graph.Edge, split] at edge
  -- The search skipped what comes before `next`, so nothing there waits.
  rcases List.mem_append.mp edge with earlier | later
  · simpa [waits.ne'] using skipped source earlier
  · rcases List.mem_cons.mp later with rfl | later
    · exact le_rfl
    · exact (List.rel_of_pairwise_cons (List.pairwise_append.mp sorted).2.1 later).le

/-- Distinct waiting positions, each of which goes on to the one before it, and the first one to the
last. -/
structure IsRing (g : Graph) (p : Placement) (ring : List Nat) : Prop where
  ne_nil : ring ≠ []
  nodup : ring.Nodup
  waits : ∀ position ∈ ring, 0 < p.waitingAt position
  goesOn : (ring : Cycle Nat).Chain fun next position => p.nextWaiting g position = some next

namespace IsRing

variable {ring : List Nat}

theorem of_isRotated {turned : List Nat} (isRing : IsRing g p ring)
    (rotated : turned.IsRotated ring) : IsRing g p turned := by
  refine ⟨?_, rotated.nodup_iff.mpr isRing.nodup, ?_, ?_⟩
  · intro empty
    rw [empty] at rotated
    exact isRing.ne_nil (List.isRotated_nil_iff'.mp rotated).symm
  · intro position listed
    exact isRing.waits position (rotated.mem_iff.mp listed)
  · rw [Cycle.coe_eq_coe.mpr rotated]
    exact isRing.goesOn

/-- Each position of a ring reads from the one before it. -/
theorem chain_edge (isRing : IsRing g p ring) : (ring : Cycle Nat).Chain g.Edge :=
  isRing.goesOn.imp fun _ _ goesOn => (edge_of_nextWaiting goesOn).1

/-- Every position of a ring is part of a cycle of edges. -/
theorem transGen_self {least : Nat} {rest : List Nat} (isRing : IsRing g p (least :: rest)) :
    Relation.TransGen g.Edge least least := by
  have chain := isRing.chain_edge
  rw [Cycle.chain_coe_cons] at chain
  -- Edges need not be transitive, but paths are: those along the chain end at `least` again.
  have paths := (chain.imp fun _ _ => Relation.TransGen.single).pairwise
  exact List.rel_of_pairwise_cons paths (by simp)

/-- If the smallest position of a ring reads from itself, it goes on to itself and is the only
one. -/
theorem eq_singleton_of_edge {least : Nat} {rest : List Nat} (coherent : g.Coherent)
    (isRing : IsRing g p (least :: rest)) (smallest : ∀ x ∈ rest, least ≤ x)
    (edge : g.Edge least least) : rest = [] := by
  have chain := isRing.goesOn
  rw [Cycle.chain_ne_nil _ isRing.ne_nil, List.isChain_cons_cons] at chain
  have atMost := nextWaiting_le coherent chain.1 edge (isRing.waits least List.mem_cons_self)
  by_contra more
  -- The last position is what `least` goes on to: not more than `least`, and not `least` itself.
  have lastMem : (least :: rest).getLast isRing.ne_nil ∈ rest := by
    rw [List.getLast_cons more]
    exact List.getLast_mem more
  have same := le_antisymm atMost (smallest _ lastMem)
  exact (List.nodup_cons.mp isRing.nodup).1 (same ▸ lastMem)

end IsRing

/-! ### Walking until the trail is met -/

/-- A walk in which every position goes on ends in a ring, if it may take more steps than there are
positions off its trail. -/
theorem isRing_follow
    (bounded : ∀ {position}, 0 < p.waitingAt position → position < g.size)
    (continues : ∀ {position}, 0 < p.waitingAt position →
      ∃ next, p.nextWaiting g position = some next)
    {count : Nat} {trail : List Nat} {current : Nat} (distinct : trail.Nodup)
    (waits : ∀ position ∈ current :: trail, 0 < p.waitingAt position)
    (walked : (current :: trail).IsChain fun next position => p.nextWaiting g position = some next)
    (enough : g.size < trail.length + count) : IsRing g p (p.follow g count trail current) := by
  induction count generalizing trail current with
  | zero =>
    -- The trail would have more distinct positions than there are.
    have subset : trail ⊆ List.range g.size := by
      intro position listed
      exact List.mem_range.mpr (bounded (waits position (List.mem_cons_of_mem _ listed)))
    have short := (List.subperm_of_subset distinct subset).length_le
    rw [List.length_range] at short
    omega
  | succ count ih =>
    rw [follow]
    split
    · next met =>
      -- The trail has the latest position first: what lies before `current` in it was walked since.
      obtain ⟨after, before, rfl⟩ := List.append_of_mem (List.contains_iff_mem.mp met)
      have fresh : current ∉ before.reverse := by
        rw [List.mem_reverse]
        exact (List.nodup_cons.mp (List.nodup_append.mp distinct).2.1).1
      have walk : (after ++ current :: before).reverse =
          before.reverse ++ current :: after.reverse := by
        simp
      dsimp only
      rw [walk, drop_idxOf_append_cons_self fresh, List.reverse_cons, List.reverse_reverse]
      have closed : (after ++ [current]) <:+: current :: (after ++ current :: before) :=
        ⟨[current], before, by simp⟩
      refine ⟨by simp, distinct.sublist (by simp), ?_, ?_⟩
      · intro position listed
        exact waits position (closed.subset listed)
      · rw [← Cycle.coe_cons_eq_coe_append, Cycle.chain_coe_cons]
        exact walked.infix ⟨[], before, by simp⟩
    · next unmet =>
      have here : current ∉ trail := by
        intro listed
        exact unmet (List.contains_iff_mem.mpr listed)
      obtain ⟨next, goesOn⟩ := continues (waits current List.mem_cons_self)
      rw [goesOn]
      apply ih (List.nodup_cons.mpr ⟨here, distinct⟩)
      · exact List.forall_mem_cons.mpr ⟨(edge_of_nextWaiting goesOn).2, waits⟩
      · exact List.isChain_cons_cons.mpr ⟨goesOn, walked⟩
      · rw [List.length_cons]
        omega

end Placement

namespace Graph

variable {g : Graph}

/-- If not all positions could be placed, the first of them that waits is found. -/
theorem exists_firstWaiting (coherent : g.Coherent) (left : g.place.placed.length < g.size) :
    ∃ first, g.place.firstWaiting = some first ∧ 0 < g.place.waitingAt first := by
  have sound := sound_place coherent
  cases found : g.place.firstWaiting with
  | some first =>
    have waits := List.find?_some found
    exact ⟨first, rfl, of_decide_eq_true waits⟩
  | none =>
    -- If nothing waits, everything has been placed.
    rw [Placement.firstWaiting, List.find?_eq_none, sound.size_waiting] at found
    have all : List.range g.size ⊆ g.place.placed := by
      intro position inside
      by_contra unplaced
      refine found position inside (decide_eq_true ?_)
      exact (waitingAt_place_pos_iff coherent).mpr ⟨List.mem_range.mp inside, unplaced⟩
    have long := (List.subperm_of_subset List.nodup_range all).length_le
    rw [List.length_range] at long
    omega

/-- If not all positions could be placed, a ring of waiting positions is found that starts with its
smallest one. -/
theorem findCycle_eq (coherent : g.Coherent) (left : g.place.placed.length < g.size) :
    ∃ least rest, g.findCycle g.place = least :: rest ∧
      g.place.IsRing g (least :: rest) ∧ ∀ x ∈ rest, least ≤ x := by
  obtain ⟨first, found, waits⟩ := exists_firstWaiting coherent left
  have continues : ∀ {position}, 0 < g.place.waitingAt position →
      ∃ next, g.place.nextWaiting g position = some next := by
    intro position waits
    obtain ⟨source, edge, sourceWaits⟩ := exists_waiting_source coherent waits
    rw [← Option.isSome_iff_exists, Placement.nextWaiting, List.find?_isSome]
    exact ⟨source, edge, decide_eq_true sourceWaits⟩
  have isRing : g.place.IsRing g (g.place.follow g (g.size + 1) [] first) := by
    apply Placement.isRing_follow _ continues List.nodup_nil
    · simpa using waits
    · exact List.isChain_singleton first
    · simp
    · intro position waits
      exact ((waitingAt_place_pos_iff coherent).mp waits).1
  obtain ⟨least, rest, turned, rotated, smallest⟩ := startAtLeast_eq isRing.ne_nil
  refine ⟨least, rest, ?_, isRing.of_isRotated rotated, ?_⟩
  · rw [findCycle, found]
    exact turned
  · intro x listed
    exact smallest x (rotated.mem_iff.mp (List.mem_cons_of_mem _ listed))

end Graph

end Sequencer
