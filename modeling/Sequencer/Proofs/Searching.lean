import Sequencer.Graph.Acyclic
import Sequencer.Proofs.Tables

/-!
# The search for cycles

A search keeps two things true of its marks. What is done is closed under edges and has no cycle in
it, so it need not be looked at again, whichever root it was found from. What is active lies on the
way to the position at hand, so that meeting it again closes a cycle. When the search of a position
ends, nothing is active that was not before, and the position is done.

Placing the positions one after another finds out about cycles in quite another way, by counting
what each position waits for. Both come to the same answer.

## Main definitions

* `Marks.Settled`: what is done is closed under edges and has no cycle.
* `Marks.LeadsTo`: what is active lies on the way to a position.
* `Graph.Searched`: what the outcome of a search says.

## Main results

* `Graph.searched_search`: a search says what it should.
* `Graph.isAcyclic_eq_true_iff`: the search succeeds exactly if there is no cycle.
* `Graph.isAcyclic_iff_exists_order`: it succeeds exactly if the program has an order.
-/

namespace Sequencer

open Relation (TransGen)

namespace Marks

variable {g : Graph} {unmet position : Nat}

/-- What is done leads to nothing else, and has no cycle. -/
structure Settled (marks : Marks unmet) (g : Graph) : Prop where
  closed : ∀ {source target}, marks.mark source = .done → g.Edge source target →
    marks.mark target = .done
  acyclic : ∀ {position}, marks.mark position = .done → ¬ TransGen g.Edge position position

/-- Every active position has a path to the given one. -/
def LeadsTo (marks : Marks unmet) (g : Graph) (position : Nat) : Prop :=
  ∀ start, marks.mark start = .active → TransGen g.Edge start position

/-- The same positions are active, and what was done still is. The bounds may differ. -/
structure Extends {bound : Nat} (after : Marks unmet) (before : Marks bound) : Prop where
  active_iff : ∀ {position}, after.mark position = .active ↔ before.mark position = .active
  done : ∀ {position}, before.mark position = .done → after.mark position = .done

theorem Extends.refl (marks : Marks unmet) : marks.Extends marks :=
  ⟨Iff.rfl, id⟩

theorem Extends.trans {first second third : Marks unmet} (later : third.Extends second)
    (earlier : second.Extends first) : third.Extends first :=
  ⟨later.active_iff.trans earlier.active_iff, fun done => later.done (earlier.done done)⟩

theorem LeadsTo.of_extends {before after : Marks unmet} (leads : before.LeadsTo g position)
    (grown : after.Extends before) : after.LeadsTo g position := by
  intro start active
  exact leads start (grown.active_iff.mp active)

theorem Settled.done_of_transGen {marks : Marks unmet} {source target : Nat}
    (settled : marks.Settled g) (done : marks.mark source = .done)
    (path : TransGen g.Edge source target) : marks.mark target = .done := by
  induction path with
  | single edge => exact settled.closed done edge
  | tail _ edge reached => exact settled.closed reached edge

/-! ### Entering and leaving a position -/

theorem settled_start (coherent : g.Coherent) : (start g.size).Settled g := by
  -- Only positions beyond the graph count as done, and no edge starts there.
  have edgeless : ∀ {source}, (start g.size).mark source = .done →
      ∀ target, ¬ g.Edge source target := by
    intro source done target edge
    rw [mark_start, if_pos (coherent.source_lt edge)] at done
    cases done
  constructor
  · intro source target done edge
    exact absurd edge (edgeless done target)
  · intro position done path
    obtain ⟨next, edge, -⟩ := TransGen.head'_iff.mp path
    exact edgeless done next edge

section Enter

variable {marks : Marks (unmet + 1)} (fresh : marks.mark position = .fresh)

theorem mark_enter_eq_done_iff {other : Nat} :
    (marks.enter position fresh).mark other = .done ↔ marks.mark other = .done := by
  rw [mark_enter]
  split
  · next here => simp [← here, fresh]
  · rfl

theorem Settled.enter (settled : marks.Settled g) : (marks.enter position fresh).Settled g := by
  constructor
  · intro source target done edge
    rw [mark_enter_eq_done_iff] at done ⊢
    exact settled.closed done edge
  · intro other done
    exact settled.acyclic ((mark_enter_eq_done_iff fresh).mp done)

theorem LeadsTo.enter (leads : marks.LeadsTo g position) {next : Nat}
    (edge : g.Edge position next) : (marks.enter position fresh).LeadsTo g next := by
  intro start active
  by_cases here : position = start
  · exact here ▸ TransGen.single edge
  · rw [mark_enter, if_neg here] at active
    exact (leads start active).tail edge

/-- A position entered is still active when all that it leads to has been searched. So none of that
leads back to it, and it can be left. -/
theorem Settled.leave {after : Marks unmet} (settled : after.Settled g)
    (grown : after.Extends (marks.enter position fresh))
    (done : ∀ {next}, g.Edge position next → after.mark next = .done) :
    (after.leave position).Settled g := by
  have active : after.mark position = .active := by
    rw [grown.active_iff, mark_enter, if_pos rfl]
  constructor
  · intro source target doneSource edge
    rw [mark_leave] at doneSource ⊢
    by_cases atTarget : position = target
    · rw [if_pos atTarget]
    · rw [if_neg atTarget]
      by_cases atSource : position = source
      · exact done (atSource ▸ edge)
      · rw [if_neg atSource] at doneSource
        exact settled.closed doneSource edge
  · intro other doneOther path
    rw [mark_leave] at doneOther
    by_cases here : position = other
    · subst here
      obtain ⟨next, edge, back⟩ := TransGen.head'_iff.mp path
      -- The way back would make the position done already.
      have doneHere : after.mark position = .done := by
        rcases Relation.reflTransGen_iff_eq_or_transGen.mp back with same | back
        · exact same ▸ done edge
        · exact settled.done_of_transGen (done edge) back
      rw [active] at doneHere
      cases doneHere
    · rw [if_neg here] at doneOther
      exact settled.acyclic doneOther path

theorem Extends.leave {after : Marks unmet} (grown : after.Extends (marks.enter position fresh)) :
    (after.leave position).Extends marks := by
  constructor
  · intro other
    rw [mark_leave]
    by_cases here : position = other
    · simp [← here, fresh]
    · rw [if_neg here, grown.active_iff, mark_enter, if_neg here]
  · intro other done
    rw [mark_leave]
    split
    · rfl
    · exact grown.done ((mark_enter_eq_done_iff fresh).mpr done)

end Enter

end Marks

namespace Graph

variable {g : Graph} {program : Program} {unmet : Nat}

/-- What the outcome of a search from the given positions says: if there is none, that some position
leads to itself; otherwise that these positions are done. -/
def Searched (g : Graph) (marks : Marks unmet) (positions : List Nat) :
    Option (Marks unmet) → Prop
  | none => ∃ position, TransGen g.Edge position position
  | some after => after.Settled g ∧ after.Extends marks ∧
      ∀ position ∈ positions, after.mark position = .done

/-- Searching positions one after another, if each single search says what it should. -/
theorem searched_foldlM {visit : Marks unmet → Nat → Option (Marks unmet)}
    (visits : ∀ marks position, marks.Settled g → marks.LeadsTo g position →
      g.Searched marks [position] (visit marks position))
    {positions : List Nat} {marks : Marks unmet} (settled : marks.Settled g)
    (leads : ∀ position ∈ positions, marks.LeadsTo g position) :
    g.Searched marks positions (positions.foldlM visit marks) := by
  induction positions generalizing marks with
  | nil => exact ⟨settled, .refl marks, List.forall_mem_nil _⟩
  | cons position rest ih =>
    obtain ⟨leadsHere, leadsRest⟩ := List.forall_mem_cons.mp leads
    have here := visits marks position settled leadsHere
    rw [List.foldlM_cons]
    cases visited : visit marks position with
    | none =>
      rw [visited] at here
      exact here
    | some next =>
      rw [visited] at here
      obtain ⟨settledNext, grown, done⟩ := here
      have later := ih settledNext fun other listed => (leadsRest other listed).of_extends grown
      -- What is done after the first search stays done in the others.
      change g.Searched marks (position :: rest) (rest.foldlM visit next)
      cases searched : rest.foldlM visit next with
      | none =>
        rw [searched] at later
        exact later
      | some after =>
        rw [searched] at later
        obtain ⟨settledAfter, grownAfter, doneAfter⟩ := later
        refine ⟨settledAfter, grownAfter.trans grown, List.forall_mem_cons.mpr ⟨?_, doneAfter⟩⟩
        exact grownAfter.done (done position List.mem_cons_self)

/-- The search of a position that has not been met, if deeper searches say what they should. -/
theorem searched_search_of_fresh (coherent : g.Coherent)
    (deeper : ∀ (marks : Marks unmet) (position : Nat), marks.Settled g →
      marks.LeadsTo g position → g.Searched marks [position] (g.search unmet marks position))
    {marks : Marks (unmet + 1)} {position : Nat} (fresh : marks.mark position = .fresh)
    (settled : marks.Settled g) (leads : marks.LeadsTo g position) :
    g.Searched marks [position] (g.search (unmet + 1) marks position) := by
  have inner : g.Searched (marks.enter position fresh) (g.dependents position)
      ((g.dependents position).foldlM (g.search unmet) (marks.enter position fresh)) := by
    apply searched_foldlM deeper (settled.enter fresh)
    intro next listed
    exact leads.enter fresh (coherent.mem_dependents.mp listed)
  rw [search_of_fresh fresh]
  cases searched : (g.dependents position).foldlM (g.search unmet) (marks.enter position fresh) with
  | none =>
    rw [searched] at inner
    exact inner
  | some after =>
    rw [searched] at inner
    obtain ⟨settledAfter, grown, done⟩ := inner
    refine ⟨settledAfter.leave fresh grown ?_, grown.leave fresh, ?_⟩
    · intro next edge
      exact done next (coherent.mem_dependents.mpr edge)
    · rw [List.forall_mem_singleton, Marks.mark_leave, if_pos rfl]

/-- A position that has been met ends the search at once. -/
theorem searched_search_of_met {marks : Marks unmet} {position : Nat}
    (met : marks.mark position ≠ .fresh) (settled : marks.Settled g)
    (leads : marks.LeadsTo g position) :
    g.Searched marks [position] (g.search unmet marks position) := by
  cases mark : marks.mark position with
  | fresh => exact absurd mark met
  | active =>
    rw [search_of_active mark]
    exact ⟨position, leads position mark⟩
  | done =>
    rw [search_of_done mark]
    exact ⟨settled, .refl marks, List.forall_mem_singleton.mpr mark⟩

/-- A search says what it should, from any marks whose active positions lead to where it starts. -/
theorem searched_search (coherent : g.Coherent) (unmet : Nat) :
    ∀ (marks : Marks unmet) (position : Nat), marks.Settled g → marks.LeadsTo g position →
      g.Searched marks [position] (g.search unmet marks position) := by
  induction unmet with
  | zero =>
    intro marks position settled leads
    apply searched_search_of_met _ settled leads
    intro fresh
    exact Nat.lt_irrefl 0 (Marks.pos_of_mark_eq_fresh fresh)
  | succ unmet deeper =>
    intro marks position settled leads
    by_cases fresh : marks.mark position = .fresh
    · exact searched_search_of_fresh coherent deeper fresh settled leads
    · exact searched_search_of_met fresh settled leads

/-- The search from all positions succeeds exactly if no position leads to itself. -/
theorem isAcyclic_eq_true_iff (coherent : g.Coherent) :
    g.isAcyclic = true ↔ ∀ position, ¬ TransGen g.Edge position position := by
  have inactive : ∀ position ∈ List.range g.size, (Marks.start g.size).LeadsTo g position := by
    intro position _ start active
    rw [Marks.mark_start] at active
    split at active <;> cases active
  have searched := searched_foldlM (searched_search coherent g.size)
    (Marks.settled_start coherent) inactive
  rw [isAcyclic]
  cases outcome : (List.range g.size).foldlM (g.search g.size) (Marks.start g.size) with
  | none =>
    rw [outcome] at searched
    obtain ⟨position, path⟩ := searched
    simp only [Option.isSome_none, Bool.false_eq_true, false_iff]
    intro acyclic
    exact acyclic position path
  | some after =>
    rw [outcome] at searched
    obtain ⟨settled, -, done⟩ := searched
    simp only [Option.isSome_some, true_iff]
    intro position path
    -- A cycle lies in the graph, and everything there is done.
    obtain ⟨next, edge, -⟩ := TransGen.head'_iff.mp path
    exact settled.acyclic (done position (List.mem_range.mpr (coherent.source_lt edge))) path

/-- By its own graph, a program has an order exactly if no position leads to itself. -/
theorem Represents.exists_order_iff (represents : g.Represents program) :
    (∃ order, (g.order program).outcome = .ok order) ↔
      ∀ position, ¬ TransGen g.Edge position position := by
  rw [← size_le_length_placed_iff represents.coherent, represents.outcome_order]
  split
  · next left => simp [left]
  · next full => simp [Nat.le_of_not_lt full]

/-- The search for cycles in the graph of a program, which comes to an end whatever the graph is,
succeeds exactly if no path of one or more edges leads from a position to itself. Hence it succeeds
exactly if the program has an order. -/
theorem isAcyclic_iff_exists_order (built : (ofProgram program).outcome = .ok g) :
    (g.isAcyclic = true ↔ ∀ position, ¬ TransGen g.Edge position position) ∧
      (g.isAcyclic = true ↔ ∃ order, (g.order program).outcome = .ok order) := by
  have represents := represents_of_link (outcome_ofProgram_eq_ok_iff.mp built)
  have search := isAcyclic_eq_true_iff represents.coherent
  exact ⟨search, search.trans represents.exists_order_iff.symm⟩

end Graph

namespace Sample

/-- The only cycle of `echo` is at `b`, which reads itself. -/
theorem isAcyclic_echo : ∃ g, (Graph.ofProgram echo).outcome = .ok g ∧ g.isAcyclic = false ∧
    ¬ ∃ order, (g.order echo).outcome = .ok order := by
  have built : (Graph.ofProgram echo).outcome =
      .ok ((Graph.ofResults echo).addEdges echo.links) := rfl
  have value : ((Graph.ofResults echo).addEdges echo.links).isAcyclic = false := by decide
  refine ⟨_, built, value, ?_⟩
  rw [← (Graph.isAcyclic_iff_exists_order built).2, value]
  exact Bool.false_ne_true

end Sample

end Sequencer
