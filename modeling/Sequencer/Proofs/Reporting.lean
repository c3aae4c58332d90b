import Mathlib.Data.Set.Card
import Mathlib.Order.WellFounded
import Sequencer.Proofs.Conversion

/-!
# What is reported of a conversion

The events of a conversion are determined by the way it ends. A sequence is announced by the last
event, with the number of its actions and dependencies and whether anything has moved; nothing has
moved exactly if every action came after what it reads to begin with. An unbound name and a cycle
are warned of by the last event, and a program that is too large is not spoken of.

The warning of a cycle counts the actions that were placed. What is left over is what reads a
cycle, directly or through others: a position that was placed was preceded by all that it reads,
and a position that was not reads from another one that was not, which cannot go on without end.

## Main definitions

* `Program.ClearOfCycles`: nothing that an action reads, directly or through others, lies on a cycle.
* `Program.InOrder`: every name that an action reads is bound by an earlier action.
* `Limits.Course`: the events and the outcome of each way a conversion can end.
* `Reports`: events that agree with an outcome.

## Main results

* `Graph.mem_placed_iff`: what is placed is what no cycle leads to.
* `countMoved_eq_zero_iff`: nothing has moved if and only if the order is that of the positions.
* `isMoved_eq_false_iff`: whether something has moved agrees with the number of what has moved.
* `Limits.course`: every conversion takes one of these courses.
* `Limits.convert_reports`: the events of a conversion agree with its outcome.
-/

namespace Sequencer

/-! ### What is placed in spite of a cycle -/

/-- If each of finitely many positions reads from one of them, a cycle leads to each. -/
theorem exists_cycle_before {reads : Nat → Nat → Prop} {count : Nat} {left : Nat → Prop}
    (bounded : ∀ position, left position → position < count)
    (continues : ∀ position, left position → ∃ source, reads source position ∧ left source)
    {position : Nat} (here : left position) :
    ∃ source, Relation.TransGen reads source position ∧ Relation.TransGen reads source source := by
  by_contra clear
  -- Without a cycle, what leads to `position` is ordered by reading and has a first member.
  let Before := {source // left source ∧ Relation.ReflTransGen reads source position}
  let precedes (first second : Before) : Prop := Relation.TransGen reads first.1 second.1
  have finite : Finite Before :=
    (Set.finite_lt_nat count).subset fun source leads => bounded source leads.1
  have transitive : IsTrans Before precedes := ⟨fun _ _ _ => Relation.TransGen.trans⟩
  have irreflexive : Std.Irrefl precedes := by
    constructor
    intro source cycle
    exact clear ⟨source.1, cycle.trans_left source.2.2, cycle⟩
  have wellFounded := Finite.wellFounded_of_trans_of_irrefl precedes
  obtain ⟨first, -, smallest⟩ := wellFounded.has_min Set.univ ⟨⟨position, here, .refl⟩, trivial⟩
  obtain ⟨source, read, leftSource⟩ := continues first.1 first.2.1
  exact smallest ⟨source, leftSource, .head read first.2.2⟩ trivial (.single read)

/-- In an order that takes the smallest, what leads to a member is a member and comes before it. -/
theorem TakesLeast.idxOf_lt_of_transGen {count : Nat} {reads : Nat → Nat → Prop}
    {order : List Nat} {source target : Nat} (taken : TakesLeast count reads order)
    (path : Relation.TransGen reads source target) (listed : target ∈ order) :
    source ∈ order ∧ order.idxOf source < order.idxOf target := by
  have step : ∀ {source target}, target ∈ order → reads source target →
      order.idxOf source < order.idxOf target := by
    intro source target listed read
    obtain ⟨done, rest, rfl⟩ := List.append_of_mem listed
    obtain ⟨-, fresh, known⟩ := (taken done target rest rfl).1
    rw [idxOf_append_cons_self fresh]
    exact idxOf_append_lt_iff.mpr (known source read)
  induction path with
  | single read => exact ⟨taken.mem_of_reads listed read, step listed read⟩
  | tail _ read before =>
    obtain ⟨member, earlier⟩ := before (taken.mem_of_reads listed read)
    exact ⟨member, earlier.trans (step listed read)⟩

/-- What is placed is what no cycle leads to. -/
theorem Graph.mem_placed_iff {g : Graph} (coherent : g.Coherent) {position : Nat} :
    position ∈ g.place.placed ↔ position < g.size ∧
      ∀ source, Relation.TransGen g.Edge source position →
        ¬ Relation.TransGen g.Edge source source := by
  have sound := sound_place coherent
  constructor
  · intro placed
    refine ⟨sound.placed_lt position placed, ?_⟩
    intro source leads cycle
    -- The cycle would have been placed before `position`, and each of its members before itself.
    have before := (sound.takesLeast.idxOf_lt_of_transGen leads (List.mem_reverse.mpr placed)).1
    exact Nat.lt_irrefl _ (sound.takesLeast.idxOf_lt_of_transGen cycle before).2
  · rintro ⟨inside, clear⟩
    by_contra unplaced
    obtain ⟨source, leads, cycle⟩ := exists_cycle_before
      (fun position waits => ((waitingAt_place_pos_iff coherent).mp waits).1)
      (fun position => exists_waiting_source coherent)
      ((waitingAt_place_pos_iff coherent).mpr ⟨inside, unplaced⟩)
    exact clear source leads cycle

/-- Nothing that the action at a position reads, directly or through others, lies on a cycle. -/
def Program.ClearOfCycles (program : Program) (position : Nat) : Prop :=
  ∀ source, Relation.TransGen program.Reads source position →
    ¬ Relation.TransGen program.Reads source source

theorem Graph.Represents.length_placed {g : Graph} {program : Program}
    (represents : g.Represents program) :
    g.place.placed.length =
      {position | position < program.size ∧ program.ClearOfCycles position}.ncard := by
  have sameEdges := represents.edge_eq
  have members : {position | position < program.size ∧ program.ClearOfCycles position} =
      (g.place.placed.toFinset : Set Nat) := by
    ext position
    rw [List.coe_toFinset, Set.mem_ofPred_eq, Set.mem_ofPred_eq, mem_placed_iff represents.coherent,
      represents.size_eq, sameEdges, Program.ClearOfCycles]
  rw [members, Set.ncard_coe_finset,
    List.toFinset_card_of_nodup (sound_place represents.coherent).nodup_placed]

/-! ### What has moved -/

theorem countMoved_eq_zero_iff {order : List Nat} :
    countMoved order = 0 ↔ order = List.range order.length := by
  simp only [countMoved, List.countP_eq_zero, Prod.forall, List.mk_mem_zipIdx_iff_getElem?,
    bne_iff_ne, ne_eq, not_not]
  constructor
  · intro unmoved
    apply List.ext_getElem (by rw [List.length_range])
    intro place inside _
    rw [List.getElem_range]
    exact unmoved _ place (List.getElem?_eq_getElem inside)
  · intro same position place found
    rw [same, List.getElem?_eq_some_iff] at found
    obtain ⟨_, here⟩ := found
    rwa [List.getElem_range, eq_comm] at here

/-- Something has moved unless the number of what has moved is zero. -/
theorem isMoved_eq_false_iff {order : List Nat} :
    isMoved order = false ↔ countMoved order = 0 := by
  rw [isMoved, countMoved, List.any_eq_false, List.countP_eq_zero]

/-- Every name that an action reads is bound by an earlier action. -/
def Program.InOrder (program : Program) : Prop :=
  ∀ target action, program.actions[target]? = some action → ∀ name, action.Reads name →
    ∃ source < target, program.nameAt? source = some name

theorem Program.inOrder_iff {program : Program} (resolved : program.Resolved) :
    program.InOrder ↔ ∀ source target, program.Reads source target → source < target := by
  constructor
  · rintro inOrder source target ⟨name, bound, action, found, reads⟩
    -- A name is bound only once, so the earlier place is `source` itself.
    obtain ⟨earlier, before, boundThere⟩ := inOrder target action found name reads
    exact nameAt?_inj bound boundThere ▸ before
  · intro ascending target action found name reads
    have binds := resolved.1 action (Array.mem_of_getElem? found) name reads
    obtain ⟨source, bound⟩ := binds_iff_exists_nameAt?.mp binds
    exact ⟨source, ascending source target ⟨name, bound, action, found, reads⟩, bound⟩

/-- Nothing moves exactly if every action comes after what it reads to begin with. -/
theorem countMoved_eq_zero_iff_inOrder {program : Program} {order : List Nat}
    (resolved : program.Resolved) (perm : order.Perm (List.range program.size))
    (taken : TakesLeast program.size program.Reads order) :
    countMoved order = 0 ↔ program.InOrder := by
  have length : order.length = program.size := by rw [perm.length_eq, List.length_range]
  rw [countMoved_eq_zero_iff, length, Program.inOrder_iff resolved]
  constructor
  · rintro rfl source target reads
    -- In the order of the positions, each stands at its own place.
    have schedule := taken.isSchedule perm fun reads => (Program.Reads.lt_size reads).2
    have before := schedule.precedes reads
    have place : ∀ position < program.size, (List.range program.size).idxOf position = position := by
      intro position inside
      have here := List.nodup_range.idxOf_getElem position (by rwa [List.length_range])
      rwa [List.getElem_range] at here
    rwa [place source reads.lt_size.1, place target reads.lt_size.2] at before
  · intro ascending
    have unmoved : TakesLeast program.size program.Reads (List.range program.size) :=
      TakesLeast.range (ascending _ _)
    exact taken.unique unmoved perm.length_eq

/-! ### The course of a conversion -/

namespace Graph

variable {g : Graph} {program : Program}

theorem eq_of_cycleFailure_eq {names cycle : List Name} {name : Name}
    (same : cycleFailure names = .dependencyCycle name cycle) : names = cycle := by
  cases names with
  | nil => cases same
  | cons first rest =>
    cases same
    rfl

/-- What putting a program in order by its own graph reports, and what it gives. -/
theorem Represents.order_eq (represents : g.Represents program) :
    (∃ order, g.order program = ⟨[.ordered program.size (countMoved order)], .ok order⟩ ∧
        order.Perm (List.range program.size) ∧ TakesLeast program.size program.Reads order) ∨
      ∃ name cycle, g.order program =
        ⟨[.cycleFound {position | position < program.size ∧ program.ClearOfCycles position}.ncard
            program.size cycle.length], .error (.dependencyCycle name cycle)⟩ := by
  have ends := represents.order_cases
  rw [represents.outcome_order] at ends
  rw [order, if_pos represents.describes]
  simp only [List.length_reverse]
  split at ends
  · next left =>
    right
    obtain ⟨order, ordered, -⟩ | ⟨-, name, cycle, failed, -⟩ := ends
    · cases ordered
    · -- The cycle whose length is reported is the one in the failure.
      have failed := Except.error.inj failed
      rw [if_pos left, failed, eq_of_cycleFailure_eq failed, represents.size_eq,
        represents.length_placed]
      exact ⟨name, cycle, rfl⟩
  · next complete =>
    left
    obtain ⟨order, ordered, perm, taken⟩ | ⟨-, name, cycle, failed, -⟩ := ends
    · obtain rfl := Except.ok.inj ordered
      have length : g.place.placed.length = program.size := by
        rw [← List.length_reverse, perm.length_eq, List.length_range]
      rw [if_neg complete, length]
      exact ⟨_, rfl, perm, taken⟩
    · cases failed

end Graph

namespace Limits

/-- The events and the outcome of each way a conversion can end, and what is true of the program
then. -/
inductive Course (limits : Limits) (program : Program) :
    List Event → Except Failure Sequence → Prop
  | tooManyActions :
      Course limits program []
        (.error (.tooManyActions program.size limits.maxActions.toNat))
  | unresolved (unresolved : Unresolved) :
      Course limits program [.converting program.size, unresolved.event]
        (.error unresolved.failure)
  | tooManyEdges :
      Course limits program
        [.converting program.size, .graphBuilt program.size program.dependencyPairs.card]
        (.error (.tooManyEdges program.dependencyPairs.card limits.maxEdges.toNat))
  | cycle (name : Name) (cycle : List Name) :
      Course limits program
        [.converting program.size, .graphBuilt program.size program.dependencyPairs.card,
          .cycleFound
            {position | position < program.size ∧ program.ClearOfCycles position}.ncard
            program.size cycle.length]
        (.error (.dependencyCycle name cycle))
  | ordered {order : List Nat} (moved : countMoved order = 0 ↔ program.InOrder) :
      Course limits program
        [.converting program.size, .graphBuilt program.size program.dependencyPairs.card,
          .ordered program.size (countMoved order),
          .converted program.size program.dependencyPairs.card (isMoved order)]
        (.ok (Sequence.arrange program order))

variable {limits : Limits} {program : Program}

section Steps

variable (small : ¬ limits.maxActions.toNat < program.size)

include small

theorem convert_of_link_error {unresolved : Unresolved}
    (linked : Graph.link program = .error unresolved) :
    limits.convert program =
      ⟨[.converting program.size, unresolved.event], .error unresolved.failure⟩ := by
  rw [convert, if_neg small, Graph.ofProgram, linked]
  rfl

/-- After the graph has been built, its edges are counted and then its positions are put in order. -/
theorem convert_of_link_ok {g : Graph} (linked : Graph.link program = .ok g) :
    limits.convert program =
      .andThen ⟨[.converting program.size, .graphBuilt g.size g.edgeCount], .ok ()⟩ fun _ =>
        if limits.maxEdges.toNat < g.edgeCount then
          .fail (.tooManyEdges g.edgeCount limits.maxEdges.toNat)
        else
          .andThen (g.order program) fun order =>
            ⟨[.converted (Sequence.arrange program order).length g.edgeCount (isMoved order)],
              .ok (Sequence.arrange program order)⟩ := by
  rw [convert, if_neg small, Graph.ofProgram, linked]
  rfl

end Steps

/-- Every conversion takes one of these courses. -/
theorem course (limits : Limits) (program : Program) :
    Course limits program (limits.convert program).events (limits.convert program).outcome := by
  by_cases small : limits.maxActions.toNat < program.size
  · rw [convert, if_pos small]
    exact .tooManyActions
  cases linked : Graph.link program with
  | error unresolved =>
    rw [convert_of_link_error small linked]
    exact .unresolved unresolved
  | ok g =>
    have represents := Graph.represents_of_link linked
    have resolved := Graph.exists_link_iff_resolved.mp ⟨g, linked⟩
    rw [convert_of_link_ok small linked, represents.edgeCount_eq, represents.size_eq]
    by_cases sparse : limits.maxEdges.toNat < program.dependencyPairs.card
    · simp only [if_pos sparse]
      exact .tooManyEdges
    · simp only [if_neg sparse]
      obtain ⟨order, ordered, perm, taken⟩ | ⟨name, cycle, failed⟩ := represents.order_eq
      · have length : (Sequence.arrange program order).length = program.size :=
          (Sequence.perm_actions_arrange perm).length_eq
        simp only [ordered, Traced.andThen, length]
        exact .ordered (countMoved_eq_zero_iff_inOrder resolved perm taken)
      · rw [failed]
        exact .cycle name cycle

end Limits

/-! ### Agreement of events and outcome -/

/-- The events of a level. -/
def atLevel (level : Level) (events : List Event) : List Event :=
  events.filter (·.level = level)

/-- Events that agree with the outcome of a conversion. -/
structure Reports (program : Program) (events : List Event) (outcome : Except Failure Sequence) :
    Prop where
  length_info_le : (atLevel .info events).length ≤ 1
  /-- There is an event for information exactly if there is a sequence. -/
  length_info_iff : (atLevel .info events).length = 1 ↔ ∃ s, outcome = .ok s
  /-- That event is the last one. It gives the number of actions and of dependent pairs, and whether
  the order reported before it has moved anything, which is the case unless every action came after
  what it reads. -/
  converted : ∀ s, outcome = .ok s → ∃ earlier order last moved reordered,
    events = earlier ++ [order, last] ∧
    order.fields = [("placed", .count program.size), ("moved", .count moved)] ∧
    last.level = .info ∧
    last.fields = [("action_count", .count program.size),
      ("edge_count", .count program.dependencyPairs.card), ("reordered", .flag reordered)] ∧
    (reordered = false ↔ moved = 0) ∧ (moved = 0 ↔ program.InOrder)
  length_warn_le : (atLevel .warn events).length ≤ 1
  /-- There is a warning exactly if a name is not bound or there is a cycle. -/
  length_warn_iff : (atLevel .warn events).length = 1 ↔
    (∃ name reader, outcome = .error (.unresolvedReference name reader)) ∨
      ∃ name cycle, outcome = .error (.dependencyCycle name cycle)
  /-- The warning of an unbound name is the last event. It gives the name and, unless the return value
  reads it, the reader. -/
  unresolved : ∀ name reader, outcome = .error (.unresolvedReference name reader) →
    ∃ last ∈ events.getLast?, last.level = .warn ∧
      last.fields = ("identifier", .text name.text) ::
        reader.toList.map fun dependent => ("dependent", .text dependent.text)
  /-- The warning of a cycle is the last event. It gives the length of the cycle, the number of
  actions, and the number of those that do not depend on a cycle. -/
  cycle : ∀ name cycle, outcome = .error (.dependencyCycle name cycle) →
    ∃ last ∈ events.getLast?, last.level = .warn ∧
      last.fields = [
        ("placed", .count
          {position | position < program.size ∧ program.ClearOfCycles position}.ncard),
        ("total", .count program.size), ("cycle_len", .count cycle.length)]
  /-- Of a program that is too large there is neither. -/
  limits : ∀ count max, outcome = .error (.tooManyActions count max) ∨
      outcome = .error (.tooManyEdges count max) →
    atLevel .info events = [] ∧ atLevel .warn events = []

/-- The events of a conversion agree with its outcome. -/
theorem Limits.convert_reports (limits : Limits) (program : Program) :
    Reports program (limits.convert program).events (limits.convert program).outcome := by
  have taken := limits.course program
  generalize (limits.convert program).events = events at taken ⊢
  generalize (limits.convert program).outcome = outcome at taken ⊢
  cases taken with
  | tooManyActions => constructor <;> simp [atLevel]
  | unresolved unresolved =>
    obtain ⟨name, reader⟩ := unresolved
    cases reader <;> constructor <;>
      simp [atLevel, Unresolved.event, Unresolved.failure, Event.level, Event.fields]
  | tooManyEdges => constructor <;> simp [atLevel, Event.level]
  | cycle name cycle => constructor <;> simp [atLevel, Event.level, Event.fields]
  | @ordered order moved =>
    constructor
    case converted =>
      intro s _
      refine ⟨[.converting program.size, .graphBuilt program.size program.dependencyPairs.card],
        .ordered program.size (countMoved order), _, countMoved order, isMoved order, rfl,
        rfl, rfl, rfl, isMoved_eq_false_iff, moved⟩
    all_goals simp [atLevel, Event.level]

end Sequencer
