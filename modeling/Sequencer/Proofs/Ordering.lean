import Sequencer.Graph.Order
import Sequencer.Proofs.Cycles
import Sequencer.Proofs.Linking

/-!
# The order of a program

For the graph of a program, placing comes to an end with every position placed exactly if no
position depends on itself. If so, the order is the least of all schedules; if not, the failure
names the actions of the ring that was found.

## Main definitions

* `Program.IsCycleFrom`: names of actions each of which reads the one before it, from the action
  that was declared first.

## Main results

* `Graph.size_le_length_placed_iff`: everything is placed exactly if there is no cycle.
* `Graph.Represents.order_cases`: the order is a schedule, or the failure is a cycle.
* `Graph.order_eq_least_schedule`: the order is the lexicographically least schedule, and the only
  one that always takes the smallest ready position.
-/

namespace Sequencer

namespace Graph

variable {g : Graph} {program : Program}

/-- The order of a program by its own graph is what was placed. If something is left, the names at
the positions of the cycle found are the failure. -/
theorem Represents.outcome_order (represents : g.Represents program) :
    (g.order program).outcome =
      if g.place.placed.length < g.size then
        .error (cycleFailure (program.namesAt (g.findCycle g.place)))
      else
        .ok g.place.placed.reverse := by
  rw [order, if_pos represents.describes]
  simp only [List.length_reverse]
  split <;> rfl

/-- If everything is placed, it is placed in an order that takes the smallest each time. -/
theorem takesLeast_of_size_le (coherent : g.Coherent) (full : g.size ≤ g.place.placed.length) :
    TakesLeast g.size g.Edge g.place.placed.reverse ∧
      g.place.placed.reverse.Perm (List.range g.size) := by
  have sound := sound_place coherent
  exact ⟨sound.takesLeast, (List.reverse_perm _).trans (sound.perm_range_of_size_le full)⟩

theorem isSchedule_of_size_le (coherent : g.Coherent) (full : g.size ≤ g.place.placed.length) :
    IsSchedule g.size g.Edge g.place.placed.reverse := by
  obtain ⟨taken, perm⟩ := takesLeast_of_size_le coherent full
  exact taken.isSchedule perm Edge.target_lt

/-- Everything is placed exactly if no position depends on itself. -/
theorem size_le_length_placed_iff (coherent : g.Coherent) :
    g.size ≤ g.place.placed.length ↔ ∀ position, ¬ Relation.TransGen g.Edge position position := by
  constructor
  · intro full
    exact (isSchedule_of_size_le coherent full).not_transGen_self
  · intro acyclic
    -- Otherwise the ring found among what is left is a cycle.
    by_contra left
    obtain ⟨least, rest, -, isRing, -⟩ := findCycle_eq coherent (Nat.lt_of_not_le left)
    exact acyclic least isRing.transGen_self

end Graph

/-- Nothing is dropped from a list if something is found for each of its members. -/
theorem map_some_filterMap {α β : Type} {f : α → Option β} {xs : List α}
    (found : ∀ x ∈ xs, (f x).isSome) : (xs.filterMap f).map some = xs.map f := by
  rw [List.map_filterMap_some_eq_filter_map_isSome, List.filter_eq_self]
  intro image listed
  obtain ⟨x, member, rfl⟩ := List.mem_map.mp listed
  exact found x member

/-! ### The names of a cycle -/

namespace Program

variable {program : Program}

/-- Names of actions each of which reads the one before it, while the first reads the last. They
start with `name`, whose action was declared before the others. -/
structure IsCycleFrom (program : Program) (name : Name) (cycle : List Name) : Prop where
  head_eq : cycle.head? = some name
  nodup : cycle.Nodup
  binds : ∀ member ∈ cycle, program.Binds member
  reads_previous : ∀ k (inside : k + 1 < cycle.length), program.ReadsName cycle[k] cycle[k + 1]
  reads_last : ∀ last ∈ cycle.getLast?, program.ReadsName last name
  earliest : ∀ member ∈ cycle, ∀ i j, program.nameAt? i = some name →
    program.nameAt? j = some member → i ≤ j
  /-- A first action that reads itself is the only one. -/
  alone : program.ReadsName name name → cycle = [name]

theorem map_some_namesAt {positions : List Nat}
    (inside : ∀ position ∈ positions, position < program.size) :
    (program.namesAt positions).map some = positions.map program.nameAt? := by
  apply map_some_filterMap
  intro position listed
  exact Option.isSome_iff_exists.mpr (exists_nameAt? (inside position listed))

theorem mem_namesAt_iff {positions : List Nat} {name : Name} :
    name ∈ program.namesAt positions ↔
      ∃ position ∈ positions, program.nameAt? position = some name :=
  List.mem_filterMap

theorem nodup_namesAt {positions : List Nat}
    (inside : ∀ position ∈ positions, position < program.size) (distinct : positions.Nodup) :
    (program.namesAt positions).Nodup := by
  have images : (positions.map program.nameAt?).Nodup := by
    apply distinct.map_on
    intro i listed j _ same
    obtain ⟨name, bound⟩ := exists_nameAt? (inside i listed)
    exact nameAt?_inj bound (same ▸ bound)
  rw [← map_some_namesAt inside] at images
  exact images.of_map some

/-- If each position reads the one before it, round a list, so do the names bound there. -/
theorem chain_namesAt {positions : List Nat}
    (inside : ∀ position ∈ positions, position < program.size)
    (chain : (positions : Cycle Nat).Chain program.Reads) :
    (program.namesAt positions : Cycle Name).Chain program.ReadsName := by
  -- Both lists are compared as lists of optional names, where they are the same.
  let link (first second : Option Name) : Prop :=
    ∃ name ∈ first, ∃ reader ∈ second, program.ReadsName name reader
  have linked : ((positions.map program.nameAt? : List (Option Name)) : Cycle _).Chain link := by
    rw [← Cycle.map_coe, Cycle.chain_map]
    apply chain.imp
    intro i j reads
    obtain ⟨insideSource, insideTarget⟩ := reads.lt_size
    obtain ⟨name, bound⟩ := exists_nameAt? insideSource
    obtain ⟨reader, boundReader⟩ := exists_nameAt? insideTarget
    exact ⟨name, bound, reader, boundReader, (readsName_iff bound boundReader).mpr reads⟩
  rw [← map_some_namesAt inside, ← Cycle.map_coe, Cycle.chain_map] at linked
  apply linked.imp
  rintro _ _ ⟨name, ⟨⟩, reader, ⟨⟩, reads⟩
  exact reads

end Program

namespace Graph

variable {g : Graph} {program : Program}

/-- The names at a ring that starts with its smallest position are a cycle. -/
theorem Represents.isCycleFrom_namesAt (represents : g.Represents program) {p : Placement}
    {least : Nat} {rest : List Nat} (isRing : p.IsRing g (least :: rest))
    (inside : ∀ position ∈ least :: rest, position < program.size)
    (smallest : ∀ position ∈ rest, least ≤ position) :
    ∃ name names, program.namesAt (least :: rest) = name :: names ∧
      program.IsCycleFrom name (name :: names) := by
  obtain ⟨name, bound⟩ := Program.exists_nameAt? (inside least List.mem_cons_self)
  have split : program.namesAt (least :: rest) = name :: program.namesAt rest :=
    List.filterMap_cons_some bound
  have chain := Program.chain_namesAt inside
    (isRing.chain_edge.imp fun _ _ => represents.edge_iff.mp)
  rw [split, Cycle.chain_ne_nil _ (List.cons_ne_nil _ _), List.isChain_cons_cons] at chain
  refine ⟨name, program.namesAt rest, split, rfl, ?_, ?_, ?_, ?_, ?_, ?_⟩
  · rw [← split]
    exact Program.nodup_namesAt inside isRing.nodup
  · intro member listed
    rw [← split, Program.mem_namesAt_iff] at listed
    obtain ⟨position, -, boundThere⟩ := listed
    exact Program.binds_iff_exists_nameAt?.mpr ⟨position, boundThere⟩
  · intro k more
    exact List.isChain_iff_getElem.mp chain.2 k more
  · intro last isLast
    rw [List.getLast?_eq_some_getLast (List.cons_ne_nil _ _), Option.mem_some] at isLast
    exact isLast ▸ chain.1
  · intro member listed i j boundFirst boundMember
    rw [← split, Program.mem_namesAt_iff] at listed
    obtain ⟨position, among, boundThere⟩ := listed
    -- A name has one position, so the two positions are those of the ring.
    obtain rfl := Program.nameAt?_inj bound boundFirst
    obtain rfl := Program.nameAt?_inj boundThere boundMember
    rcases List.mem_cons.mp among with rfl | later
    · exact le_rfl
    · exact smallest position later
  · intro readsItself
    have edge := represents.edge_iff.mpr ((Program.readsName_iff bound bound).mp readsItself)
    rw [isRing.eq_singleton_of_edge represents.coherent smallest edge]
    rfl

/-- The graph of a program without cycles gives an order. Otherwise a cycle is the failure. -/
theorem Represents.order_cases (represents : g.Represents program) :
    (∃ order, (g.order program).outcome = .ok order ∧
        order.Perm (List.range program.size) ∧ TakesLeast program.size program.Reads order) ∨
      (∃ position, Relation.TransGen program.Reads position position) ∧
        ∃ name cycle, (g.order program).outcome = .error (.dependencyCycle name cycle) ∧
          program.IsCycleFrom name cycle := by
  have coherent := represents.coherent
  have sameEdges := represents.edge_eq
  rw [represents.outcome_order]
  split
  · next left =>
    right
    obtain ⟨least, rest, found, isRing, smallest⟩ := findCycle_eq coherent left
    have inside : ∀ position ∈ least :: rest, position < program.size := by
      intro position listed
      rw [← represents.size_eq]
      exact ((waitingAt_place_pos_iff coherent).mp (isRing.waits position listed)).1
    obtain ⟨name, names, named, isCycle⟩ :=
      represents.isCycleFrom_namesAt isRing inside smallest
    refine ⟨⟨least, sameEdges ▸ isRing.transGen_self⟩, name, name :: names, ?_, isCycle⟩
    rw [found, named]
    rfl
  · next complete =>
    left
    obtain ⟨taken, perm⟩ := takesLeast_of_size_le coherent (Nat.le_of_not_lt complete)
    rw [represents.size_eq] at taken perm
    exact ⟨_, rfl, perm, sameEdges ▸ taken⟩

/-- The order of a program without cycles is the lexicographically least of all orders in which
each position comes after those it depends on. It is the only order of the positions that takes the
smallest ready position each time. -/
theorem order_eq_least_schedule (built : (ofProgram program).outcome = .ok g)
    (acyclic : ∀ position, ¬ Relation.TransGen g.Edge position position) :
    ∃ order, (g.order program).outcome = .ok order ∧
      IsSchedule program.size g.Edge order ∧
      (∀ other, IsSchedule program.size g.Edge other → other ≠ order →
        List.Lex (· < ·) order other) ∧
      TakesLeast program.size g.Edge order ∧
      ∀ other : List Nat, other.Perm (List.range program.size) →
        TakesLeast program.size g.Edge other → other = order := by
  have represents := represents_of_link (outcome_ofProgram_eq_ok_iff.mp built)
  have full := (size_le_length_placed_iff represents.coherent).mpr acyclic
  obtain ⟨taken, perm⟩ := takesLeast_of_size_le represents.coherent full
  have schedule := isSchedule_of_size_le represents.coherent full
  rw [represents.size_eq] at taken perm schedule
  refine ⟨g.place.placed.reverse, ?_, schedule, ?_, taken, ?_⟩
  · rw [represents.outcome_order, if_neg (Nat.not_lt_of_le full)]
  · intro other otherSchedule different
    exact taken.lex_of_ne perm otherSchedule different
  · intro other otherPerm otherTaken
    exact otherTaken.unique taken (otherPerm.length_eq.trans perm.length_eq.symm)

end Graph

namespace Sample

def a : Name := ⟨"a", by decide⟩

def b : Name := ⟨"b", by decide⟩

def c : Name := ⟨"c", by decide⟩

def d : Name := ⟨"d", by decide⟩

def e : Name := ⟨"e", by decide⟩

def join : Template := ⟨"join", by decide⟩

/-- `d` reads `b` in an array and `c` in an object, and both read `a`, which is declared after them.
`e` reads nothing and is declared last. -/
def diamond : Program where
  actions := #[
    ⟨d, .call join [.array [.reference b []] [], .object [("k", .reference c [])] []]⟩,
    ⟨b, .assign (.reference a [.field "x"])⟩,
    ⟨c, .assign (.reference a [])⟩,
    ⟨a, .assign (.input [])⟩,
    ⟨e, .assign (.input [])⟩]
  returns := some (.array [.reference d []] [])
  nonempty := by decide
  distinct := by decide

/-- What becomes ready late overtakes `e`, which was ready from the start. -/
theorem order_diamond : ∃ g, (Graph.ofProgram diamond).outcome = .ok g ∧
    (∀ position, ¬ Relation.TransGen g.Edge position position) ∧
    (g.order diamond).outcome = .ok [3, 1, 2, 0, 4] ∧
    ∀ other, IsSchedule diamond.size g.Edge other → other ≠ [3, 1, 2, 0, 4] →
      List.Lex (· < ·) [3, 1, 2, 0, 4] other := by
  have built : (Graph.ofProgram diamond).outcome =
      .ok ((Graph.ofResults diamond).addEdges diamond.links) := rfl
  have represents := Graph.represents_addEdges_links diamond
  have precedes : ∀ source < 5, ∀ target < 5, diamond.Reads source target →
      [3, 1, 2, 0, 4].idxOf source < [3, 1, 2, 0, 4].idxOf target := by decide
  have schedule : IsSchedule 5 ((Graph.ofResults diamond).addEdges diamond.links).Edge
      [3, 1, 2, 0, 4] := by
    refine ⟨by decide, ?_⟩
    intro source target edge
    have reads := represents.edge_iff.mp edge
    exact precedes source reads.lt_size.1 target reads.lt_size.2 reads
  have acyclic := schedule.not_transGen_self
  have value : (((Graph.ofResults diamond).addEdges diamond.links).order diamond).outcome =
      .ok [3, 1, 2, 0, 4] := by with_unfolding_all rfl
  obtain ⟨order, found, -, least, -⟩ := Graph.order_eq_least_schedule built acyclic
  obtain rfl : order = [3, 1, 2, 0, 4] := Except.ok.inj (found.symm.trans value)
  exact ⟨_, built, acyclic, value, least⟩

end Sample

end Sequencer
