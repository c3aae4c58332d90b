import Sequencer.Graph.Build
import Sequencer.Proofs.Edges
import Sequencer.Proofs.Reading

/-!
# The graph of a program is its reading relation

All names are declared before any edge is added, so whether a name is bound does not depend on how
far the edges have come. Linking a program is therefore one search through everything that is read,
for the first name that no action binds, and one run of additions if there is none.

## Main definitions

* `Program.readings`: every name that is read, with its reader, in the order of the search.
* `Program.links`: the edges in the order in which they are added.
* `Graph.Represents`: the positions, names and edges of a graph are those of a program.

## Main results

* `Graph.link_eq`: linking is a search in `readings` and a run of additions of `links`.
* `Graph.represents_of_link`: a linked graph represents its program.
* `Graph.exists_link_iff_resolved`: linking succeeds exactly if every name that is read is bound.
-/

namespace Sequencer

namespace Program

variable {program : Program} {name : Name}

instance (program : Program) : DecidablePred program.Binds := fun _ =>
  decidable_of_iff _ mem_resultNames_iff

/-- The names that an action at a position reads, each with the name the action binds and with the
position. -/
def demandsOf (entry : Action × Nat) : List (Name × Name × Nat) :=
  entry.1.references.map fun name => (name, entry.1.result, entry.2)

/-- The names that the actions read, in order, each with its reader and the position of that. -/
def demands (program : Program) : List (Name × Name × Nat) :=
  program.actions.toList.zipIdx.flatMap demandsOf

/-- The names that are read, each with its reader: those of the actions in order, and then those of
the return value, which have none. -/
def readings (program : Program) : List (Name × Option Name) :=
  program.demands.map (fun demand => (demand.1, some demand.2.1)) ++
    (program.returns.toList.flatMap Source.references).map (·, none)

/-- The edges in the order in which they are added. -/
def links (program : Program) : List (Nat × Nat) :=
  program.demands.filterMap fun demand =>
    ((Graph.ofResults program).declarer demand.1).map (·, demand.2.2)

theorem mem_demands {demand : Name × Name × Nat} :
    demand ∈ program.demands ↔ ∃ action, program.actions[demand.2.2]? = some action ∧
      action.result = demand.2.1 ∧ action.Reads demand.1 := by
  obtain ⟨read, reader, position⟩ := demand
  simp only [demands, demandsOf, List.mem_flatMap, List.mem_map, Prod.exists,
    List.mk_mem_zipIdx_iff_getElem?, Array.getElem?_toList, Prod.mk.injEq, Action.mem_references]
  constructor
  · rintro ⟨action, _, found, name, reads, rfl, bound, rfl⟩
    exact ⟨action, found, bound, reads⟩
  · rintro ⟨action, found, bound, reads⟩
    exact ⟨action, position, found, read, reads, rfl, bound, rfl⟩

/-- A name is listed with an action that reads it, or with none if the return value does. -/
theorem mem_readings {reader : Option Name} :
    (name, reader) ∈ program.readings ↔
      (∃ action ∈ program.actions, some action.result = reader ∧ action.Reads name) ∨
        none = reader ∧ ∃ source ∈ program.returns, source.Mentions name := by
  simp only [readings, List.mem_append, List.mem_map, List.mem_flatMap, Option.mem_toList,
    Prod.mk.injEq, Source.mem_references]
  refine or_congr ⟨?_, ?_⟩ ⟨?_, ?_⟩
  · rintro ⟨demand, listed, rfl, same⟩
    obtain ⟨action, found, bound, reads⟩ := mem_demands.mp listed
    exact ⟨action, Array.mem_of_getElem? found, bound ▸ same, reads⟩
  · rintro ⟨action, member, same, reads⟩
    obtain ⟨position, found⟩ := Array.mem_iff_getElem?.mp member
    have listed : (name, action.result, position) ∈ program.demands :=
      mem_demands.mpr ⟨action, found, rfl, reads⟩
    exact ⟨_, listed, rfl, same⟩
  · rintro ⟨_, inside, rfl, same⟩
    exact ⟨same, inside⟩
  · rintro ⟨same, inside⟩
    exact ⟨name, inside, rfl, same⟩

theorem resolved_iff_forall_readings :
    program.Resolved ↔ ∀ reading ∈ program.readings, program.Binds reading.1 := by
  constructor
  · rintro ⟨actions, returns⟩ ⟨name, reader⟩ listed
    rcases mem_readings.mp listed with ⟨action, member, -, reads⟩ | ⟨-, source, returned, inside⟩
    · exact actions action member name reads
    · exact returns source returned name inside
  · intro bound
    constructor
    · intro action member name reads
      exact bound _ (mem_readings.mpr (Or.inl ⟨action, member, rfl, reads⟩))
    · intro source returned name inside
      exact bound _ (mem_readings.mpr (Or.inr ⟨rfl, source, returned, inside⟩))

end Program

namespace Graph

variable {g : Graph} {program : Program} {name : Name}

/-! ### Declarations -/

-- The look-up table of a program is one of core's tables of pairs, for which look-up is known if
-- no key occurs twice. Names do not.

private theorem declarations_equiv (program : Program) :
    (Std.TreeMap.ofList (program.actions.toList.zipIdx.map fun entry =>
      (entry.1.result, entry.2))).Equiv (ofResults program).declarations := by
  refine Std.TreeMap.ofList_equiv_foldl.trans ?_
  rw [List.foldl_map]
  exact Std.TreeMap.Equiv.rfl

private theorem pairwise_names (program : Program) :
    (program.actions.toList.zipIdx.map fun entry => (entry.1.result, entry.2)).Pairwise
      fun a b => ¬ compare a.1 b.1 = .eq := by
  have names : (program.actions.toList.zipIdx.map fun entry =>
      (entry.1.result, entry.2)).map Prod.fst = resultNames program.actions := by
    rw [List.map_map, resultNames, ← List.zipIdx_map_fst 0 program.actions.toList, List.map_map,
      List.zipIdx_map_fst]
    rfl
  have distinct := program.distinct
  rw [← names, List.Nodup, List.pairwise_map] at distinct
  exact distinct.imp fun different same => different (Std.LawfulEqOrd.eq_of_compare same)

theorem size_declarations_ofResults (program : Program) :
    (ofResults program).declarations.size = program.size := by
  rw [← (declarations_equiv program).size_eq, Std.TreeMap.size_ofList (pairwise_names program),
    List.length_map, List.length_zipIdx]
  rfl

/-- A name is declared at the position where it is bound. -/
theorem declarer_ofResults {position : Nat} :
    (ofResults program).declarer name = some position ↔ program.nameAt? position = some name := by
  have declared : ∀ {name position}, program.nameAt? position = some name →
      (ofResults program).declarer name = some position := by
    intro name position bound
    obtain ⟨action, found, rfl⟩ := Program.nameAt?_eq_some_iff.mp bound
    rw [declarer, ← (declarations_equiv program).getElem?_eq]
    refine Std.TreeMap.getElem?_ofList_of_mem Std.ReflOrd.compare_self (pairwise_names program)
      (List.mem_map.mpr ⟨(action, position), ?_, rfl⟩)
    rwa [List.mk_mem_zipIdx_iff_getElem?, Array.getElem?_toList]
  refine ⟨fun found => ?_, declared⟩
  -- A declared name is bound somewhere, since otherwise no entry would have been made for it.
  have bound : program.Binds name := by
    rw [← Program.mem_resultNames_iff]
    by_contra absent
    have missing : (Std.TreeMap.ofList (program.actions.toList.zipIdx.map fun entry =>
        (entry.1.result, entry.2)))[name]? = none := by
      refine Std.TreeMap.getElem?_ofList_of_contains_eq_false ?_
      rw [List.map_map, List.contains_eq_mem, decide_eq_false_iff_not]
      intro listed
      obtain ⟨entry, member, rfl⟩ := List.mem_map.mp listed
      have inside := List.fst_mem_of_mem_zipIdx member
      exact absent (List.mem_map_of_mem inside)
    rw [declarer, ← (declarations_equiv program).getElem?_eq, missing] at found
    cases found
  obtain ⟨other, boundAt⟩ := Program.binds_iff_exists_nameAt?.mp bound
  have same : other = position := Option.some_inj.mp ((declared boundAt).symm.trans found)
  exact same ▸ boundAt

theorem declarer_ofResults_isNone_iff :
    ((ofResults program).declarer name).isNone = true ↔ ¬ program.Binds name := by
  rw [Option.isNone_iff_eq_none, Option.eq_none_iff_forall_ne_some,
    Program.binds_iff_exists_nameAt?, not_exists]
  simp only [ne_eq, declarer_ofResults]

/-! ### Linking as one search and one run of additions -/

/-- Adds the edge for one name that is read. -/
def linkDemand (g : Graph) (demand : Name × Name × Nat) : Except Unresolved Graph :=
  linkName demand.2.1 demand.2.2 g demand.1

private theorem linkAction_eq (g : Graph) (entry : Action × Nat) :
    linkAction g entry = (Program.demandsOf entry).foldlM linkDemand g := by
  rw [Program.demandsOf, List.foldlM_map]
  rfl

private theorem foldlM_linkAction (entries : List (Action × Nat)) (g : Graph) :
    entries.foldlM linkAction g = (entries.flatMap Program.demandsOf).foldlM linkDemand g := by
  induction entries generalizing g with
  | nil => rfl
  | cons entry rest ih =>
    rw [List.flatMap_cons, List.foldlM_append, List.foldlM_cons, ← linkAction_eq]
    exact congrArg _ (funext ih)

/-- No edge changes what is declared, so the names can be looked up all at once. -/
private theorem foldlM_linkDemand (demands : List (Name × Name × Nat)) (g : Graph) :
    demands.foldlM linkDemand g =
      match demands.find? fun demand => (g.declarer demand.1).isNone with
      | some demand => .error ⟨demand.1, some demand.2.1⟩
      | none => .ok (g.addEdges (demands.filterMap fun demand =>
          (g.declarer demand.1).map (·, demand.2.2))) := by
  induction demands generalizing g with
  | nil => rfl
  | cons demand rest ih =>
    rw [List.foldlM_cons, linkDemand, linkName, List.find?_cons, List.filterMap_cons]
    cases declared : g.declarer demand.1 with
    | none => rfl
    | some source =>
      change rest.foldlM linkDemand (g.addEdge source demand.2.2) = _
      rw [ih]
      simp only [declarer_addEdge]
      rfl

/-- Linking looks for the first name that is read and not bound. If there is none, it adds the
edges one after another. -/
theorem link_eq (program : Program) :
    link program =
      match program.readings.find? fun reading => ¬ program.Binds reading.1 with
      | some reading => .error ⟨reading.1, reading.2⟩
      | none => .ok ((ofResults program).addEdges program.links) := by
  have unbound : ∀ name, ((ofResults program).declarer name).isNone =
      decide (¬ program.Binds name) := by
    intro name
    rw [Bool.eq_iff_iff, declarer_ofResults_isNone_iff, decide_eq_true_iff]
  have actions : program.actions.toList.zipIdx.foldlM linkAction (ofResults program) = _ :=
    (foldlM_linkAction _ _).trans (foldlM_linkDemand _ _)
  simp only [unbound] at actions
  rw [link, actions, ← Program.demands, Program.readings, List.find?_append, List.find?_map,
    List.find?_map]
  simp only [Function.comp_def]
  -- A name that an action reads comes before all that the return value reads.
  cases program.demands.find? fun demand => decide (¬ program.Binds demand.1) with
  | some demand => rfl
  | none =>
    simp only [declarer_addEdges, unbound]
    cases (program.returns.toList.flatMap Source.references).find?
      fun name => decide (¬ program.Binds name) <;> rfl

theorem mem_links {source target : Nat} :
    (source, target) ∈ program.links ↔ program.Reads source target := by
  simp only [Program.links, List.mem_filterMap, Option.map_eq_some_iff, Prod.mk.injEq,
    declarer_ofResults]
  constructor
  · rintro ⟨⟨name, reader, _⟩, listed, _, bound, rfl, rfl⟩
    obtain ⟨action, found, -, reads⟩ := Program.mem_demands.mp listed
    exact ⟨name, bound, action, found, reads⟩
  · rintro ⟨name, bound, action, found, reads⟩
    have listed : (name, action.result, target) ∈ program.demands :=
      Program.mem_demands.mpr ⟨action, found, rfl, reads⟩
    exact ⟨_, listed, source, bound, rfl, rfl⟩

/-! ### What a linked graph knows -/

/-- The positions, names and edges of a graph are those of a program. -/
structure Represents (g : Graph) (program : Program) : Prop where
  coherent : g.Coherent
  /-- There are as many positions as actions. -/
  size_eq : g.size = program.size
  /-- There are as many names as actions. -/
  size_declarations : g.declarations.size = program.size
  /-- A name is declared where it is bound. -/
  declarer_iff : ∀ {name position},
    g.declarer name = some position ↔ program.nameAt? position = some name
  /-- The edges lead from what is read to what reads it. -/
  edge_iff : ∀ {source target}, g.Edge source target ↔ program.Reads source target

@[simp]
theorem size_declarations_addEdges (g : Graph) (pairs : List (Nat × Nat)) :
    (g.addEdges pairs).declarations.size = g.declarations.size := by
  induction pairs generalizing g with
  | nil => rfl
  | cons pair pairs ih =>
    rw [addEdges_cons, ih, addEdge]
    split <;> rfl

theorem coherent_ofResults (program : Program) : (ofResults program).Coherent :=
  coherent_of_nodes_eq rfl rfl

theorem not_edge_ofResults (program : Program) (source target : Nat) :
    ¬ (ofResults program).Edge source target :=
  (coherent_ofResults program).not_edge_of_edgeCount_eq_zero rfl

theorem size_ofResults (program : Program) : (ofResults program).size = program.size :=
  size_withNodes program.size

theorem lt_size_of_mem_links : ∀ pair ∈ program.links,
    pair.1 < (ofResults program).size ∧ pair.2 < (ofResults program).size := by
  intro pair listed
  rw [size_ofResults]
  exact (mem_links.mp listed).lt_size

theorem represents_addEdges_links (program : Program) :
    ((ofResults program).addEdges program.links).Represents program := by
  have start := coherent_ofResults program
  refine ⟨start.addEdges lt_size_of_mem_links, ?_, ?_, ?_, ?_⟩
  · rw [size_addEdges, size_ofResults]
  · rw [size_declarations_addEdges, size_declarations_ofResults]
  · intro name position
    rw [declarer_addEdges, declarer_ofResults]
  · intro source target
    rw [edge_addEdges start lt_size_of_mem_links,
      or_iff_right (not_edge_ofResults program source target), mem_links]

/-- A linked graph is the run of additions. -/
theorem eq_addEdges_of_link (linked : link program = .ok g) :
    g = (ofResults program).addEdges program.links := by
  rw [link_eq] at linked
  split at linked
  · cases linked
  · cases linked
    rfl

theorem represents_of_link (linked : link program = .ok g) : g.Represents program := by
  rw [eq_addEdges_of_link linked]
  exact represents_addEdges_links program

/-- Linking succeeds exactly if every name that is read is bound. -/
theorem exists_link_iff_resolved : (∃ g, link program = .ok g) ↔ program.Resolved := by
  have search : (program.readings.find? fun reading => ¬ program.Binds reading.1) = none ↔
      program.Resolved := by
    rw [List.find?_eq_none, Program.resolved_iff_forall_readings]
    simp only [decide_eq_true_eq, not_not]
  rw [link_eq, ← search]
  split <;> simp_all

namespace Represents

variable (represents : g.Represents program)

include represents

/-- The number of edges is the number of pairs of which one reads the other. -/
theorem edgeCount_eq : g.edgeCount = program.dependencyPairs.card := by
  rw [represents.coherent.edgeCount_eq]
  congr 1
  ext ⟨source, target⟩
  rw [represents.coherent.mem_edges, represents.edge_iff, Program.mem_dependencyPairs]

theorem edge_eq : g.Edge = program.Reads := by
  funext source target
  exact propext represents.edge_iff

theorem describes : g.describes program = true := by
  rw [Graph.describes, represents.size_eq, represents.size_declarations, beq_self_eq_true,
    Bool.and_self, Bool.true_and, List.all_eq_true]
  rintro ⟨action, position⟩ listed
  rw [List.mk_mem_zipIdx_iff_getElem?, Array.getElem?_toList] at listed
  rw [beq_iff_eq, represents.declarer_iff, Program.nameAt?_eq_some_iff]
  exact ⟨action, listed, rfl⟩

end Represents

theorem outcome_ofProgram_eq_ok_iff :
    (ofProgram program).outcome = .ok g ↔ link program = .ok g := by
  unfold ofProgram
  cases link program <;> simp

end Graph

end Sequencer
