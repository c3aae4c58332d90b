import Mathlib.Data.List.Forall2
import Sequencer.Proofs.Deciding

/-!
# Doing something else with what is read

A conversion looks at an action only for the name it binds and for the names it reads, as a set. Two
programs may differ in everything else: in what the actions call or assign, in paths, constants and
nesting, in the order in which names are read and in how often. Their dependencies are the same by
position, and so is the first action that reads an unbound name. Only which of its unbound names
comes first is a matter of writing.

## Main definitions

* `Program.Rewords`: the actions of two programs bind and read the same names, one by one.
* `Limits.AgreesInNames`: two outcomes differ at most in what actions do with the names they read.

## Main results

* `Program.Rewords.parallel`: reworded programs have the same dependencies.
* `Program.Rewords.map_snd_find?`: the first reader of an unbound name is the same.
* `Limits.convert_rewords`: conversions of reworded programs agree in names.
-/

namespace Sequencer

/-- Two actions bind the same name and read the same names. -/
structure Action.ReadsAlike (a b : Action) : Prop where
  result_eq : a.result = b.result
  reads_iff : ∀ name, a.Reads name ↔ b.Reads name

namespace Program

variable {p q : Program} {name : Name}

/-- The actions at each position bind the same name and read the same names, and the return values
read the same names; a missing return value reads none. -/
structure Rewords (p q : Program) : Prop where
  actions : List.Forall₂ Action.ReadsAlike p.actions.toList q.actions.toList
  returns : ∀ name, (∃ source ∈ p.returns, source.Mentions name) ↔
    ∃ source ∈ q.returns, source.Mentions name

/-! ### The first reader of an unbound name -/

section FirstReader

variable {bound : Name → Prop} [DecidablePred bound]

/-- If the same reader reads all names, it is the reader of the first one that is not bound. -/
theorem map_snd_find?_map (names : List Name) (reader : Option Name) :
    ((names.map (·, reader)).find? fun reading => ¬ bound reading.1).map Prod.snd =
      if ∃ name ∈ names, ¬ bound name then some reader else none := by
  rw [List.find?_map, Option.map_map]
  split
  · next unbound =>
    obtain ⟨name, member, missing⟩ := unbound
    have found : (names.find? fun name => decide (¬ bound name)).isSome :=
      List.find?_isSome.mpr ⟨name, member, decide_eq_true missing⟩
    obtain ⟨first, isFirst⟩ := Option.isSome_iff_exists.mp found
    exact Option.map_eq_some_iff.mpr ⟨first, isFirst, rfl⟩
  · next allBound =>
    rw [Option.map_eq_none_iff, List.find?_eq_none]
    intro name member missing
    exact allBound ⟨name, member, of_decide_eq_true missing⟩

theorem map_snd_find?_flatMap {as bs : List Action}
    (alike : List.Forall₂ Action.ReadsAlike as bs) :
    ((as.flatMap fun action => action.references.map (·, some action.result)).find?
        fun reading => ¬ bound reading.1).map Prod.snd =
      ((bs.flatMap fun action => action.references.map (·, some action.result)).find?
        fun reading => ¬ bound reading.1).map Prod.snd := by
  induction alike with
  | nil => rfl
  | @cons a b _ _ first _ ih =>
    have unbound : (∃ name ∈ a.references, ¬ bound name) ↔ ∃ name ∈ b.references, ¬ bound name := by
      simp only [Action.mem_references, first.reads_iff]
    rw [List.flatMap_cons, List.flatMap_cons, List.find?_append, List.find?_append, Option.map_or,
      Option.map_or, ih, map_snd_find?_map, map_snd_find?_map, first.result_eq,
      if_congr unbound rfl rfl]

end FirstReader

namespace Rewords

variable (same : p.Rewords q)

include same

theorem size_eq : p.size = q.size :=
  same.actions.length_eq

theorem resultNames_eq : resultNames p.actions = resultNames q.actions := by
  rw [← List.forall₂_eq_eq_eq, resultNames, resultNames, List.forall₂_map_left_iff,
    List.forall₂_map_right_iff]
  exact same.actions.imp fun _ _ alike => alike.result_eq

theorem nameAt?_eq : p.nameAt? = q.nameAt? :=
  nameAt?_eq_of_resultNames_eq same.resultNames_eq

theorem namesAt_eq (positions : List Nat) : p.namesAt positions = q.namesAt positions :=
  congrArg positions.filterMap same.nameAt?_eq

theorem binds_iff : p.Binds name ↔ q.Binds name := by
  rw [← mem_resultNames_iff, ← mem_resultNames_iff, same.resultNames_eq]

theorem reads_at_iff {target : Nat} :
    (∃ reader ∈ p.actions[target]?, reader.Reads name) ↔
      ∃ reader ∈ q.actions[target]?, reader.Reads name := by
  rcases Nat.lt_or_ge target p.size with inside | outside
  · have insideOther : target < q.size := same.size_eq ▸ inside
    have alike : p.actions[target].ReadsAlike q.actions[target] :=
      same.actions.get inside insideOther
    rw [Array.getElem?_eq_getElem inside, Array.getElem?_eq_getElem insideOther]
    simpa only [Option.mem_some_iff, exists_eq_left'] using alike.reads_iff name
  · have outsideOther : q.size ≤ target := same.size_eq ▸ outside
    rw [Array.getElem?_eq_none outside, Array.getElem?_eq_none outsideOther]

/-- Reworded programs have the same dependencies. -/
theorem parallel : p.Parallel q := by
  refine ⟨same.size_eq, ?_⟩
  intro source target
  simp only [Reads, same.nameAt?_eq, same.reads_at_iff]

/-- The first unbound name is read by the same action in both programs, or in both by the return
value; or there is none in either. -/
theorem map_snd_find? :
    (p.readings.find? fun reading => ¬ p.Binds reading.1).map Prod.snd =
      (q.readings.find? fun reading => ¬ q.Binds reading.1).map Prod.snd := by
  have returned : (∃ name ∈ p.returns.toList.flatMap Source.references, ¬ q.Binds name) ↔
      ∃ name ∈ q.returns.toList.flatMap Source.references, ¬ q.Binds name := by
    simp only [List.mem_flatMap, Option.mem_toList, Source.mem_references]
    exact exists_congr fun name => and_congr_left' (same.returns name)
  simp only [same.binds_iff, readings_eq, List.find?_append, Option.map_or, map_snd_find?_map]
  rw [map_snd_find?_flatMap same.actions, if_congr returned rfl rfl]

end Rewords

end Program

theorem Sequence.results_arrange (program : Program) (order : List Nat) :
    (arrange program order).results = program.namesAt order :=
  List.map_filterMap

namespace Limits

variable {limits : Limits} {p q : Program}

/-- Two outcomes differ at most in what actions do with the names they read, and in which of its
unbound names a reader is reported with. -/
inductive AgreesInNames : Except Failure Sequence → Except Failure Sequence → Prop
  | sequences {s t : Sequence} (results : s.results = t.results) : AgreesInNames (.ok s) (.ok t)
  | tooManyActions (count max : Nat) :
      AgreesInNames (.error (.tooManyActions count max)) (.error (.tooManyActions count max))
  | unresolved (name other : Name) (reader : Option Name) :
      AgreesInNames (.error (.unresolvedReference name reader))
        (.error (.unresolvedReference other reader))
  | tooManyEdges (count max : Nat) :
      AgreesInNames (.error (.tooManyEdges count max)) (.error (.tooManyEdges count max))
  | cycle (name : Name) (cycle : List Name) :
      AgreesInNames (.error (.dependencyCycle name cycle)) (.error (.dependencyCycle name cycle))

/-- Conversions of two programs whose actions bind and read the same names, one by one, and whose
return values read the same names, agree in names. -/
theorem convert_rewords (same : p.Rewords q) :
    AgreesInNames (limits.convert p).outcome (limits.convert q).outcome := by
  have readers := same.map_snd_find?
  rw [outcome_convert_eq, outcome_convert_eq, ← same.size_eq, ← same.parallel.dependencyPairs_eq,
    ← same.parallel.sort_eq]
  split
  · exact .tooManyActions _ _
  cases first : p.readings.find? fun reading => decide (¬ p.Binds reading.1) with
  | some reading =>
    rw [first] at readers
    obtain ⟨⟨other, reader⟩, firstOther, rfl⟩ := Option.map_eq_some_iff.mp readers.symm
    rw [firstOther]
    exact .unresolved _ _ _
  | none =>
    rw [first] at readers
    rw [Option.map_eq_none_iff.mp readers.symm]
    dsimp only
    split
    · exact .tooManyEdges _ _
    cases sorted : p.graph.sort with
    | error ring =>
      -- Both programs have the same names at the positions of the cycle.
      have represents := p.represents_graph
      obtain ⟨name, rest, named⟩ :=
        represents.coherent.exists_cycleFailure_eq represents.size_eq sorted
      change AgreesInNames (.error (Graph.cycleFailure (p.namesAt ring)))
        (.error (Graph.cycleFailure (q.namesAt ring)))
      rw [← same.namesAt_eq, named]
      exact .cycle _ _
    | ok order =>
      refine .sequences ?_
      rw [Sequence.results_arrange, Sequence.results_arrange, same.namesAt_eq]

end Limits

namespace Sample

/-- The actions of `knot` with other operations, paths and constants. Some names are read twice, and
there is a return value. -/
def snarl : Program where
  actions := #[
    ⟨a, .call join [.array [.reference c [.field "x"], .reference c []] []]⟩,
    ⟨b, .assign (.object [("k", .reference d [.index 0])] [])⟩,
    ⟨c, .call join [.reference b [], .constant (.bool true) [], .reference b [.key "q"]]⟩,
    ⟨d, .call join [.constant (.string "t") [], .reference c []]⟩,
    ⟨e, .assign (.reference a [.field "x"])⟩]
  returns := some (.input [])
  nonempty := by decide
  distinct := by decide

/-- The actions of `diamond` with other operations, paths and constants. -/
def rhombus : Program where
  actions := #[
    ⟨d, .assign (.array [.reference c [.field "y"], .reference b [], .reference b []] [])⟩,
    ⟨b, .call join [.reference a [], .constant (.bool true) []]⟩,
    ⟨c, .call join [.object [("k", .reference a [.index 1])] []]⟩,
    ⟨a, .assign (.constant (.string "t") [])⟩,
    ⟨e, .call join [.input [.key "q"]]⟩]
  returns := some (.reference d [.field "x"])
  nonempty := by decide
  distinct := by decide

/-- The cycle of `snarl` is reported like that of `knot`, and `rhombus` is put in the order of
`diamond`. -/
theorem convert_snarl : (knot.Rewords snarl ∧
      (({} : Limits).convert snarl).outcome = .error (.dependencyCycle b [b, c, d]) ∧
      Limits.AgreesInNames (({} : Limits).convert knot).outcome
        (({} : Limits).convert snarl).outcome) ∧
    diamond.Rewords rhombus ∧
      (({} : Limits).convert rhombus).outcome.map Sequence.results = .ok [a, b, c, d, e] ∧
      Limits.AgreesInNames (({} : Limits).convert diamond).outcome
        (({} : Limits).convert rhombus).outcome := by
  have same : knot.Rewords snarl := by
    constructor
    · simp only [knot, snarl, List.forall₂_cons, List.Forall₂.nil, and_true]
      refine ⟨⟨rfl, ?_⟩, ⟨rfl, ?_⟩, ⟨rfl, ?_⟩, ⟨rfl, ?_⟩, ⟨rfl, ?_⟩⟩ <;>
        simp [Action.Reads, Action.sources, Operation.sources]
    · simp [knot, snarl]
  have sameDiamond : diamond.Rewords rhombus := by
    constructor
    · simp only [diamond, rhombus, List.forall₂_cons, List.Forall₂.nil, and_true]
      refine ⟨⟨rfl, ?_⟩, ⟨rfl, ?_⟩, ⟨rfl, ?_⟩, ⟨rfl, ?_⟩, ⟨rfl, ?_⟩⟩ <;>
        simp [Action.Reads, Action.sources, Operation.sources, or_comm]
    · simp [diamond, rhombus]
  exact ⟨⟨same, by with_unfolding_all rfl, Limits.convert_rewords same⟩, sameDiamond,
    by with_unfolding_all rfl, Limits.convert_rewords sameDiamond⟩

end Sample

end Sequencer
