import Mathlib.Data.List.Find
import Mathlib.Data.Set.Function
import Mathlib.Logic.Equiv.Basic
import Sequencer.Proofs.Deciding

/-!
# Giving names other names

Names are looked up and compared, and they have an order of their own. A conversion uses them only to
tell which are the same: ties are broken by positions, the first failure is found in written order,
and a cycle starts at its smallest position. So if the names of a program are replaced by others and
different ones stay different, the conversion is the same with the names replaced. A name that does
not occur in the program may go anywhere.

## Main definitions

* `Program.names`: the names that occur in a program.
* `Program.rename`: a program with its names replaced.
* `Sequence.rename`, `Failure.rename`: how a conversion ends, with the names replaced.

## Main results

* `Source.references_rename`: what a renamed source reads.
* `Program.rename_parallel`: a renamed program has the same dependencies.
* `Limits.convert_rename`: renaming commutes with conversion.
-/

namespace Sequencer

variable {r : Name → Name}

/-! ### Renamed sources and actions -/

namespace Source

mutual

/-- The source with every name in it replaced, at any depth. -/
def rename (r : Name → Name) : Source → Source
  | .input path => .input path
  | .reference name path => .reference (r name) path
  | .constant value path => .constant value path
  | .array items path => .array (renameItems r items) path
  | .object fields path => .object (renameFields r fields) path

/-- The items of an array with every name replaced. -/
def renameItems (r : Name → Name) : List Source → List Source
  | [] => []
  | item :: rest => item.rename r :: renameItems r rest

/-- The fields of an object with every name replaced; keys are no names. -/
def renameFields (r : Name → Name) : List (String × Source) → List (String × Source)
  | [] => []
  | (key, value) :: rest => (key, value.rename r) :: renameFields r rest

end

mutual

/-- The names that a renamed source reads, in the same order and as often. -/
theorem references_rename : ∀ source : Source,
    (source.rename r).references = source.references.map r
  | .input _ | .constant .. => by
    rw [rename, references]
    rfl
  | .reference name path => by
    rw [rename, references, references, List.map_singleton]
  | .array items path => by
    rw [rename, references, references, itemReferences_renameItems items]
  | .object fields path => by
    rw [rename, references, references, fieldReferences_renameFields fields]

theorem itemReferences_renameItems : ∀ items : List Source,
    itemReferences (renameItems r items) = (itemReferences items).map r
  | [] => rfl
  | item :: rest => by
    rw [renameItems, itemReferences, itemReferences, references_rename item,
      itemReferences_renameItems rest, List.map_append]

theorem fieldReferences_renameFields : ∀ fields : List (String × Source),
    fieldReferences (renameFields r fields) = (fieldReferences fields).map r
  | [] => rfl
  | (_, value) :: rest => by
    rw [renameFields, fieldReferences, fieldReferences, references_rename value,
      fieldReferences_renameFields rest, List.map_append]

end

end Source

/-- The operation with every name in its sources replaced. -/
def Operation.rename (r : Name → Name) : Operation → Operation
  | .call template arguments => .call template (arguments.map (Source.rename r))
  | .assign source => .assign (source.rename r)

theorem Operation.sources_rename (operation : Operation) :
    (operation.rename r).sources = operation.sources.map (Source.rename r) := by
  cases operation <;> rfl

namespace Action

variable {action : Action} {name : Name}

/-- The action with its result and every name that it reads replaced. -/
def rename (r : Name → Name) (action : Action) : Action where
  result := r action.result
  operation := action.operation.rename r

theorem references_rename (action : Action) :
    (action.rename r).references = action.references.map r := by
  change (action.operation.rename r).sources.flatMap Source.references = _
  rw [Operation.sources_rename, List.flatMap_map, references, List.map_flatMap]
  simp only [Source.references_rename]
  rfl

theorem reads_rename_iff :
    (action.rename r).Reads name ↔ ∃ read, action.Reads read ∧ r read = name := by
  simp only [← mem_references, references_rename, List.mem_map]

end Action

/-! ### Renamed outcomes -/

/-- What is wrong with a part of a program, with the names of actions replaced. -/
def Malformation.rename (r : Name → Name) : Malformation → Malformation
  | .blankOperation result => .blankOperation (r result)
  | .assignmentArity result count => .assignmentArity (r result) count
  | other => other

/-- A failure with every name in it replaced. -/
def Failure.rename (r : Name → Name) : Failure → Failure
  | .duplicateDeclaration name => .duplicateDeclaration (r name)
  | .unresolvedReference name reader => .unresolvedReference (r name) (reader.map r)
  | .dependencyCycle name cycle => .dependencyCycle (r name) (cycle.map r)
  | .malformed cause => .malformed (cause.rename r)
  | .tooManyActions count max => .tooManyActions count max
  | .tooManyEdges count max => .tooManyEdges count max
  | .render text => .render text

/-- A sequence with every name in it replaced. -/
def Sequence.rename (r : Name → Name) (s : Sequence) : Sequence where
  actions := s.actions.map (Action.rename r)
  returns := s.returns.map (Source.rename r)

theorem Graph.cycleFailure_map (names : List Name) :
    cycleFailure (names.map r) = (cycleFailure names).rename r := by
  cases names <;> rfl

/-! ### Renamed programs -/

theorem resultNames_map_rename (actions : Array Action) :
    resultNames (actions.map (Action.rename r)) = (resultNames actions).map r := by
  simp [resultNames, Action.rename]

namespace Program

variable {program : Program} {name : Name}

/-- The names that occur in a program: bound by an action, read by an action, or read by the return
value. -/
def names (program : Program) : Set Name :=
  {name | program.Binds name ∨ (∃ action ∈ program.actions, action.Reads name) ∨
    ∃ source ∈ program.returns, source.Mentions name}

/-- The program with its names replaced, different ones by different ones. -/
def rename (program : Program) (r : Name → Name) (injective : program.names.InjOn r) :
    Program where
  actions := program.actions.map (Action.rename r)
  returns := program.returns.map (Source.rename r)
  nonempty := by
    rw [Array.size_map]
    exact program.nonempty
  distinct := by
    rw [resultNames_map_rename]
    apply program.distinct.map_on
    intro x boundX y boundY same
    exact injective (Or.inl (mem_resultNames_iff.mp boundX))
      (Or.inl (mem_resultNames_iff.mp boundY)) same

theorem mem_names_of_mem_readings {reading : Name × Option Name}
    (listed : reading ∈ program.readings) : reading.1 ∈ program.names := by
  rcases mem_readings.mp listed with ⟨action, member, -, reads⟩ | ⟨-, source, returned, inside⟩
  · exact Or.inr (Or.inl ⟨action, member, reads⟩)
  · exact Or.inr (Or.inr ⟨source, returned, inside⟩)

variable (injective : program.names.InjOn r)

theorem size_rename : (program.rename r injective).size = program.size :=
  Array.size_map

theorem getElem?_rename (position : Nat) :
    (program.rename r injective).actions[position]? =
      program.actions[position]?.map (Action.rename r) :=
  Array.getElem?_map

theorem nameAt?_rename (position : Nat) :
    (program.rename r injective).nameAt? position = (program.nameAt? position).map r := by
  rw [nameAt?, nameAt?, getElem?_rename, Option.map_map, Option.map_map]
  rfl

theorem namesAt_rename (positions : List Nat) :
    (program.rename r injective).namesAt positions = (program.namesAt positions).map r := by
  rw [namesAt, namesAt, List.map_filterMap]
  congr 1
  funext position
  exact nameAt?_rename injective position

theorem arrange_rename (order : List Nat) :
    Sequence.arrange (program.rename r injective) order =
      (Sequence.arrange program order).rename r := by
  simp only [Sequence.arrange, Sequence.rename, List.map_filterMap, getElem?_rename]
  rfl

/-- An occurring name is bound after the renaming exactly if it was before. -/
theorem binds_rename_iff (occurs : name ∈ program.names) :
    (program.rename r injective).Binds (r name) ↔ program.Binds name := by
  rw [← mem_resultNames_iff, ← mem_resultNames_iff, rename, resultNames_map_rename, List.mem_map]
  constructor
  · rintro ⟨other, bound, same⟩
    have occursOther : other ∈ program.names := Or.inl (mem_resultNames_iff.mp bound)
    exact injective occursOther occurs same ▸ bound
  · intro bound
    exact ⟨name, bound, rfl⟩

/-- Names that are different stay different, so a renamed program has the same dependencies. -/
theorem rename_parallel : (program.rename r injective).Parallel program := by
  refine ⟨size_rename injective, ?_⟩
  intro source target
  simp only [Reads, nameAt?_rename, getElem?_rename, Option.mem_map]
  constructor
  · rintro ⟨_, ⟨name, bound, rfl⟩, _, ⟨reader, found, rfl⟩, readsRenamed⟩
    obtain ⟨read, reads, same⟩ := Action.reads_rename_iff.mp readsRenamed
    have occursRead : read ∈ program.names :=
      Or.inr (Or.inl ⟨reader, Array.mem_of_getElem? found, reads⟩)
    have occursBound : name ∈ program.names :=
      Or.inl (binds_iff_exists_nameAt?.mpr ⟨source, bound⟩)
    obtain rfl := injective occursRead occursBound same
    exact ⟨read, bound, reader, found, reads⟩
  · rintro ⟨name, bound, reader, found, reads⟩
    exact ⟨r name, ⟨name, bound, rfl⟩, _, ⟨reader, found, rfl⟩,
      Action.reads_rename_iff.mpr ⟨name, reads, rfl⟩⟩

theorem readings_rename :
    (program.rename r injective).readings =
      program.readings.map fun reading => (r reading.1, reading.2.map r) := by
  have returned : (program.returns.map (Source.rename r)).toList.flatMap Source.references =
      (program.returns.toList.flatMap Source.references).map r := by
    cases program.returns <;> simp [Source.references_rename]
  rw [readings_eq, readings_eq, List.map_append]
  congr 1
  · change (program.actions.map (Action.rename r)).toList.flatMap _ = _
    rw [Array.toList_map, List.flatMap_map, List.map_flatMap]
    congr 1
    funext action
    rw [Action.references_rename, List.map_map, List.map_map]
    rfl
  · change ((program.returns.map (Source.rename r)).toList.flatMap Source.references).map _ = _
    rw [returned, List.map_map, List.map_map]
    rfl

/-- The first name that is not bound is found at the same place. -/
theorem find?_readings_rename :
    ((program.rename r injective).readings.find? fun reading =>
        ¬ (program.rename r injective).Binds reading.1) =
      (program.readings.find? fun reading => ¬ program.Binds reading.1).map
        fun reading => (r reading.1, reading.2.map r) := by
  rw [readings_rename, List.find?_map]
  congr 1
  apply List.find?_congr
  intro reading listed
  simp only [Function.comp_apply, binds_rename_iff injective (mem_names_of_mem_readings listed)]

end Program

/-- The conversion of a renamed program ends as that of the program, with the names replaced in the
sequence or in the failure. -/
theorem Limits.convert_rename (limits : Limits) {program : Program}
    (injective : program.names.InjOn r) :
    (limits.convert (program.rename r injective)).outcome =
      ((limits.convert program).outcome.map (Sequence.rename r)).mapError (Failure.rename r) := by
  have parallel := Program.rename_parallel injective
  rw [outcome_convert_eq, outcome_convert_eq, parallel.size_eq, parallel.dependencyPairs_eq,
    parallel.sort_eq, Program.find?_readings_rename]
  split
  · rfl
  cases program.readings.find? fun reading => decide (¬ program.Binds reading.1) with
  | some reading => rfl
  | none =>
    dsimp only [Option.map_none]
    split
    · rfl
    cases program.graph.sort with
    | error ring =>
      change Except.error (Graph.cycleFailure _) = Except.error (Failure.rename r _)
      rw [Program.namesAt_rename, Graph.cycleFailure_map]
    | ok order =>
      change Except.ok _ = Except.ok _
      rw [Program.arrange_rename]

namespace Sample

/-- With `a` and `d` exchanged, the cycle of `knot` still starts at `b`, and `d` is now outside. The
sequence of `diamond` is the same but for the two names. -/
theorem convert_rename_knot : (∃ injective : knot.names.InjOn (Equiv.swap a d),
      (({} : Limits).convert (knot.rename (Equiv.swap a d) injective)).outcome =
        .error (.dependencyCycle b [b, c, a])) ∧
    ∃ injective : diamond.names.InjOn (Equiv.swap a d),
      (({} : Limits).convert (diamond.rename (Equiv.swap a d) injective)).outcome.map
        Sequence.results = .ok [d, b, c, a, e] := by
  constructor
  · refine ⟨(Equiv.swap a d).injective.injOn, ?_⟩
    rw [Limits.convert_rename]
    with_unfolding_all rfl
  · refine ⟨(Equiv.swap a d).injective.injOn, ?_⟩
    rw [Limits.convert_rename]
    with_unfolding_all rfl

end Sample

end Sequencer
