import Mathlib.Data.Finset.Prod
import Mathlib.Data.Finset.Card
import Sequencer.Program

/-!
# What reads what

A program taken as a relation between the positions of its actions: which name is bound where, and
which action reads the result of which. Nothing here puts anything in order. It is what an order,
a graph or a failure is measured against.

## Main definitions

* `Source.Mentions`: a name occurs in a source, at any depth.
* `Program.nameAt?`: the name that is bound at a position.
* `Program.Reads`: the action at one position reads the result of the action at another.
* `Program.Resolved`: every name that is read is bound.
* `Program.dependencyPairs`: the pairs of positions of which one reads the other.
-/

namespace Sequencer

/-- A name occurs in a source: as the source itself, in an item of an array or in the value of a
field, at any depth. -/
inductive Source.Mentions (name : Name) : Source → Prop
  | reference (path : List Segment) : Mentions name (.reference name path)
  | item {items : List Source} {item : Source} (path : List Segment) :
      item ∈ items → Mentions name item → Mentions name (.array items path)
  | field {fields : List (String × Source)} {key : String} {value : Source}
      (path : List Segment) :
      (key, value) ∈ fields → Mentions name value → Mentions name (.object fields path)

namespace Source

variable {name : Name}

@[simp]
theorem not_mentions_input {path : List Segment} : ¬ Mentions name (.input path) := by
  intro mentioned
  cases mentioned

@[simp]
theorem not_mentions_constant {value : Literal} {path : List Segment} :
    ¬ Mentions name (.constant value path) := by
  intro mentioned
  cases mentioned

@[simp]
theorem mentions_reference_iff {other : Name} {path : List Segment} :
    Mentions name (.reference other path) ↔ name = other := by
  constructor
  · intro inside
    cases inside
    rfl
  · intro same
    rw [same]
    exact .reference path

@[simp]
theorem mentions_array_iff {items : List Source} {path : List Segment} :
    Mentions name (.array items path) ↔ ∃ item ∈ items, Mentions name item := by
  constructor
  · intro mentioned
    cases mentioned with
    | item _ member inside => exact ⟨_, member, inside⟩
  · rintro ⟨item, member, inside⟩
    exact .item path member inside

@[simp]
theorem mentions_object_iff {fields : List (String × Source)} {path : List Segment} :
    Mentions name (.object fields path) ↔ ∃ field ∈ fields, Mentions name field.2 := by
  constructor
  · intro mentioned
    cases mentioned with
    | field _ member inside => exact ⟨_, member, inside⟩
  · rintro ⟨field, member, inside⟩
    exact .field path member inside

-- Arrays and objects hold lists of sources, so the three lists of names are treated together.
mutual

/-- The names listed for a source are those that occur in it. -/
theorem mem_references : ∀ source : Source, name ∈ source.references ↔ source.Mentions name
  | .input _ | .constant .. => by
    simp only [references, List.not_mem_nil, false_iff]
    nofun
  | .reference other path => by
    rw [references, List.mem_singleton, mentions_reference_iff]
  | .array items path => by
    rw [references, mem_itemReferences items, mentions_array_iff]
  | .object fields path => by
    rw [references, mem_fieldReferences fields, mentions_object_iff]

theorem mem_itemReferences : ∀ items : List Source,
    name ∈ itemReferences items ↔ ∃ item ∈ items, Mentions name item
  | [] => by simp [itemReferences]
  | item :: rest => by
    simp only [itemReferences, List.mem_append, mem_references item, mem_itemReferences rest,
      List.exists_mem_cons_iff]

theorem mem_fieldReferences : ∀ fields : List (String × Source),
    name ∈ fieldReferences fields ↔ ∃ field ∈ fields, Mentions name field.2
  | [] => by simp [fieldReferences]
  | (_, value) :: rest => by
    simp only [fieldReferences, List.mem_append, mem_references value, mem_fieldReferences rest,
      List.exists_mem_cons_iff]

end

end Source

namespace Action

/-- An action reads a name: it occurs in one of its sources. -/
def Reads (action : Action) (name : Name) : Prop :=
  ∃ source ∈ action.sources, source.Mentions name

theorem mem_references {action : Action} {name : Name} :
    name ∈ action.references ↔ action.Reads name := by
  simp only [references, List.mem_flatMap, Source.mem_references, Reads]

instance (action : Action) : DecidablePred action.Reads := fun _ =>
  decidable_of_iff _ mem_references

end Action

namespace Program

variable {program : Program} {name : Name}

/-- The name that is bound at a position. -/
def nameAt? (program : Program) (position : Nat) : Option Name :=
  program.actions[position]?.map Action.result

/-- Some action binds a name. -/
def Binds (program : Program) (name : Name) : Prop :=
  ∃ action ∈ program.actions, action.result = name

/-- The action at `target` reads the result of the action at `source`. -/
def Reads (program : Program) (source target : Nat) : Prop :=
  ∃ name ∈ program.nameAt? source, ∃ reader ∈ program.actions[target]?, reader.Reads name

/-- The action that binds `reader` reads `name`. -/
def ReadsName (program : Program) (name reader : Name) : Prop :=
  ∃ action ∈ program.actions, action.result = reader ∧ action.Reads name

/-- Every name that an action or the return value reads is bound. -/
def Resolved (program : Program) : Prop :=
  (∀ action ∈ program.actions, ∀ name, action.Reads name → program.Binds name) ∧
    ∀ source ∈ program.returns, ∀ name, source.Mentions name → program.Binds name

instance (program : Program) : DecidableRel program.Reads := fun source target =>
  inferInstanceAs (Decidable (∃ name ∈ program.nameAt? source,
    ∃ reader ∈ program.actions[target]?, reader.Reads name))

/-- The pairs of positions of which the second reads the first. -/
def dependencyPairs (program : Program) : Finset (Nat × Nat) :=
  {pair ∈ Finset.range program.size ×ˢ Finset.range program.size | program.Reads pair.1 pair.2}

/-! ### Where names are bound -/

theorem nameAt?_eq_some_iff {position : Nat} :
    program.nameAt? position = some name ↔
      ∃ action, program.actions[position]? = some action ∧ action.result = name :=
  Option.map_eq_some_iff

theorem nameAt?_eq_getElem? (program : Program) (position : Nat) :
    program.nameAt? position = (resultNames program.actions)[position]? := by
  simp [nameAt?, resultNames]

theorem nameAt?_eq_of_resultNames_eq {p q : Program}
    (names : resultNames p.actions = resultNames q.actions) : p.nameAt? = q.nameAt? := by
  funext position
  rw [nameAt?_eq_getElem?, nameAt?_eq_getElem?, names]

theorem lt_size_of_nameAt? {position : Nat} (bound : program.nameAt? position = some name) :
    position < program.size := by
  obtain ⟨action, found, -⟩ := nameAt?_eq_some_iff.mp bound
  exact (Array.getElem?_eq_some_iff.mp found).1

theorem exists_nameAt? {position : Nat} (inside : position < program.size) :
    ∃ name, program.nameAt? position = some name :=
  ⟨_, nameAt?_eq_some_iff.mpr ⟨_, Array.getElem?_eq_getElem inside, rfl⟩⟩

/-- A name is bound at one position only. -/
theorem nameAt?_inj {i j : Nat} (first : program.nameAt? i = some name)
    (second : program.nameAt? j = some name) : i = j := by
  rw [nameAt?_eq_getElem?] at first second
  obtain ⟨inside, -⟩ := List.getElem?_eq_some_iff.mp first
  exact (List.getElem?_inj inside program.distinct).mp (first.trans second.symm)

theorem binds_iff_exists_nameAt? :
    program.Binds name ↔ ∃ position, program.nameAt? position = some name := by
  simp only [Binds, nameAt?_eq_some_iff, Array.mem_iff_getElem?]
  constructor
  · rintro ⟨action, ⟨position, found⟩, bound⟩
    exact ⟨position, action, found, bound⟩
  · rintro ⟨position, action, found, bound⟩
    exact ⟨action, ⟨position, found⟩, bound⟩

theorem mem_resultNames_iff : name ∈ resultNames program.actions ↔ program.Binds name := by
  simp [resultNames, Binds]

/-! ### Reading by positions and by names -/

theorem Reads.lt_size {source target : Nat} (reads : program.Reads source target) :
    source < program.size ∧ target < program.size := by
  obtain ⟨name, bound, reader, found, -⟩ := reads
  exact ⟨lt_size_of_nameAt? bound, (Array.getElem?_eq_some_iff.mp found).1⟩

theorem mem_dependencyPairs {source target : Nat} :
    (source, target) ∈ program.dependencyPairs ↔ program.Reads source target := by
  simp only [dependencyPairs, Finset.mem_filter, Finset.mem_product, Finset.mem_range,
    and_iff_right_iff_imp]
  exact Reads.lt_size

/-- Whether one action reads another is the same said by positions and by names. -/
theorem readsName_iff {source target : Nat} {reader : Name}
    (boundSource : program.nameAt? source = some name)
    (boundTarget : program.nameAt? target = some reader) :
    program.ReadsName name reader ↔ program.Reads source target := by
  constructor
  · rintro ⟨action, member, bound, reads⟩
    -- The action that binds `reader` can only be the one at `target`.
    obtain ⟨position, found⟩ := Array.mem_iff_getElem?.mp member
    have same : position = target :=
      nameAt?_inj (nameAt?_eq_some_iff.mpr ⟨action, found, bound⟩) boundTarget
    exact ⟨name, boundSource, action, same ▸ found, reads⟩
  · rintro ⟨other, boundOther, action, found, reads⟩
    obtain rfl : other = name := Option.some_inj.mp (boundOther.symm.trans boundSource)
    have result := (congrArg (Option.map Action.result) found).symm.trans boundTarget
    exact ⟨action, Array.mem_of_getElem? found, Option.some_inj.mp result, reads⟩

end Program

end Sequencer
