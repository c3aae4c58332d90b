import Mathlib.Data.List.Induction
import Mathlib.Data.List.Sort
import Sequencer.Proofs.Linking

/-!
# Where names are read

Every name that a program reads stands at a place: the position of the action, the position of the
source in it, and the way down through arrays and objects from there. The return value stands behind
all actions. Places are lists of numbers, and one that is written before another is less than it, in
the order of lists by their first difference.

Taken in the order of their places, the names that are read form one list. It is the list that linking
goes through, although that is put together from lists of names at every level. So the name that is
reported as not bound is the first one in the text of the program, and the action it is reported for
is the one in which it stands there.

## Main definitions

* `ListedByPlace`: a list holds what occurs at places, in the order of the places.
* `Source.ReadsAt`, `Program.ReadsAt`: a name is read at a place.

## Main results

* `Source.listedByPlace_references`: the names of a source are listed in the order of their places.
* `Program.listedByPlace_readings`: so are all names that a program reads, with their readers.
* `Graph.ofProgram_reports_first`: which name is reported as not bound, and when there is none.
-/

namespace Sequencer

/-! ### Lists in the order of places -/

/-- A list holds what occurs at places, in the order of the places and as often as it occurs. -/
def ListedByPlace {β : Type} (occurs : List Nat → β → Prop) (listed : List β) : Prop :=
  ∃ entries : List (List Nat × β), entries.Pairwise (fun a b => a.1 < b.1) ∧
    (∀ place x, (place, x) ∈ entries ↔ occurs place x) ∧ entries.map Prod.snd = listed

/-- Something occurs in one of several parts. Its place there follows the position of the part. -/
def OccursWithin {α β : Type} (occurs : α → List Nat → β → Prop) (parts : List α)
    (place : List Nat) (x : β) : Prop :=
  ∃ position part rest, parts[position]? = some part ∧ place = position :: rest ∧ occurs part rest x

namespace ListedByPlace

variable {α β γ : Type} {occurs first second : List Nat → β → Prop} {listed other : List β}

/-- There is one list only. -/
theorem unique (lists : ListedByPlace occurs listed) (listsOther : ListedByPlace occurs other) :
    listed = other := by
  obtain ⟨entries, ascending, mem_entries, rfl⟩ := lists
  obtain ⟨others, ascendingOther, mem_others, rfl⟩ := listsOther
  have antisymm : Std.Antisymm fun a b : List Nat × β => a.1 < b.1 :=
    ⟨fun a b less greater => absurd greater (lt_asymm less)⟩
  have irrefl : Std.Irrefl fun a b : List Nat × β => a.1 < b.1 := ⟨fun a => lt_irrefl a.1⟩
  rw [ascending.eq_of_mem_iff ascendingOther]
  rintro ⟨place, x⟩
  rw [mem_entries, mem_others]

theorem nil (nothing : ∀ place x, ¬ occurs place x) : ListedByPlace occurs [] :=
  ⟨[], List.Pairwise.nil, by simpa using nothing, rfl⟩

theorem singleton {x : β} (only : ∀ place y, occurs place y ↔ place = [] ∧ y = x) :
    ListedByPlace occurs [x] :=
  ⟨[([], x)], List.pairwise_singleton _ _, by simp [only], rfl⟩

/-- What occurs at later places comes later in the list. -/
theorem append (lists : ListedByPlace first listed) (listsOther : ListedByPlace second other)
    (before : ∀ place x later y, first place x → second later y → place < later)
    (either : ∀ place x, occurs place x ↔ first place x ∨ second place x) :
    ListedByPlace occurs (listed ++ other) := by
  obtain ⟨entries, ascending, mem_entries, rfl⟩ := lists
  obtain ⟨others, ascendingOther, mem_others, rfl⟩ := listsOther
  refine ⟨entries ++ others, ?_, ?_, List.map_append⟩
  · refine List.pairwise_append.mpr ⟨ascending, ascendingOther, ?_⟩
    rintro ⟨place, x⟩ mem ⟨later, y⟩ memOther
    exact before place x later y ((mem_entries place x).mp mem) ((mem_others later y).mp memOther)
  · intro place x
    rw [List.mem_append, mem_entries, mem_others, either]

/-- What is put in front of all places does not change their order. -/
theorem descend (position : Nat) (lists : ListedByPlace occurs listed) :
    ListedByPlace (fun place x => ∃ rest, place = position :: rest ∧ occurs rest x) listed := by
  obtain ⟨entries, ascending, mem_entries, rfl⟩ := lists
  refine ⟨entries.map fun entry => (position :: entry.1, entry.2), ?_, ?_, ?_⟩
  · rw [List.pairwise_map]
    exact ascending.imp fun less => List.cons_lt_cons_iff.mpr (Or.inr ⟨rfl, less⟩)
  · intro place x
    simp only [List.mem_map, Prod.exists, Prod.mk.injEq, mem_entries]
    constructor
    · rintro ⟨rest, _, inside, rfl, rfl⟩
      exact ⟨rest, rfl, inside⟩
    · rintro ⟨rest, rfl, inside⟩
      exact ⟨rest, x, inside, rfl, rfl⟩
  · rw [List.map_map]
    rfl

theorem map (f : β → γ) (lists : ListedByPlace occurs listed) :
    ListedByPlace (fun place y => ∃ x, occurs place x ∧ f x = y) (listed.map f) := by
  obtain ⟨entries, ascending, mem_entries, rfl⟩ := lists
  refine ⟨entries.map fun entry => (entry.1, f entry.2), ?_, ?_, ?_⟩
  · rw [List.pairwise_map]
    exact ascending
  · intro place y
    simp only [List.mem_map, Prod.exists, Prod.mk.injEq, mem_entries]
    constructor
    · rintro ⟨_, x, inside, rfl, same⟩
      exact ⟨x, inside, same⟩
    · rintro ⟨x, inside, same⟩
      exact ⟨place, x, inside, rfl, same⟩
  · rw [List.map_map, List.map_map]
    rfl

/-- What occurs in several parts is listed part by part. -/
theorem flatMap {occursIn : α → List Nat → β → Prop} {list : α → List β} {parts : List α}
    (lists : ∀ part ∈ parts, ListedByPlace (occursIn part) (list part)) :
    ListedByPlace (OccursWithin occursIn parts) (parts.flatMap list) := by
  induction parts using List.reverseRecOn with
  | nil =>
    refine nil ?_
    rintro place x ⟨position, part, rest, found, -, -⟩
    cases found
  | append_singleton parts last ih =>
    rw [List.forall_mem_append, List.forall_mem_singleton] at lists
    rw [List.flatMap_append, List.flatMap_singleton]
    refine (ih lists.1).append (lists.2.descend parts.length) ?_ ?_
    · -- The last part has the greatest position.
      rintro _ x _ y ⟨position, part, rest, found, rfl, -⟩ ⟨after, rfl, -⟩
      exact List.cons_lt_cons_iff.mpr (Or.inl (List.getElem?_eq_some_iff.mp found).1)
    · intro place x
      constructor
      · rintro ⟨position, part, rest, found, rfl, inside⟩
        rw [List.getElem?_append] at found
        split at found
        · exact Or.inl ⟨position, part, rest, found, rfl, inside⟩
        · next beyond =>
          obtain ⟨small, rfl⟩ := List.getElem?_eq_some_iff.mp found
          rw [List.length_singleton] at small
          obtain rfl : position = parts.length := by omega
          exact Or.inr ⟨rest, rfl, by simpa using inside⟩
      · rintro (⟨position, part, rest, found, rfl, inside⟩ | ⟨rest, rfl, inside⟩)
        · have small := (List.getElem?_eq_some_iff.mp found).1
          exact ⟨position, part, rest, by rwa [List.getElem?_append_left small], rfl, inside⟩
        · exact ⟨parts.length, last, rest, by simp, rfl, inside⟩

end ListedByPlace

/-! ### Places in sources -/

namespace Source

/-- A name is read at a place in a source. The place gives the way down to it: at each array the
position of the item, at each object the position of the field. -/
inductive ReadsAt (name : Name) : Source → List Nat → Prop
  | reference (path : List Segment) : ReadsAt name (.reference name path) []
  | item {items : List Source} {item : Source} {position : Nat} {rest : List Nat}
      (path : List Segment) : items[position]? = some item → ReadsAt name item rest →
      ReadsAt name (.array items path) (position :: rest)
  | field {fields : List (String × Source)} {key : String} {value : Source} {position : Nat}
      {rest : List Nat} (path : List Segment) : fields[position]? = some (key, value) →
      ReadsAt name value rest → ReadsAt name (.object fields path) (position :: rest)

variable {name : Name} {place : List Nat} {path : List Segment}

theorem readsAt_reference_iff {other : Name} :
    ReadsAt name (.reference other path) place ↔ place = [] ∧ name = other := by
  constructor
  · intro reads
    cases reads
    exact ⟨rfl, rfl⟩
  · rintro ⟨rfl, rfl⟩
    exact .reference path

theorem readsAt_array_iff {items : List Source} :
    ReadsAt name (.array items path) place ↔
      OccursWithin (fun item rest name => ReadsAt name item rest) items place name := by
  constructor
  · intro reads
    cases reads with
    | item _ found inside => exact ⟨_, _, _, found, rfl, inside⟩
  · rintro ⟨position, item, rest, found, rfl, inside⟩
    exact .item path found inside

theorem readsAt_object_iff {fields : List (String × Source)} :
    ReadsAt name (.object fields path) place ↔
      OccursWithin (fun field rest name => ReadsAt name field.2 rest) fields place name := by
  constructor
  · intro reads
    cases reads with
    | field _ found inside => exact ⟨_, _, _, found, rfl, inside⟩
  · rintro ⟨position, field, rest, found, rfl, inside⟩
    exact .field path found inside

theorem itemReferences_eq_flatMap (items : List Source) :
    itemReferences items = items.flatMap references := by
  induction items with
  | nil => rfl
  | cons item rest ih => rw [itemReferences, ih, List.flatMap_cons]

theorem fieldReferences_eq_flatMap (fields : List (String × Source)) :
    fieldReferences fields = fields.flatMap fun field => field.2.references := by
  induction fields with
  | nil => rfl
  | cons field rest ih => rw [fieldReferences, ih, List.flatMap_cons]

mutual

/-- The names of a source are listed in the order of their places. -/
theorem listedByPlace_references : ∀ source : Source,
    ListedByPlace (fun place name => ReadsAt name source place) source.references
  | .input path => .nil fun place name reads => by cases reads
  | .constant value path => .nil fun place name reads => by cases reads
  | .reference other path => .singleton fun place name => readsAt_reference_iff
  | .array items path => by
    simp only [readsAt_array_iff, references, itemReferences_eq_flatMap]
    exact .flatMap (listedByPlace_items items)
  | .object fields path => by
    simp only [readsAt_object_iff, references, fieldReferences_eq_flatMap]
    exact .flatMap (listedByPlace_fields fields)

theorem listedByPlace_items : ∀ items : List Source, ∀ item ∈ items,
    ListedByPlace (fun place name => ReadsAt name item place) item.references
  | [] => by simp
  | item :: rest => by
    rw [List.forall_mem_cons]
    exact ⟨listedByPlace_references item, listedByPlace_items rest⟩

theorem listedByPlace_fields : ∀ fields : List (String × Source), ∀ field ∈ fields,
    ListedByPlace (fun place name => ReadsAt name field.2 place) field.2.references
  | [] => by simp
  | (_, value) :: rest => by
    rw [List.forall_mem_cons]
    exact ⟨listedByPlace_references value, listedByPlace_fields rest⟩

end

end Source

/-! ### Places in programs -/

namespace Action

/-- A name is read at a place in an action, which starts with the position of the source. -/
def ReadsAt (action : Action) (name : Name) (place : List Nat) : Prop :=
  OccursWithin (fun source rest name => source.ReadsAt name rest) action.sources place name

theorem listedByPlace_references (action : Action) :
    ListedByPlace (fun place name => action.ReadsAt name place) action.references :=
  .flatMap fun source _ => source.listedByPlace_references

end Action

namespace Program

/-- A name is read at a place in a program, by the action whose position comes first in the place, or
by the return value, which stands behind all actions and binds no name. -/
inductive ReadsAt (program : Program) : List Nat → Name × Option Name → Prop
  | action {position : Nat} {action : Action} {name : Name} {rest : List Nat} :
      program.actions[position]? = some action → action.ReadsAt name rest →
      ReadsAt program (position :: rest) (name, some action.result)
  | returned {source : Source} {name : Name} {rest : List Nat} :
      program.returns = some source → source.ReadsAt name rest →
      ReadsAt program (program.size :: rest) (name, none)

theorem readings_eq_append (program : Program) :
    program.readings =
      (program.actions.toList.flatMap fun action =>
        action.references.map (·, some action.result)) ++
      program.returns.toList.flatMap fun source => source.references.map (·, none) := by
  have actions : program.actions.toList.zipIdx.map Prod.fst = program.actions.toList :=
    List.zipIdx_map_fst 0 _
  rw [readings, demands, List.map_flatMap, List.map_flatMap]
  congr 1
  conv_rhs => rw [← actions, List.flatMap_map]
  simp only [demandsOf, List.map_map]
  rfl

/-- All names that are read are listed in the order of their places, each with its reader. -/
theorem listedByPlace_readings (program : Program) :
    ListedByPlace program.ReadsAt program.readings := by
  rw [readings_eq_append]
  have actions : ListedByPlace _ (program.actions.toList.flatMap fun action =>
      action.references.map (·, some action.result)) :=
    .flatMap fun action _ => action.listedByPlace_references.map _
  have returned : ListedByPlace
      (fun place (reading : Name × Option Name) => ∃ rest, place = program.size :: rest ∧
        ∃ source name, program.returns = some source ∧ source.ReadsAt name rest ∧
          (name, none) = reading)
      (program.returns.toList.flatMap fun source => source.references.map (·, none)) := by
    cases program.returns with
    | none => exact .nil (by simp)
    | some source =>
      have lists := source.listedByPlace_references.map fun name => (name, (none : Option Name))
      simpa using lists.descend program.size
  refine actions.append returned ?_ ?_
  · -- The positions of actions are below the number of actions.
    rintro _ _ _ _ ⟨position, action, rest, found, rfl, -⟩ ⟨after, rfl, -⟩
    exact List.cons_lt_cons_iff.mpr (Or.inl (List.getElem?_eq_some_iff.mp found).1)
  · intro place reading
    constructor
    · intro reads
      cases reads with
      | action found inside =>
        exact Or.inl ⟨_, _, _, Array.getElem?_toList.trans found, rfl, _, inside, rfl⟩
      | returned found inside => exact Or.inr ⟨_, rfl, _, _, found, inside, rfl⟩
    · rintro (⟨position, action, rest, found, rfl, name, inside, rfl⟩ |
        ⟨rest, rfl, source, name, found, inside, rfl⟩)
      · exact .action (Array.getElem?_toList.symm.trans found) inside
      · exact .returned found inside

end Program

namespace Graph

theorem outcome_ofProgram (program : Program) :
    (ofProgram program).outcome = (link program).mapError Unresolved.failure := by
  unfold ofProgram
  cases link program <;> rfl

/-- Let `readings` be what is read in the program. Then:

* `readings` is the only list that has every name that is read, with its reader, in the order of the
  places where they are read;
* a name is reported, with a reader, exactly if these are the first in `readings` of a name that no
  action binds;
* the graph is given exactly if `readings` has only names that are bound;
* there is no other failure. -/
theorem ofProgram_reports_first (program : Program) :
    (∀ listed, ListedByPlace program.ReadsAt listed ↔ listed = program.readings) ∧
    (∀ name reader, (ofProgram program).outcome = .error (.unresolvedReference name reader) ↔
      program.readings.find? (fun reading => ¬ program.Binds reading.1) = some (name, reader)) ∧
    ((∃ g, (ofProgram program).outcome = .ok g) ↔
      ∀ reading ∈ program.readings, program.Binds reading.1) ∧
    ∀ failure, (ofProgram program).outcome = .error failure →
      ∃ name reader, failure = .unresolvedReference name reader := by
  have lists := program.listedByPlace_readings
  refine ⟨fun listed => ⟨fun other => other.unique lists, fun same => same ▸ lists⟩, ?_⟩
  simp only [outcome_ofProgram_eq_ok_iff, exists_link_iff_resolved,
    Program.resolved_iff_forall_readings, true_and]
  rw [outcome_ofProgram, link_eq]
  cases program.readings.find? fun reading => decide (¬ program.Binds reading.1) with
  | none => simp [Except.mapError]
  | some reading => simp [Except.mapError, Unresolved.failure, Prod.ext_iff]

end Graph

end Sequencer
