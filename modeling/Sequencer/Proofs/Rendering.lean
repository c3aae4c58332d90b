import Mathlib.Logic.Function.Basic
import Sequencer.Proofs.Documents
import Sequencer.Sequence

/-!
# Sequences by their JSON texts

The JSON value of a sequence loses nothing. Steps of a path and sources name their kind, so no two
of different kinds agree; a constant keeps its type, since booleans, texts, integers and
floating-point numbers are different JSON values; and the kind of an operation tells an assignment
from a call of an operation that is itself named `assign`. Together with the texts of JSON values
this makes both renderings of a sequence faithful.

## Main results

* `Source.toJson_inj`: different sources are different JSON values, at every depth.
* `Action.toJson_inj`, `Sequence.toJson_inj`: so are different actions and sequences.
* `Sequence.json_eq_iff`: sequences with the same text, compact or pretty, are the same.
-/

namespace Sequencer

/-! ### Sources -/

theorem Segment.toJson_injective : Function.Injective Segment.toJson := by
  intro x y same
  cases x <;> cases y <;> simp_all [toJson]

theorem Number.toJson_inj {x y : Number} (same : x.toJson = y.toJson) : x = y := by
  cases x <;> cases y <;> simp_all [toJson]

/-- A number is neither a truth value nor a text. -/
theorem Number.kind_toJson (x : Number) : x.toJson.kind = .number := by
  cases x <;> rfl

theorem Literal.toJson_inj {x y : Literal} (same : x.toJson = y.toJson) : x = y := by
  have kinds := congrArg Json.kind same
  cases x <;> cases y <;> simp only [toJson, Number.kind_toJson] at same kinds
  case bool.bool => rw [Json.bool.inj same]
  case number.number => rw [Number.toJson_inj same]
  case string.string => rw [Json.string.inj same]
  all_goals cases kinds

theorem Name.text_inj {a b : Name} (same : a.text = b.text) : a = b := by
  cases a
  cases b
  cases same
  rfl

namespace Source

theorem pathJson_inj {p q : List Segment} (same : pathJson p = pathJson q) : p = q :=
  Segment.toJson_injective.list_map (Json.array.inj same)

mutual

/-- Different sources are different JSON values, at every depth. -/
theorem toJson_inj : ∀ {x y : Source}, x.toJson = y.toJson → x = y
  | .input path, y => by
    intro same
    cases y with
    | input path' =>
      have paths : pathJson path = pathJson path' := by simpa [toJson] using same
      rw [pathJson_inj paths]
    | reference | constant | array | object => simp [toJson] at same
  | .reference name path, y => by
    intro same
    cases y with
    | reference name' path' =>
      have parts : name.text = name'.text ∧ pathJson path = pathJson path' := by
        simpa [toJson] using same
      rw [Name.text_inj parts.1, pathJson_inj parts.2]
    | input | constant | array | object => simp [toJson] at same
  | .constant value path, y => by
    intro same
    cases y with
    | constant value' path' =>
      have parts : value.toJson = value'.toJson ∧ pathJson path = pathJson path' := by
        simpa [toJson] using same
      rw [Literal.toJson_inj parts.1, pathJson_inj parts.2]
    | input | reference | array | object => simp [toJson] at same
  | .array items path, y => by
    intro same
    cases y with
    | array items' path' =>
      have parts : itemsJson items = itemsJson items' ∧ pathJson path = pathJson path' := by
        simpa [toJson] using same
      rw [itemsJson_inj parts.1, pathJson_inj parts.2]
    | input | reference | constant | object => simp [toJson] at same
  | .object fields path, y => by
    intro same
    cases y with
    | object fields' path' =>
      have parts : fieldsJson fields = fieldsJson fields' ∧ pathJson path = pathJson path' := by
        simpa [toJson] using same
      rw [fieldsJson_inj parts.1, pathJson_inj parts.2]
    | input | reference | constant | array => simp [toJson] at same

theorem itemsJson_inj : ∀ {xs ys : List Source}, itemsJson xs = itemsJson ys → xs = ys
  | [], ys => by
    intro same
    cases ys with
    | nil => rfl
    | cons y ys => simp [itemsJson] at same
  | x :: xs, ys => by
    intro same
    cases ys with
    | nil => simp [itemsJson] at same
    | cons y ys =>
      rw [itemsJson, itemsJson, List.cons.injEq] at same
      rw [toJson_inj same.1, itemsJson_inj same.2]

theorem fieldsJson_inj :
    ∀ {xs ys : List (String × Source)}, fieldsJson xs = fieldsJson ys → xs = ys
  | [], ys => by
    intro same
    cases ys with
    | nil => rfl
    | cons y ys => simp [fieldsJson] at same
  | (key, value) :: xs, ys => by
    intro same
    cases ys with
    | nil => simp [fieldsJson] at same
    | cons y ys =>
      have parts : (key = y.1 ∧ value.toJson = y.2.toJson) ∧ fieldsJson xs = fieldsJson ys := by
        simpa [fieldsJson] using same
      rw [parts.1.1, toJson_inj parts.1.2, fieldsJson_inj parts.2]

end

theorem kind_toJson (source : Source) : source.toJson.kind = .object := by
  cases source <;> rfl

end Source

/-! ### Actions and sequences -/

/-- An operation is known from its name, its kind and its sources. The kind is needed: a call of an
operation named `assign` has the name of an assignment. -/
theorem Operation.eq_of_parts {x y : Operation} (names : x.name = y.name) (kinds : x.kind = y.kind)
    (sources : x.sources = y.sources) : x = y := by
  cases x with
  | call template arguments =>
    cases y with
    | call template' arguments' =>
      cases template
      cases template'
      cases names
      cases sources
      rfl
    | assign source => simp [kind] at kinds
  | assign source =>
    cases y with
    | call template arguments => simp [kind] at kinds
    | assign source' =>
      cases sources
      rfl

theorem Action.toJson_inj {a b : Action} {i j : Nat} (same : a.toJson i = b.toJson j) :
    a = b ∧ i = j := by
  simp only [toJson, Json.object.injEq, List.cons.injEq, Prod.mk.injEq, Json.integer.injEq,
    Json.string.injEq, Json.array.injEq, true_and, and_true, Int.natCast_inj] at same
  obtain ⟨positions, results, names, kinds, sources⟩ := same
  have sources : a.operation.sources = b.operation.sources :=
    Function.Injective.list_map (fun _ _ => Source.toJson_inj) sources
  cases a
  cases b
  cases Name.text_inj results
  cases Operation.eq_of_parts names kinds sources
  exact ⟨rfl, positions⟩

namespace Sequence

theorem toJson_inj {s t : Sequence} (same : s.toJson = t.toJson) : s = t := by
  simp only [toJson, Json.object.injEq, List.cons.injEq, Prod.mk.injEq, Json.array.injEq, true_and,
    and_true] at same
  obtain ⟨actions, returns⟩ := same
  have positioned : s.actions.zipIdx = t.actions.zipIdx := by
    refine Function.Injective.list_map ?_ actions
    rintro ⟨a, i⟩ ⟨b, j⟩ same
    obtain ⟨rfl, rfl⟩ := Action.toJson_inj same
    rfl
  have actions := congrArg (List.map Prod.fst) positioned
  rw [List.zipIdx_map_fst, List.zipIdx_map_fst] at actions
  have returns : s.returns = t.returns := by
    cases source : s.returns <;> cases other : t.returns <;>
      simp only [source, other] at returns
    case none.none => rfl
    case some.some => rw [Source.toJson_inj returns]
    -- No return value is `null`, and a return value is an object.
    all_goals
      have kinds := congrArg Json.kind returns
      rw [Source.kind_toJson] at kinds
      cases kinds
  cases s
  cases t
  cases actions
  cases returns
  rfl

/-- Two sequences that are rendered to the same text, compact or pretty, are the same: they have the
same actions in the same order and the same return value. -/
theorem json_eq_iff (s t : Sequence) :
    (s.compactJson = t.compactJson ↔ s = t) ∧ (s.prettyJson = t.prettyJson ↔ s = t) := by
  refine ⟨⟨?_, congrArg compactJson⟩, ⟨?_, congrArg prettyJson⟩⟩
  · intro same
    exact toJson_inj (Json.compact_injective same)
  · intro same
    exact toJson_inj (Json.pretty_injective same)

end Sequence

end Sequencer
