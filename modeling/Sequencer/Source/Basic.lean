import Sequencer.Number.Basic
import Sequencer.Failure

/-!
# Sources

What an action may read: the external input, the result of another action, a constant, or an array
or object of sources. Each may be followed by a path of projections.

## Main definitions

* `Source`: the sources.
* `Source.field`, `Source.index`, `Source.key`: the projections of a source, one step each.
* `Source.extend`: the projection of a source by a path, step by step.
* `Source.references`: the names that a source reads, in written order.
* `Source.same`: equality of sources up to equality of numbers.
-/

namespace Sequencer

/-- One step of a projection. -/
inductive Segment where
  /-- A field, by a name that is written as it stands. -/
  | field (name : String)
  /-- An element, by its position. -/
  | index (position : Nat)
  /-- A member, by a key that is written in quotes. -/
  | key (name : String)
deriving DecidableEq

/-- A constant. -/
inductive Literal where
  /-- A truth value. -/
  | bool (value : Bool)
  /-- A number. -/
  | number (value : Number)
  /-- A text. -/
  | string (value : String)
deriving DecidableEq

/-- Something that an action may read. -/
inductive Source where
  /-- The external input. -/
  | input (path : List Segment)
  /-- The result of the action that binds a name. -/
  | reference (name : Name) (path : List Segment)
  /-- A constant. -/
  | constant (value : Literal) (path : List Segment)
  /-- An array of sources. -/
  | array (items : List Source) (path : List Segment)
  /-- An object of sources with its keys in written order. -/
  | object (fields : List (String × Source)) (path : List Segment)

/-- Equality of constants up to equality of numbers. -/
def Literal.same : Literal → Literal → Bool
  | .bool a, .bool b => a == b
  | .number a, .number b => a.same b
  | .string a, .string b => a == b
  | _, _ => false

namespace Source

/-- The path of projections. -/
def path : Source → List Segment
  | .input path | .reference _ path | .constant _ path | .array _ path | .object _ path => path

/-- The source with one more projection at the end of its path. -/
def push (source : Source) (segment : Segment) : Source :=
  match source with
  | .input path => .input (path ++ [segment])
  | .reference name path => .reference name (path ++ [segment])
  | .constant value path => .constant value (path ++ [segment])
  | .array items path => .array items (path ++ [segment])
  | .object fields path => .object fields (path ++ [segment])

/-- The field of a source. -/
def field (source : Source) (name : String) : Source :=
  source.push (.field name)

/-- The element of a source. -/
def index (source : Source) (position : Nat) : Source :=
  source.push (.index position)

/-- The member of a source. -/
def key (source : Source) (name : String) : Source :=
  source.push (.key name)

/-- The projection of a source by one step. -/
def project (source : Source) : Segment → Source
  | .field name => source.field name
  | .index position => source.index position
  | .key name => source.key name

/-- The source projected step by step. -/
def extend (source : Source) (more : List Segment) : Source :=
  more.foldl project source

theorem project_eq_push (source : Source) (segment : Segment) :
    source.project segment = source.push segment := by
  cases segment <;> rfl

@[simp]
theorem extend_nil (source : Source) : source.extend [] = source :=
  rfl

@[simp]
theorem extend_cons (source : Source) (segment : Segment) (more : List Segment) :
    source.extend (segment :: more) = (source.push segment).extend more := by
  rw [← project_eq_push]
  rfl

@[simp]
theorem path_push (source : Source) (segment : Segment) :
    (source.push segment).path = source.path ++ [segment] := by
  cases source <;> rfl

/-- Extending a source appends to its path. -/
@[simp]
theorem path_extend (source : Source) (more : List Segment) :
    (source.extend more).path = source.path ++ more := by
  induction more generalizing source with
  | nil => simp
  | cons segment more ih => simp [ih]

/-- Extending by one path and then another is extending by both. -/
@[simp]
theorem extend_extend (source : Source) (p q : List Segment) :
    (source.extend p).extend q = source.extend (p ++ q) :=
  List.foldl_append.symm

/-- Whether the source is the external input or a projection of it. -/
def isExternal : Source → Bool
  | .input _ => true
  | _ => false

mutual

/-- The names that a source reads, in written order and as often as they occur. -/
def references : Source → List Name
  | .input _ | .constant .. => []
  | .reference name _ => [name]
  | .array items _ => itemReferences items
  | .object fields _ => fieldReferences fields

/-- The names that the items of an array read. -/
def itemReferences : List Source → List Name
  | [] => []
  | item :: rest => item.references ++ itemReferences rest

/-- The names that the fields of an object read. -/
def fieldReferences : List (String × Source) → List Name
  | [] => []
  | (_, value) :: rest => value.references ++ fieldReferences rest

end

@[simp]
theorem references_push (source : Source) (segment : Segment) :
    (source.push segment).references = source.references := by
  cases source <;> simp [push, references]

/-- A path reads no names. -/
@[simp]
theorem references_extend (source : Source) (more : List Segment) :
    (source.extend more).references = source.references := by
  induction more generalizing source with
  | nil => rfl
  | cons segment more ih => rw [extend_cons, ih, references_push]

mutual

/-- Equality of sources up to equality of numbers. -/
def same : Source → Source → Bool
  | .input p, .input q => p == q
  | .reference a p, .reference b q => a == b && p == q
  | .constant a p, .constant b q => a.same b && p == q
  | .array a p, .array b q => sameItems a b && p == q
  | .object a p, .object b q => sameFields a b && p == q
  | _, _ => false

/-- Equality of the items of two arrays, in order. -/
def sameItems : List Source → List Source → Bool
  | [], [] => true
  | a :: as, b :: bs => a.same b && sameItems as bs
  | _, _ => false

/-- Equality of the fields of two objects, keys included, in order. -/
def sameFields : List (String × Source) → List (String × Source) → Bool
  | [], [] => true
  | (j, a) :: as, (k, b) :: bs => j == k && a.same b && sameFields as bs
  | _, _ => false

end

instance : BEq Source := ⟨same⟩

/-! ### Construction -/

/-- An integer that fits 64 bits. -/
def integer? (value : Int) : Option Source :=
  (Number.ofInt? value).map fun number => .constant (.number number) []

/-- The floating-point number with the given bits; JSON has neither NaN nor infinities. -/
def float (bits : UInt64) : Except Failure Source :=
  match Binary64.ofBits bits with
  | .finite value => .ok (.constant (.number (.float value)) [])
  | .infinite false => .error (.malformed (.notFinite "inf"))
  | .infinite true => .error (.malformed (.notFinite "-inf"))
  | .nan => .error (.malformed (.notFinite "NaN"))

/-- The first key that occurs again after one of the given keys or itself, going from the left. -/
def firstRepeated (seen : List String) : List String → Option String
  | [] => none
  | key :: rest => if seen.contains key then some key else firstRepeated (key :: seen) rest

/-- An object of sources; its keys have to be distinct. -/
def objectOf (fields : List (String × Source)) : Except Failure Source :=
  match firstRepeated [] (fields.map Prod.fst) with
  | none => .ok (.object fields [])
  | some key => .error (.malformed (.repeatedKey key))

end Source

end Sequencer
