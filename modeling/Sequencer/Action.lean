import Sequencer.Source.Text

/-!
# Actions

An action binds a name to the result of an operation: a call with any number of sources, or the
assignment of one source.
-/

namespace Sequencer

/-- The name of an operation that actions may call; it is not blank. -/
structure Template where
  /-- The name of the operation. -/
  name : String
  /-- The name is not blank. -/
  named : Text.isBlank name = false
deriving DecidableEq

/-- What an action does to obtain its result. -/
inductive Operation where
  /-- Calls an operation with sources. -/
  | call (template : Template) (arguments : List Source)
  /-- Takes a source as it is. -/
  | assign (source : Source)

/-- An action: the name it binds and what it does. -/
structure Action where
  /-- The name that is bound to the result. -/
  result : Name
  /-- How the result is obtained. -/
  operation : Operation

namespace Template

/-- The template with the given name, if that is not blank. -/
def ofName? (name : String) : Option Template :=
  if h : Text.isBlank name = false then some ⟨name, h⟩ else none

/-- The template with the given name, which must not be blank. -/
def ofName (name : String) : Except Failure Template :=
  match ofName? name with
  | some template => .ok template
  | none => .error (.malformed .blankTemplate)

end Template

namespace Operation

/-- The sources that are read, in order. -/
def sources : Operation → List Source
  | .call _ arguments => arguments
  | .assign source => [source]

/-- The name of the operation. -/
def name : Operation → String
  | .call template _ => template.name
  | .assign _ => "assign"

/-- Whether a source is taken as it is. -/
def isAssign : Operation → Bool
  | .call .. => false
  | .assign _ => true

/-- Equality of operations up to equality of numbers. -/
def same : Operation → Operation → Bool
  | .call s as, .call t bs => s == t && as == bs
  | .assign a, .assign b => a == b
  | _, _ => false

/-- The written form of an operation. -/
def text : Operation → String
  | .call template arguments =>
    template.name ++ "(" ++ ", ".intercalate (arguments.map Source.text) ++ ")"
  | .assign source => source.text

end Operation

namespace Action

/-- An action that calls an operation, whose name must not be blank. -/
def call (result : Name) (operation : String) (sources : List Source) : Except Failure Action :=
  match Template.ofName? operation with
  | some template => .ok ⟨result, .call template sources⟩
  | none => .error (.malformed (.blankOperation result))

/-- An action that takes the only source of a list. -/
def assignOnly (result : Name) (sources : List Source) : Except Failure Action :=
  match sources with
  | [source] => .ok ⟨result, .assign source⟩
  | _ => .error (.malformed (.assignmentArity result sources.length))

/-- The sources that are read, in order. -/
def sources (action : Action) : List Source :=
  action.operation.sources

/-- The names that are read, in written order and as often as they occur. -/
def references (action : Action) : List Name :=
  action.sources.flatMap Source.references

/-- Equality of actions up to equality of numbers. -/
def same (a b : Action) : Bool :=
  a.result == b.result && a.operation.same b.operation

instance : BEq Action := ⟨same⟩

/-- The written form of an action. -/
def text (action : Action) : String :=
  action.result.text ++ " = " ++ action.operation.text ++ ";"

end Action

/-- The listing of actions, one a line, followed by the return value if there is one. -/
def listing (actions : List Action) (returns : Option Source) : String :=
  String.join (actions.map fun action => action.text ++ "\n") ++
    match returns with
    | some source => "return " ++ source.text ++ ";\n"
    | none => ""

end Sequencer
