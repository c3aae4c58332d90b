import Sequencer.Name

/-!
# Failures

Why something is refused: the cause, and its wording. A `Malformation` is a part of a program that
is wrong by itself, a `Failure` also covers what is wrong with a program as a whole.
-/

namespace Sequencer

/-- What is wrong with a part of a program, or with a program for want of parts. -/
inductive Malformation where
  /-- A text that is no name. -/
  | name (text : String) (fault : Name.Fault)
  /-- A number that JSON does not have, by its usual word. -/
  | notFinite (word : String)
  /-- A key that stands twice in an object. -/
  | repeatedKey (key : String)
  /-- An action that calls an operation with a blank name. -/
  | blankOperation (result : Name)
  /-- An assignment that does not have exactly one source. -/
  | assignmentArity (result : Name) (count : Nat)
  /-- A template with a blank name. -/
  | blankTemplate
  /-- A second return value. -/
  | returnAlreadySet
  /-- A program without actions. -/
  | noActions
  /-- A graph that was made for a program with other results. -/
  | foreignGraph
  /-- Actions are left that wait for each other, but no cycle among them has been found. -/
  | cycleNotLocated
  /-- Any other reason, in words. -/
  | stated (reason : String)
deriving DecidableEq

/-- Why something is refused. -/
inductive Failure where
  /-- Two actions bind the same name. -/
  | duplicateDeclaration (name : Name)
  /-- A name that no action binds is read, by an action or by the return value. -/
  | unresolvedReference (name : Name) (reader : Option Name)
  /-- Actions that wait for each other, each listed before one that reads it. -/
  | dependencyCycle (name : Name) (cycle : List Name)
  /-- A part of the program is wrong. -/
  | malformed (cause : Malformation)
  /-- The program has too many actions. -/
  | tooManyActions (count max : Nat)
  /-- The program has too many dependencies. -/
  | tooManyEdges (count max : Nat)
  /-- A sequence could not be written. -/
  | render (text : String)
deriving DecidableEq

/-- What is wrong with a part of a program, in words. -/
def Malformation.reason : Malformation → String
  | .name _ .blank => "identifier name cannot be empty"
  | .name text .reserved => "identifier name `" ++ text ++ "` is reserved"
  | .name text .numeric => "identifier name `" ++ text ++ "` reads as a number"
  | .notFinite word => word ++ " is not a JSON number"
  | .repeatedKey key => "duplicate object key \"" ++ key ++ "\""
  | .blankOperation result => "action binding " ++ result.text ++ " has an empty operation name"
  | .assignmentArity result count =>
    "assignment to " ++ result.text ++ " needs exactly one source, got " ++ toString count
  | .blankTemplate => "action template name cannot be empty"
  | .returnAlreadySet => "return value already set"
  | .noActions => "complex command has no children"
  | .foreignGraph => "dependency graph was not built from this command"
  | .cycleNotLocated => "cycle detected but not located"
  | .stated reason => reason

namespace Failure

/-- The names of a cycle, closed by repeating the first one. -/
def closedCycle (cycle : List Name) : List Name :=
  cycle ++ cycle.take 1

/-- What is wrong, in words. -/
def message : Failure → String
  | .duplicateDeclaration name => "Duplicate declaration of identifier " ++ name.text
  | .unresolvedReference name (some reader) =>
    "Unresolved reference to " ++ name.text ++ " from action binding " ++ reader.text
  | .unresolvedReference name none => "Unresolved reference to " ++ name.text ++ " from return value"
  | .dependencyCycle name cycle =>
    "Dependency cycle through " ++ name.text ++ ": " ++
      " -> ".intercalate ((closedCycle cycle).map Name.text)
  | .malformed cause => "Empty or invalid command: " ++ cause.reason
  | .tooManyActions count max => "Too many actions: " ++ toString count ++ " > " ++ toString max
  | .tooManyEdges count max => "Edge count exceeded: " ++ toString count ++ " > " ++ toString max
  | .render text => "Render failed: " ++ text

/-- Whether the program itself is wrong, whatever the limits and the output. -/
def isStructural : Failure → Bool
  | .duplicateDeclaration _ | .unresolvedReference .. | .dependencyCycle .. | .malformed _ => true
  | .tooManyActions .. | .tooManyEdges .. | .render _ => false

end Failure

/-- The name of the given text, or what is wrong with it. -/
def Name.ofText (text : String) : Except Failure Name :=
  match Name.check text with
  | .ok name => .ok name
  | .error fault => .error (.malformed (.name text fault))

end Sequencer
