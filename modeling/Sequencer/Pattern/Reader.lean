import Sequencer.Pattern.Bracket
import Sequencer.Text.Characters

/-!
# Patterns

A pattern is a regular expression that describes the value of a field. A filter only has to know
which texts are patterns. They are read item by item: an item is a character, an escape, a class in
brackets, an anchor, a repetition of the item before it, a bar, or one end of a group. A group may
switch modes, which hold up to the end of the group around them. The height of a pattern is limited.

## Main definitions

* `Pattern.State.step?`: reads one item.
* `isPattern`: whether a text is a pattern.
-/

namespace Sequencer

namespace Pattern

/-- What surrounds an open group. -/
structure Surrounding where
  /-- The mode before the group. -/
  mode : Mode
  /-- What has been read before the group. -/
  extent : Extent

/-- Where the reading of a pattern stands. -/
structure State where
  /-- The mode of what follows. -/
  mode : Mode := {}
  /-- What has been read in the innermost group. -/
  extent : Extent := {}
  /-- What surrounds the open groups, the innermost first. -/
  outer : List Surrounding := []
  /-- The names of the groups. -/
  names : List (List Char) := []
  /-- Whether there is an item that can be repeated. -/
  operand : Bool := false

/-- The greatest height of a pattern. -/
def maxHeight : Nat :=
  250

/-- Whether a text can name a group. -/
def isGroupName : List Char → Bool
  | [] => false
  | c :: rest =>
    (c == '_' || Text.isAlphabeticChar c) &&
      rest.all fun c => ['_', '.', '[', ']'].contains c || Text.isAlphanumericChar c

namespace State

/-- The state after an item of the given height, which can be repeated. -/
def push (state : State) (height : Nat) : State :=
  { state with extent := state.extent.push height, operand := true }

/-! ### Groups -/

/-- Enters a group. -/
def enter (state : State) (mode : Mode) : State :=
  { state with
    mode
    extent := {}
    outer := ⟨state.mode, state.extent⟩ :: state.outer
    operand := false }

/-- Leaves a group. -/
def leave? (state : State) : Option State :=
  match state.outer with
  | [] => none
  | ⟨mode, extent⟩ :: outer =>
    some ({ state with mode, extent, outer }.push (state.extent.height + 1))

/-- Enters a group with a name. -/
def named? (state : State) (cs : List Char) : Option (State × List Char) :=
  let name := cs.takeWhile (· != '>')
  match cs.dropWhile (· != '>') with
  | [] => none
  | _ :: rest =>
    if isGroupName name && !state.names.contains name then
      some ({ state.enter state.mode with names := name :: state.names }, rest)
    else none

/-- Switches modes, for a group or for what follows. A switch for what follows is an item, but
cannot be repeated. -/
def switch? (state : State) (cs : List Char) : Option (State × List Char) :=
  let switch := cs.takeWhile fun c => c != ':' && c != ')'
  if isSwitch switch then
    match cs.dropWhile fun c => c != ':' && c != ')' with
    | ':' :: rest => some (state.enter (state.mode.switch switch), rest)
    | ')' :: rest =>
      if switch.isEmpty then none
      else some ({ state.push 0 with mode := state.mode.switch switch, operand := false }, rest)
    | _ => none
  else none

/-- Reads the beginning of a group from the character after its bracket. -/
def group? (state : State) (cs : List Char) : Option (State × List Char) :=
  match state.mode.skip cs with
  | '?' :: 'P' :: '<' :: rest | '?' :: '<' :: rest => state.named? rest
  | '?' :: rest => state.switch? rest
  | rest => some (state.enter state.mode, rest)

/-! ### Items -/

/-- Repeats the item before. -/
def repeat? (state : State) : Option State :=
  if state.operand then some { state with extent := state.extent.repeated } else none

/-- Reads one item, which begins with the given character. -/
def step? (state : State) (c : Char) (rest : List Char) : Option (State × List Char) :=
  match c with
  | '(' => state.group? rest
  | ')' => state.leave?.map (·, rest)
  | '|' => some ({ state with extent := state.extent.alternative, operand := false }, rest)
  | '[' => (bracket? state.mode rest).map fun (height, rest) => (state.push height, rest)
  | '?' | '*' | '+' =>
    state.repeat?.map (·, if rest.head? == some '?' then rest.drop 1 else rest)
  | '\x7b' => none
  | '.' => if state.mode.unicode then some (state.push 0, rest) else none
  | '^' | '$' => some (state.push 0, rest)
  | '\\' =>
    (Item.read? state.mode rest).bind fun (item, rest) =>
      if item.permitted state.mode then some (state.push 0, rest) else none
  | c => if (Item.literal c false).permitted state.mode then some (state.push 0, rest) else none

/-- Whether a pattern may end here. -/
def complete (state : State) : Bool :=
  state.outer.isEmpty && state.extent.height ≤ maxHeight

/-- Whether a text continues a pattern to its end. -/
def accepts : Nat → State → List Char → Bool
  | 0, _, _ => false
  | fuel + 1, state, cs =>
    match state.mode.skip cs with
    | [] => state.complete
    | c :: rest =>
      match state.step? c rest with
      | none => false
      | some (state, rest) => accepts fuel state rest

end State

end Pattern

/-- Whether a text is a pattern. A repetition by count would need a closing brace, which a filter
has no place for, so an opening brace can only be escaped or stand in brackets. -/
def isPattern (cs : List Char) : Bool :=
  Pattern.State.accepts (cs.length + 1) {} cs

end Sequencer
