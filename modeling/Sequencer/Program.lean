import Std.Data.TreeSet
import Sequencer.Action

/-!
# Drafts and programs

A draft collects actions under distinct names and at most one return value. A program is a draft
with at least one action.

## Main definitions

* `Draft.empty`: the draft to start from.
* `Draft.enter`, `Draft.setReturn`: the two calls that extend a draft. Each gives the draft after it
  and its answer; a call that is refused changes nothing.
* `Draft.add`, `Draft.returning`: the same calls in a chain, which a refusal ends.
* `Draft.build`: the program of a draft.
* `Program.single`: the program of a single action.
-/

namespace Sequencer

/-- The names that actions bind, in order. -/
def resultNames (actions : Array Action) : List Name :=
  actions.toList.map Action.result

@[simp]
theorem resultNames_push (actions : Array Action) (action : Action) :
    resultNames (actions.push action) = resultNames actions ++ [action.result] := by
  simp [resultNames]

/-- Actions under distinct names, and at most one return value. -/
structure Draft where
  /-- The actions in the order in which they were added. -/
  actions : Array Action
  /-- The names that are bound, for quick look-up. -/
  declared : Std.TreeSet Name
  /-- The return value. -/
  returns : Option Source
  /-- The names for look-up are those that the actions bind. -/
  mem_declared : ∀ name, name ∈ declared ↔ name ∈ resultNames actions
  /-- No name is bound twice. -/
  distinct : (resultNames actions).Nodup

/-- At least one action, all under distinct names, and at most one return value. -/
structure Program where
  /-- The actions in the order in which they were declared. -/
  actions : Array Action
  /-- The return value. -/
  returns : Option Source
  /-- There is an action. -/
  nonempty : 0 < actions.size
  /-- No name is bound twice. -/
  distinct : (resultNames actions).Nodup

namespace Draft

/-- A draft without anything. -/
def empty : Draft where
  actions := #[]
  declared := ∅
  returns := none
  mem_declared := by simp [resultNames]
  distinct := by simp [resultNames]

/-- The number of actions. -/
def size (draft : Draft) : Nat :=
  draft.actions.size

/-- The draft with one more action, whose name is not bound. -/
def push (draft : Draft) (action : Action) (fresh : action.result ∉ draft.declared) : Draft where
  actions := draft.actions.push action
  declared := draft.declared.insert action.result
  returns := draft.returns
  mem_declared name := by
    rw [Std.TreeSet.mem_insert, draft.mem_declared, resultNames_push, List.mem_append,
      List.mem_singleton, Std.LawfulEqOrd.compare_eq_iff_eq, or_comm, eq_comm]
  distinct := by
    rw [draft.mem_declared] at fresh
    rw [resultNames_push, List.nodup_append]
    refine ⟨draft.distinct, by simp, fun a known b last => ?_⟩
    rw [List.mem_singleton] at last
    exact fun same => fresh (last ▸ same ▸ known)

/-- Enters an action, unless its name is bound already: the draft after the call, and why the call
is refused, if it is. -/
def enter (draft : Draft) (action : Action) : Draft × Option Failure :=
  if bound : action.result ∈ draft.declared then
    (draft, some (.duplicateDeclaration action.result))
  else
    (draft.push action bound, none)

/-- Sets the return value, unless there is one already: the draft after the call, and why the call
is refused, if it is. -/
def setReturn (draft : Draft) (source : Source) : Draft × Option Failure :=
  if draft.returns.isSome then
    (draft, some (.malformed .returnAlreadySet))
  else
    ({ draft with returns := some source }, none)

theorem enter_of_mem {draft : Draft} {action : Action}
    (bound : action.result ∈ resultNames draft.actions) :
    draft.enter action = (draft, some (.duplicateDeclaration action.result)) :=
  dif_pos ((draft.mem_declared _).mpr bound)

/-- An action under a new name comes last, and nothing else changes. -/
theorem enter_of_not_mem {draft : Draft} {action : Action}
    (fresh : action.result ∉ resultNames draft.actions) :
    ∃ next, draft.enter action = (next, none) ∧
      next.actions = draft.actions.push action ∧ next.returns = draft.returns :=
  ⟨_, dif_neg (mt (draft.mem_declared _).mp fresh), rfl, rfl⟩

theorem setReturn_of_isSome {draft : Draft} {source : Source} (set : draft.returns.isSome) :
    draft.setReturn source = (draft, some (.malformed .returnAlreadySet)) :=
  if_pos set

theorem setReturn_of_eq_none {draft : Draft} {source : Source} (unset : draft.returns = none) :
    draft.setReturn source = ({ draft with returns := some source }, none) :=
  if_neg (by simp [unset])

/-! ### Chained calls -/

/-- The draft after a call that is not refused, to go on with. -/
def accepted : Draft × Option Failure → Except Failure Draft
  | (draft, none) => .ok draft
  | (_, some failure) => .error failure

/-- Adds an action, unless its name is bound already. -/
def add (draft : Draft) (action : Action) : Except Failure Draft :=
  accepted (draft.enter action)

/-- Gives the return value, unless there is one already. -/
def returning (draft : Draft) (source : Source) : Except Failure Draft :=
  accepted (draft.setReturn source)

/-- Adds actions in order up to the first one that is refused: the draft reached, and why the
next action is refused, if there is one. -/
def addAll (draft : Draft) : List Action → Draft × Option Failure
  | [] => (draft, none)
  | action :: rest =>
    match draft.enter action with
    | (next, none) => next.addAll rest
    | refused => refused

/-- An action under a new name is added last, and nothing else changes. -/
theorem exists_add_of_not_mem {draft : Draft} {action : Action}
    (fresh : action.result ∉ resultNames draft.actions) :
    ∃ next, draft.add action = .ok next ∧
      next.actions = draft.actions.push action ∧ next.returns = draft.returns := by
  obtain ⟨next, entered, actions, returns⟩ := enter_of_not_mem fresh
  exact ⟨next, by rw [add, entered, accepted], actions, returns⟩

/-- The program of a draft with at least one action. -/
def build (draft : Draft) : Except Failure Program :=
  if nonempty : 0 < draft.actions.size then
    .ok ⟨draft.actions, draft.returns, nonempty, draft.distinct⟩
  else
    .error (.malformed .noActions)

end Draft

namespace Program

/-- The number of actions. -/
def size (program : Program) : Nat :=
  program.actions.size

/-- The program of a single action, without return value. -/
def single (action : Action) : Program where
  actions := #[action]
  returns := none
  nonempty := by simp
  distinct := by simp [resultNames]

/-- Equality of programs up to equality of numbers. -/
def same (p q : Program) : Bool :=
  p.actions == q.actions && p.returns == q.returns

/-- The listing of a program. -/
def text (program : Program) : String :=
  listing program.actions.toList program.returns

end Program

end Sequencer
