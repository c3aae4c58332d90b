import Sequencer.Failure
import Sequencer.Log.Event

/-!
# Results with events

A result, or a failure, together with the events that led to it. Steps are chained as in `Except`:
a failure ends the chain, and the events of all steps up to there are kept in order.
-/

namespace Sequencer

/-- A result or a failure, with the events that led to it. -/
structure Traced (α : Type) where
  /-- The events in the order in which they happened. -/
  events : List Event
  /-- The result or the failure. -/
  outcome : Except Failure α

namespace Traced

variable {α β : Type}

/-- A result without events. -/
def ok (a : α) : Traced α :=
  ⟨[], .ok a⟩

/-- A failure without events. -/
def fail (failure : Failure) : Traced α :=
  ⟨[], .error failure⟩

/-- A step that only reports an event. -/
def report (event : Event) : Traced Unit :=
  ⟨[event], .ok ()⟩

/-- One step and then the next, unless the first one fails. -/
def andThen (x : Traced α) (next : α → Traced β) : Traced β :=
  match x.outcome with
  | .ok a => ⟨x.events ++ (next a).events, (next a).outcome⟩
  | .error failure => ⟨x.events, .error failure⟩

instance : Monad Traced where
  pure := ok
  bind := andThen

/-! ### What a chain of steps gives -/

@[simp]
theorem outcome_bind (x : Traced α) (next : α → Traced β) :
    (x >>= next).outcome = x.outcome >>= fun a => (next a).outcome := by
  change (andThen x next).outcome = _
  unfold andThen
  cases x.outcome <;> rfl

theorem events_bind_of_ok {x : Traced α} {a : α} (h : x.outcome = .ok a) (next : α → Traced β) :
    (x >>= next).events = x.events ++ (next a).events := by
  change (andThen x next).events = _
  simp only [andThen, h]

theorem events_bind_of_error {x : Traced α} {failure : Failure} (h : x.outcome = .error failure)
    (next : α → Traced β) : (x >>= next).events = x.events := by
  change (andThen x next).events = _
  simp only [andThen, h]

/-- A chain gives a result exactly if both of its steps do. -/
theorem outcome_bind_eq_ok_iff {x : Traced α} {next : α → Traced β} {b : β} :
    (x >>= next).outcome = .ok b ↔ ∃ a, x.outcome = .ok a ∧ (next a).outcome = .ok b := by
  rw [outcome_bind]
  cases x.outcome <;> simp [bind, Except.bind]

end Traced

end Sequencer
