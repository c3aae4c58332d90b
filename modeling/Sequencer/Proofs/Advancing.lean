import Sequencer.Json.Text

/-!
# Machines that read text

Texts are read by machines that take one character at a time. What a machine does with a text is told
by the states it goes through. A machine that holds another one goes over a text as that one does, and
most machines stay where they are over blanks.

## Main definitions

* `Advances`: a machine goes over a text from one state to another.
* `Json.Blank`: a text of blanks.

## Main results

* `Advances.append`: a way over a text is put together from ways over its parts.
* `Advances.lift`: a machine that holds another one goes as that one does.
* `Advances.foldlM_eq`: a machine that may fail does not fail on its way.
-/

namespace Sequencer

/-- A machine goes over the characters of a text from a state to another, one step for each. -/
inductive Advances {σ : Type} (step : σ → Char → σ → Prop) : σ → List Char → σ → Prop
  | nil (s : σ) : Advances step s [] s
  | cons {s t u : σ} {c : Char} {rest : List Char} (first : step s c t)
      (others : Advances step t rest u) : Advances step s (c :: rest) u

namespace Advances

variable {σ τ ε : Type} {step : σ → Char → σ → Prop} {s t u : σ} {c : Char} {text more : List Char}

theorem single (first : step s c t) : Advances step s [c] t :=
  .cons first (.nil t)

theorem append (way : Advances step s text t) (wayMore : Advances step t more u) :
    Advances step s (text ++ more) u := by
  induction way with
  | nil => exact wayMore
  | cons first _ ih => exact .cons first (ih wayMore)

/-- A machine that makes the steps of another one, which it holds, goes over a text as that does. -/
theorem lift {stepOuter : τ → Char → τ → Prop} (hold : σ → τ)
    (holds : ∀ s c t, step s c t → stepOuter (hold s) c (hold t)) (way : Advances step s text t) :
    Advances stepOuter (hold s) text (hold t) := by
  induction way with
  | nil s => exact .nil (hold s)
  | cons first _ ih => exact .cons (holds _ _ _ first) ih

theorem foldlM_eq {step : σ → Char → Except ε σ}
    (way : Advances (fun s c t => step s c = .ok t) s text t) : text.foldlM step s = .ok t := by
  induction way with
  | nil => rfl
  | cons first _ ih =>
    rw [List.foldlM_cons, first]
    exact ih

end Advances

/-- A text of blanks, which may be empty. -/
def Json.Blank (text : List Char) : Prop :=
  ∀ c ∈ text, isSpace c = true

theorem Json.Blank.nil : Blank [] :=
  List.forall_mem_nil _

/-- A machine goes over blanks if it stays where it is. -/
theorem Json.Blank.advances {σ : Type} {step : σ → Char → σ → Prop} {s : σ} {text : List Char}
    (blank : Blank text) (stays : ∀ c, isSpace c = true → step s c s) : Advances step s text s := by
  induction text with
  | nil => exact .nil s
  | cons c rest ih =>
    rw [Blank, List.forall_mem_cons] at blank
    exact .cons (stays c blank.1) (ih blank.2)

/-- Blanks that lead from a state to one where the machine stays keep what holds of both. -/
theorem Json.Blank.exists_advances {σ : Type} {step : σ → Char → σ → Prop} {holds : σ → Prop}
    {s t : σ} {text : List Char} (blank : Blank text) (here : holds s) (there : holds t)
    (leads : ∀ c, isSpace c = true → step s c t) (stays : ∀ c, isSpace c = true → step t c t) :
    ∃ u, Advances step s text u ∧ holds u := by
  cases text with
  | nil => exact ⟨s, .nil s, here⟩
  | cons c rest =>
    rw [Blank, List.forall_mem_cons] at blank
    exact ⟨t, .cons (leads c blank.1) (Blank.advances blank.2 stays), there⟩

end Sequencer
