import Sequencer.Proofs.Deciding
import Sequencer.Proofs.Tables

/-!
# Rounds of placing

Placing goes round as long as something is ready: the smallest ready position is placed, and what
reads from it is released. It is run for as many steps as there are positions, and steps that find
nothing ready are idle. Here the rounds are told apart from the idle steps. No more rounds are made
than there are positions, and the steps that are run cover them all, so placing ends because nothing
is ready and not because the steps are used up.

## Main definitions

* `Placement.Rounds`: a number of rounds leads from one placement to another.

## Main results

* `Placement.Rounds.sound`: rounds keep a placement sound.
* `Placement.exists_rounds_run`, `Placement.Rounds.run_eq`: a run of steps makes rounds until
  nothing is ready.
* `Graph.invariant_of_rounds`: what holds before each round, and what holds after the last one.
-/

namespace Sequencer

namespace Placement

variable {g : Graph} {p q : Placement} {count : Nat}

/-- From the first placement, `count` rounds lead to the second. A round is made only if something
is ready. -/
inductive Rounds (g : Graph) : Placement → Nat → Placement → Prop
  | zero (p : Placement) : Rounds g p 0 p
  | succ {p q : Placement} {count : Nat} (more : p.ready ≠ [])
      (later : Rounds g (p.step g) count q) : Rounds g p (count + 1) q

/-! ### What rounds keep -/

theorem Rounds.sound (rounds : Rounds g p count q) (coherent : g.Coherent) (sound : p.Sound g) :
    q.Sound g := by
  induction rounds with
  | zero p => exact sound
  | succ more later ih => exact ih (sound.step coherent)

/-- Each round places one position. -/
theorem Rounds.length_placed (rounds : Rounds g p count q) :
    q.placed.length = p.placed.length + count := by
  induction rounds with
  | zero p => rfl
  | succ more later ih =>
    rw [ih, length_placed_step more]
    omega

/-- No position is listed twice among those that a position reads from, so its counter is the number
of those that are not placed. -/
theorem Sound.waitingAt_eq_card (sound : p.Sound g) (coherent : g.Coherent) (position : Nat) :
    p.waitingAt position =
      {source ∈ (g.dependencies position).toFinset | source ∉ p.placed}.card := by
  have distinct := coherent.nodup_dependencies position
  rw [sound.waitingAt_eq, List.countP_eq_length_filter,
    ← List.toFinset_card_of_nodup (distinct.filter _), List.toFinset_filter]
  simp only [decide_eq_true_eq]

/-! ### Rounds and steps -/

/-- A run of steps makes rounds, and perhaps idle steps after them. -/
theorem exists_rounds_run (g : Graph) (steps : Nat) (p : Placement) :
    ∃ count ≤ steps, Rounds g p count (run g steps p) := by
  induction steps generalizing p with
  | zero => exact ⟨0, le_rfl, .zero p⟩
  | succ steps ih =>
    -- Once a step is idle, all later ones are.
    by_cases idle : p.ready = []
    · rw [run_eq_of_ready_eq_nil idle]
      exact ⟨0, Nat.zero_le _, .zero p⟩
    · obtain ⟨count, within, rounds⟩ := ih (p.step g)
      exact ⟨count + 1, Nat.succ_le_succ within, .succ idle rounds⟩

/-- Rounds that leave nothing ready are what any run of enough steps makes. -/
theorem Rounds.run_eq (rounds : Rounds g p count q) (done : q.ready = []) {steps : Nat}
    (enough : count ≤ steps) : run g steps p = q := by
  induction rounds generalizing steps with
  | zero p => exact run_eq_of_ready_eq_nil done steps
  | succ more later ih =>
    cases steps with
    | zero => exact absurd enough (Nat.not_succ_le_zero _)
    | succ steps => exact ih done (Nat.le_of_succ_le_succ enough)

end Placement

namespace Graph

variable {g : Graph} {program : Program} {p : Placement} {count : Nat}

namespace Coherent

variable (coherent : g.Coherent) (rounds : Placement.Rounds g (Placement.start g) count p)

include coherent rounds

theorem rounds_le_size : count ≤ g.size := by
  have sound := rounds.sound coherent (Placement.Sound.start coherent)
  have placed : p.placed.length = 0 + count := rounds.length_placed
  have bound := sound.length_placed_le
  omega

theorem eq_place_of_rounds (done : p.ready = []) : p = g.place :=
  (rounds.run_eq done (coherent.rounds_le_size rounds)).symm

end Coherent

/-- Before each round of placing the positions of a program, and after the last one, the positions
placed are distinct positions of the graph. Each counter is the number of dependencies that are not
placed, and the positions that are ready are, each once, those not placed whose counter is zero. The
rounds come to an end after at most as many as there are positions. Then the positions whose counter
is not zero are exactly those not placed, and each of these depends on one that is not placed. -/
theorem invariant_of_rounds (built : (ofProgram program).outcome = .ok g) :
    (∀ count p, Placement.Rounds g (Placement.start g) count p →
      (p.placed.Nodup ∧ ∀ position ∈ p.placed, position < g.size) ∧
      (p.waiting.size = g.size ∧ ∀ position, p.waitingAt position =
        {source ∈ (g.dependencies position).toFinset | source ∉ p.placed}.card) ∧
      (p.ready.Nodup ∧ ∀ position, position ∈ p.ready ↔
        position < g.size ∧ position ∉ p.placed ∧ p.waitingAt position = 0) ∧
      count ≤ g.size ∧
      (p.ready = [] → p = g.place ∧
        (∀ position < g.size, 0 < p.waitingAt position ↔ position ∉ p.placed) ∧
        ∀ position < g.size, position ∉ p.placed →
          ∃ source < g.size, g.hasEdge source position = true ∧ source ∉ p.placed)) ∧
    ∃ count p, Placement.Rounds g (Placement.start g) count p ∧ p.ready = [] := by
  have coherent := (represents_of_link (outcome_ofProgram_eq_ok_iff.mp built)).coherent
  constructor
  · intro count p rounds
    have sound := rounds.sound coherent (Placement.Sound.start coherent)
    refine ⟨⟨sound.nodup_placed, sound.placed_lt⟩,
      ⟨sound.size_waiting, sound.waitingAt_eq_card coherent⟩,
      ⟨sound.ascending.imp Nat.ne_of_lt, fun _ => sound.mem_ready⟩,
      coherent.rounds_le_size rounds, ?_⟩
    intro done
    -- The rounds have come to where placing ends, and of that it is known what is left.
    obtain rfl := coherent.eq_place_of_rounds rounds done
    have left : ∀ {position}, position < g.size →
        (0 < g.place.waitingAt position ↔ position ∉ g.place.placed) := by
      intro position inside
      rw [waitingAt_place_pos_iff coherent, and_iff_right inside]
    refine ⟨rfl, fun position => left, ?_⟩
    intro position inside unplaced
    obtain ⟨source, edge, waits⟩ := exists_waiting_source coherent ((left inside).mpr unplaced)
    have sourceLt := coherent.source_lt edge
    exact ⟨source, sourceLt, hasEdge_eq_true_iff.mpr edge, (left sourceLt).mp waits⟩
  · obtain ⟨count, -, rounds⟩ := Placement.exists_rounds_run g g.size (Placement.start g)
    exact ⟨count, _, rounds, ready_place coherent⟩

end Graph

namespace Sample

/-- After `a` the action of `c` is ready, and `b` waits only for itself. After `c` nothing is ready,
and `b` is left. -/
theorem rounds_echo : ∃ g, (Graph.ofProgram echo).outcome = .ok g ∧
    Placement.Rounds g (Placement.start g) 1 ⟨[2], #[1, 0, 0], [1]⟩ ∧
    (∀ position, position ∈ [1] ↔
      position < g.size ∧ position ∉ [2] ∧ #[1, 0, 0][position]?.getD 0 = 0) ∧
    Placement.Rounds g (Placement.start g) 2 ⟨[1, 2], #[1, 0, 0], []⟩ ∧
    g.place = ⟨[1, 2], #[1, 0, 0], []⟩ ∧
    ∃ source < g.size, g.hasEdge source 0 = true ∧ source ∉ [1, 2] := by
  have built : (Graph.ofProgram echo).outcome = .ok echo.graph := rfl
  have afterOne : (Placement.start echo.graph).step echo.graph = ⟨[2], #[1, 0, 0], [1]⟩ := by
    with_unfolding_all rfl
  have afterTwo : Placement.step echo.graph ⟨[2], #[1, 0, 0], [1]⟩ = ⟨[1, 2], #[1, 0, 0], []⟩ := by
    with_unfolding_all rfl
  have one : Placement.Rounds echo.graph (Placement.start echo.graph) 1
      ⟨[2], #[1, 0, 0], [1]⟩ := .succ (by decide) (afterOne ▸ .zero _)
  have two : Placement.Rounds echo.graph (Placement.start echo.graph) 2
      ⟨[1, 2], #[1, 0, 0], []⟩ :=
    .succ (by decide) (afterOne ▸ .succ (by decide) (afterTwo ▸ .zero _))
  obtain ⟨invariant, -⟩ := Graph.invariant_of_rounds built
  obtain ⟨-, -, ⟨-, ready⟩, -⟩ := invariant 1 _ one
  obtain ⟨-, -, -, -, ending⟩ := invariant 2 _ two
  obtain ⟨ended, -, stuck⟩ := ending rfl
  exact ⟨_, built, one, ready, two, ended.symm, stuck 0 (by decide) (by decide)⟩

end Sample

end Sequencer
