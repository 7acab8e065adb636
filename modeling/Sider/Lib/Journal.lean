/-
**Machines that log what they do.**

A machine takes inputs and may log one batch at each step; a recovery procedure replays batches.
`run_replay`: when each step's batch takes related states to related states, replaying the log of a
whole run succeeds and ends in a state related to the machine's own. `run_invariant` is the rule for
what holds of the state and of every logged batch.
-/

import Mathlib.Data.List.Basic

namespace Journal

variable {σ τ ι β ε : Type}

/-- The final state of a run, and the batches it logged, in order. -/
def run (step : σ → ι → σ × Option β) : σ → List ι → σ × List β
  | s, [] => (s, [])
  | s, input :: rest =>
    let next := step s input
    let final := run step next.1 rest
    (final.1, next.2.toList ++ final.2)

variable (step : σ → ι → σ × Option β)

theorem run_cons (s : σ) (input : ι) (rest : List ι) :
    run step s (input :: rest) =
      ((run step (step s input).1 rest).1,
        (step s input).2.toList ++ (run step (step s input).1 rest).2) := rfl

/-- An invariant of the state under which every logged batch has a property. -/
theorem run_invariant (invariant : σ → Prop) (emits : β → Prop)
    (keeps : ∀ s input, invariant s → invariant (step s input).1)
    (batches : ∀ s input batch, invariant s → (step s input).2 = some batch → emits batch)
    {s : σ} (start : invariant s) (inputs : List ι) :
    invariant (run step s inputs).1 ∧ ∀ batch ∈ (run step s inputs).2, emits batch := by
  induction inputs generalizing s with
  | nil => exact ⟨start, nofun⟩
  | cons input rest ih =>
    obtain ⟨final, log⟩ := ih (keeps s input start)
    refine ⟨final, fun batch member => ?_⟩
    rcases List.mem_append.mp member with first | later
    · exact batches s input batch start (Option.mem_toList.mp first)
    · exact log batch later

/-- **Replaying the log of a run.** `good` is what recovery needs of a batch. -/
theorem run_replay (replay : τ → β → Except ε τ) (related : σ → τ → Prop) (good : β → Prop)
    (silent : ∀ s t input, related s t → (step s input).2 = none → related (step s input).1 t)
    (logged : ∀ s t input batch, related s t → (step s input).2 = some batch → good batch →
      ∃ next, replay t batch = .ok next ∧ related (step s input).1 next)
    {s : σ} {t : τ} (start : related s t) (inputs : List ι)
    (log : ∀ batch ∈ (run step s inputs).2, good batch) :
    ∃ final, (run step s inputs).2.foldlM replay t = .ok final ∧
      related (run step s inputs).1 final := by
  induction inputs generalizing s t with
  | nil => exact ⟨t, rfl, start⟩
  | cons input rest ih =>
    rw [run_cons] at log ⊢
    have later : ∀ batch ∈ (run step (step s input).1 rest).2, good batch :=
      fun batch member => log batch (List.mem_append.mpr (.inr member))
    cases first : (step s input).2 with
    | none => exact ih (silent s t input start first) later
    | some batch =>
      have own : good batch := log batch (List.mem_append.mpr (.inl (by rw [first]; simp)))
      obtain ⟨next, ok, middle⟩ := logged s t input batch start first own
      obtain ⟨final, replays, end_⟩ := ih middle later
      refine ⟨final, ?_, end_⟩
      show (batch :: (run step (step s input).1 rest).2).foldlM replay t = _
      rw [List.foldlM_cons, ok]
      exact replays

end Journal
