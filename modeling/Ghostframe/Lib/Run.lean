import Mathlib

/-!
# Runs of a state machine

A deterministic machine is a step function `σ → α → σ`, its run over a list of
actions is `run`. `Along ok` says that every step of a run meets the side
condition `ok`, a relation between the state before the step and the action.

* `run_inv`: what every step preserves holds after the run;
* `Along.inv`: the same, for steps that only preserve it under the condition.

Both are about every list of actions, so they speak of every state a run passes
through.
-/

namespace Ghostframe

variable {σ α : Type*}

/-- The state after a list of actions. -/
def run (step : σ → α → σ) (s : σ) (acts : List α) : σ := acts.foldl step s

variable (step : σ → α → σ)

@[simp] theorem run_nil (s : σ) : run step s [] = s := rfl

theorem run_cons (s : σ) (a : α) (acts : List α) :
    run step s (a :: acts) = run step (step s a) acts := rfl

theorem run_append (s : σ) (acts later : List α) :
    run step s (acts ++ later) = run step (run step s acts) later :=
  List.foldl_append

/-- Every step of the run meets the side condition. -/
def Along (ok : σ → α → Prop) (step : σ → α → σ) : σ → List α → Prop
  | _, [] => True
  | s, a :: acts => ok s a ∧ Along ok step (step s a) acts

/-- The side condition of a run can be evaluated. -/
def Along.decidable (ok : σ → α → Prop) [∀ s a, Decidable (ok s a)] (step : σ → α → σ) :
    ∀ (s : σ) (acts : List α), Decidable (Along ok step s acts)
  | _, [] => .isTrue trivial
  | s, a :: acts =>
    have := Along.decidable ok step (step s a) acts
    inferInstanceAs (Decidable (ok s a ∧ Along ok step (step s a) acts))

instance (ok : σ → α → Prop) [∀ s a, Decidable (ok s a)] (step : σ → α → σ) (s : σ)
    (acts : List α) : Decidable (Along ok step s acts) :=
  Along.decidable ok step s acts

theorem along_append {ok : σ → α → Prop} {step : σ → α → σ} {s : σ} {acts later : List α} :
    Along ok step s (acts ++ later) ↔
      Along ok step s acts ∧ Along ok step (run step s acts) later := by
  induction acts generalizing s with
  | nil => simp [Along]
  | cons a acts ih =>
    simp only [List.cons_append, Along, run_cons, ih, and_assoc]

/-- What every step of a run preserves under its side condition holds after the run. -/
theorem Along.inv {ok : σ → α → Prop} {step : σ → α → σ} {I : σ → Prop}
    (hstep : ∀ s a, I s → ok s a → I (step s a)) {s : σ} {acts : List α}
    (h : Along ok step s acts) (hs : I s) : I (run step s acts) := by
  induction acts generalizing s with
  | nil => exact hs
  | cons a acts ih =>
    exact ih h.2 (hstep s a hs h.1)

/-- What the steps of a run preserve holds after the run. -/
theorem run_inv {step : σ → α → σ} {I : σ → Prop} {s : σ} {acts : List α}
    (hstep : ∀ t, ∀ a ∈ acts, I t → I (step t a)) (hs : I s) : I (run step s acts) := by
  induction acts generalizing s with
  | nil => exact hs
  | cons a acts ih =>
    refine ih (fun t b hb => hstep t b (List.mem_cons_of_mem _ hb)) ?_
    exact hstep s a List.mem_cons_self hs

end Ghostframe
