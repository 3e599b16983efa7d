/-
This file is a library of runs: sequences of actions that are taken one after the other from a
state. What holds initially and is kept by every step that meets a condition holds after every run
that meets it, and so in every state reached.
-/

import Mathlib

namespace Constellation.Lib

variable {σ α : Type*}

def run (step : σ → α → σ) (state : σ) (actions : List α) : σ :=
  actions.foldl step state

def Meets (step : σ → α → σ) (condition : σ → α → Prop) : σ → List α → Prop
  | _, [] => True
  | state, action :: rest => condition state action ∧ Meets step condition (step state action) rest

instance Meets.decidable (step : σ → α → σ) (condition : σ → α → Prop)
    [∀ state action, Decidable (condition state action)] (state : σ) (actions : List α) :
    Decidable (Meets step condition state actions) :=
  match actions with
  | [] => isTrue trivial
  | action :: rest =>
    have := Meets.decidable step condition (step state action) rest
    inferInstanceAs (Decidable (_ ∧ _))

variable {step : σ → α → σ} {condition : σ → α → Prop} {state : σ} {actions : List α}

/-- The rule of invariants for runs. -/
theorem Meets.invariant (invariant : σ → Prop)
    (kept : ∀ state action, invariant state → condition state action →
      invariant (step state action)) (initial : invariant state)
    (meets : Meets step condition state actions) : invariant (run step state actions) := by
  induction actions generalizing state with
  | nil => exact initial
  | cons action rest inductionHypothesis =>
    exact inductionHypothesis (kept state action initial meets.1) meets.2

/-- The rule of invariants for what every step keeps. -/
theorem run_invariant (invariant : σ → Prop)
    (kept : ∀ state action, invariant state → invariant (step state action))
    (initial : invariant state) (actions : List α) :
    invariant (run step state actions) := by
  induction actions generalizing state with
  | nil => exact initial
  | cons action rest inductionHypothesis => exact inductionHypothesis (kept state action initial)

theorem run_append (state : σ) (first rest : List α) :
    run step state (first ++ rest) = run step (run step state first) rest :=
  List.foldl_append

/-- The steps after the first part of a run meet the condition as well. -/
theorem Meets.after {first rest : List α} (meets : Meets step condition state (first ++ rest)) :
    Meets step condition (run step state first) rest := by
  induction first generalizing state with
  | nil => exact meets
  | cons action first inductionHypothesis => exact inductionHypothesis meets.2

theorem Meets.append {first rest : List α} (meets : Meets step condition state first)
    (later : Meets step condition (run step state first) rest) :
    Meets step condition state (first ++ rest) := by
  induction first generalizing state with
  | nil => exact later
  | cons action first inductionHypothesis => exact ⟨meets.1, inductionHypothesis meets.2 later⟩

theorem Meets.mono {weaker : σ → α → Prop}
    (implied : ∀ state action, condition state action → weaker state action)
    (meets : Meets step condition state actions) : Meets step weaker state actions := by
  induction actions generalizing state with
  | nil => exact trivial
  | cons action rest inductionHypothesis =>
    exact ⟨implied state action meets.1, inductionHypothesis meets.2⟩

end Constellation.Lib
