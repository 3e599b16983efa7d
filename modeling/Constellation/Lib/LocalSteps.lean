/-
This file is a library of loops each step of which may change what is read at one place of a
state. Such a loop changes exactly the places it visits, and at each of them it does what one step
does, in whatever order they are visited.
-/

import Mathlib

namespace Constellation.Lib

open List

/-- A step keeps the condition, changes at most the place it targets, and leaves there a result that
depends on the visit only, is reached from what was there initially, and is kept once it is
there. -/
structure LocalSteps {σ κ β α : Type*} (read : σ → κ → β) (keep : σ → Prop) (target : α → κ)
    (result : α → β) (step : σ → α → σ) (initial : σ) (visits : List α) : Prop where
  keeps : ∀ state, keep state → ∀ visit ∈ visits, keep (step state visit)
  elsewhere : ∀ state, keep state → ∀ visit ∈ visits, ∀ place, place ≠ target visit →
    read (step state visit) place = read state place
  there : ∀ state, keep state → ∀ visit ∈ visits,
    read state (target visit) = read initial (target visit) ∨
        read state (target visit) = result visit →
      read (step state visit) (target visit) = result visit
  unique : ∀ visit ∈ visits, ∀ other ∈ visits, target visit = target other →
    result visit = result other

namespace LocalSteps

variable {σ κ β α : Type*} {read : σ → κ → β} {keep : σ → Prop} {target : α → κ} {result : α → β}
  {step : σ → α → σ} {initial : σ} {visits : List α} {state : σ} {place : κ} {visit : α}

/-- A state between two steps: each place that is visited has what it had or what a visit leaves. -/
def Within (_ : LocalSteps read keep target result step initial visits) (state : σ) : Prop :=
  keep state ∧ ∀ visit ∈ visits, read state (target visit) = read initial (target visit) ∨
    read state (target visit) = result visit

variable (steps : LocalSteps read keep target result step initial visits)
include steps

theorem read_step (within : steps.Within state) {other : α} (member : visit ∈ visits)
    (otherMember : other ∈ visits) (same : target other = target visit) :
    read (step state visit) (target other) = result other := by
  rw [steps.unique other otherMember visit member same, same]
  exact steps.there state within.1 visit member (within.2 visit member)

theorem within_step (within : steps.Within state) (member : visit ∈ visits) :
    steps.Within (step state visit) := by
  refine ⟨steps.keeps state within.1 visit member, fun other otherMember => ?_⟩
  by_cases same : target other = target visit
  · exact .inr (steps.read_step within member otherMember same)
  · rw [steps.elsewhere state within.1 visit member _ same]
    exact within.2 other otherMember

theorem foldl_induction {motive : σ → Prop} {part : List α} (subset : part ⊆ visits)
    (within : steps.Within state) (start : motive state)
    (each : ∀ state, steps.Within state → motive state → ∀ visit ∈ visits,
      motive (step state visit)) :
    motive (part.foldl step state) :=
  (foldlRecOn (motive := fun state => steps.Within state ∧ motive state) part step ⟨within, start⟩
    fun state ⟨within, reached⟩ visit member => ⟨steps.within_step within (subset member),
      each state within reached visit (subset member)⟩).2

variable (kept : keep initial)
include kept

theorem within_foldl {part : List α} (subset : part ⊆ visits) :
    steps.Within (part.foldl step initial) :=
  foldlRecOn part step ⟨kept, fun _ _ => .inl rfl⟩ fun _ within _ member =>
    steps.within_step within (subset member)

theorem keep_foldl : keep (visits.foldl step initial) :=
  (steps.within_foldl kept (Subset.refl _)).1

/-- A loop of local steps leaves every other place as it was. -/
theorem read_foldl_of_not_mem (unvisited : ∀ visit ∈ visits, target visit ≠ place) :
    read (visits.foldl step initial) place = read initial place := by
  refine steps.foldl_induction (motive := fun state => read state place = read initial place)
    (Subset.refl _) (steps.within_foldl kept (nil_subset _)) rfl ?_
  intro state within unchanged visit member
  rw [steps.elsewhere state within.1 visit member place (unvisited visit member).symm, unchanged]

/-- A loop of local steps does at every visited place what one visit does. -/
theorem read_foldl_of_mem (member : visit ∈ visits) :
    read (visits.foldl step initial) (target visit) = result visit := by
  obtain ⟨before, after, split⟩ := append_of_mem member
  have within : steps.Within (before.foldl step initial) :=
    steps.within_foldl kept (by simp [split])
  rw [split, foldl_append, foldl_cons]
  refine steps.foldl_induction (motive := fun state => read state (target visit) = result visit)
    (by simp [split]) (steps.within_step within member)
    (steps.read_step within member member rfl) fun state within done other otherMember => ?_
  by_cases same : target visit = target other
  · exact steps.read_step within otherMember member same
  · rw [steps.elsewhere state within.1 other otherMember _ same, done]

end LocalSteps

end Constellation.Lib
