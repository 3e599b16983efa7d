/-
This file is a library of loops whose rounds may have no result. What every round keeps is kept by
the loop; and what a round settles about the element it visits, and later rounds leave settled,
the loop settles about every element.
-/

import Mathlib

namespace Constellation.Lib

open List

variable {σ α : Type*} {step : σ → α → Option σ} {state last : σ} {element : α}

theorem foldlM_cons_eq_some {rest : List α} :
    (element :: rest).foldlM step state = some last ↔
      ∃ next, step state element = some next ∧ rest.foldlM step next = some last :=
  Option.bind_eq_some_iff

theorem ok_of_bind.{u} {ε α β : Type u} {first : Except ε α} {next : α → Except ε β} {result : β}
    (done : first >>= next = .ok result) :
    ∃ value, first = .ok value ∧ next value = .ok result := by
  cases first with
  | error error => cases done
  | ok value => exact ⟨value, rfl, done⟩

variable {elements : List α}

/-- The rule for loops that settle something about each element they visit. -/
theorem foldlM_each (keeps : σ → Prop) (settled : α → σ → Prop)
    (round : ∀ state, ∀ element ∈ elements, ∀ next, keeps state → step state element = some next →
      keeps next ∧ settled element next ∧ ∀ other, settled other state → settled other next)
    (result : elements.foldlM step state = some last) (start : keeps state) :
    keeps last ∧ (∀ element ∈ elements, settled element last) ∧
      ∀ other, settled other state → settled other last := by
  induction elements generalizing state with
  | nil =>
    cases result
    exact ⟨start, forall_mem_nil _, fun _ done => done⟩
  | cons element rest inductionHypothesis =>
    obtain ⟨next, first, remaining⟩ := foldlM_cons_eq_some.mp result
    obtain ⟨kept, now, still⟩ := round state element (.head _) next start first
    obtain ⟨keptLast, each, stillLast⟩ := inductionHypothesis
      (fun state other member => round state other (.tail _ member)) remaining kept
    exact ⟨keptLast, forall_mem_cons.mpr ⟨stillLast element now, each⟩,
      fun other done => stillLast other (still other done)⟩

/-- The rule of invariants for loops whose rounds may have no result. -/
theorem foldlM_invariant (keeps : σ → Prop)
    (round : ∀ state, ∀ element ∈ elements, ∀ next, keeps state → step state element = some next →
      keeps next) (result : elements.foldlM step state = some last) (start : keeps state) :
    keeps last :=
  (foldlM_each keeps (fun _ _ => True) (fun state element member next kept taken =>
      ⟨round state element member next kept taken, trivial, fun _ _ => trivial⟩)
    result start).1

section Descending

variable {μ : Type*} [Preorder μ] (measure : σ → μ) (keeps : σ → Prop) (settled : α → σ → Prop)
  (stays : ∀ element {state next}, measure next ≤ measure state → settled element state →
    settled element next)
include stays

/-- The rule for loops that make something smaller, which leaves settled what is settled. -/
theorem foldlM_descends (round : ∀ current, ∀ element ∈ elements, ∀ next, keeps current →
      measure current ≤ measure state → step current element = some next →
        keeps next ∧ settled element next ∧ measure next ≤ measure current)
    (result : elements.foldlM step state = some last) (start : keeps state) :
    keeps last ∧ (∀ element ∈ elements, settled element last) ∧ measure last ≤ measure state := by
  obtain ⟨⟨kept, smaller⟩, each, _⟩ := foldlM_each
    (fun current => keeps current ∧ measure current ≤ measure state) settled
    (fun current element member next ⟨kept, smaller⟩ taken => by
      obtain ⟨keptNext, now, less⟩ := round current element member next kept smaller taken
      exact ⟨⟨keptNext, less.trans smaller⟩, now, fun other => stays other less⟩)
    result ⟨start, le_rfl⟩
  exact ⟨kept, each, smaller⟩

/-- The rule for such loops over distinct elements: what is known of the elements that are still to
come has to be kept for all but the one that is visited. -/
theorem foldlM_pending (pending : α → σ → Prop) (distinct : elements.Nodup)
    (round : ∀ state, ∀ element ∈ elements, ∀ next, keeps state → pending element state →
      step state element = some next →
      keeps next ∧ settled element next ∧ measure next ≤ measure state ∧
        ∀ other, other ≠ element → pending other state → pending other next)
    (result : elements.foldlM step state = some last) (start : keeps state)
    (known : ∀ element ∈ elements, pending element state) :
    keeps last ∧ (∀ element ∈ elements, settled element last) ∧ measure last ≤ measure state := by
  induction elements generalizing state with
  | nil =>
    cases result
    exact ⟨start, forall_mem_nil _, le_rfl⟩
  | cons element rest inductionHypothesis =>
    obtain ⟨next, first, remaining⟩ := foldlM_cons_eq_some.mp result
    obtain ⟨fresh, distinctRest⟩ := nodup_cons.mp distinct
    obtain ⟨kept, now, less, stillPending⟩ := round state element (.head _) next start
      (known element (.head _)) first
    have knownRest : ∀ other ∈ rest, pending other next := by
      intro other member
      refine stillPending other ?_ (known other (.tail _ member))
      rintro rfl
      exact fresh member
    obtain ⟨keptLast, each, smaller⟩ := inductionHypothesis distinctRest
      (fun state other member => round state other (.tail _ member)) remaining kept
      knownRest
    exact ⟨keptLast, forall_mem_cons.mpr ⟨stays element smaller now, each⟩, smaller.trans less⟩

end Descending

/-- The rule for loops that cannot fail: what the round of one element settles, and every round
leaves settled, is settled by the loop. -/
theorem foldl_settles {round : σ → α → σ} (settled : σ → Prop)
    (settles : ∀ state, settled (round state element))
    (still : ∀ state other, settled state → settled (round state other))
    (member : element ∈ elements) (state : σ) : settled (elements.foldl round state) := by
  induction elements generalizing state with
  | nil => cases member
  | cons first rest inductionHypothesis =>
    rcases mem_cons.mp member with rfl | later
    · exact List.foldlRecOn rest round (settles state) fun state done other _ =>
        still state other done
    · exact inductionHypothesis later (round state first)

end Constellation.Lib
