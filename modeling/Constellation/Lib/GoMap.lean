/-
This file fixes how the development reads the built-in map of the source language: Mathlib's
association list without duplicate keys. A loop over a map visits its keys in an open order, an
`IterationOrder`: one permutation for every list, about which nothing else is known.
-/

import Mathlib

namespace Constellation.Lib

open AList

abbrev GoMap (κ : Type) (α : Type) := AList fun _ : κ => α

/-- A map whose values carry nothing. -/
abbrev GoSet (κ : Type) := GoMap κ Unit

/-- A loop is told apart from another by a number, so that two loops over the same keys may visit
them differently. -/
structure IterationOrder where
  /-- The order in which the loop with the given number visits the given elements. -/
  visit : ∀ {α : Type}, Nat → List α → List α
  visit_perm : ∀ {α : Type} (loop : Nat) (elements : List α), (visit loop elements).Perm elements

namespace IterationOrder

def listed : IterationOrder where
  visit _ elements := elements
  visit_perm _ _ := .refl _

@[simp]
theorem mem_visit {α : Type} (order : IterationOrder) (loop : Nat) (elements : List α)
    (element : α) : element ∈ order.visit loop elements ↔ element ∈ elements :=
  (order.visit_perm loop elements).mem_iff

theorem visit_nodup {α : Type} (order : IterationOrder) (loop : Nat) {elements : List α}
    (distinct : elements.Nodup) : (order.visit loop elements).Nodup :=
  (order.visit_perm loop elements).nodup_iff.mpr distinct

end IterationOrder

namespace GoMap

variable {κ α : Type} [DecidableEq κ]

theorem lookup_insert_if (map : GoMap κ α) (key other : κ) (value : α) :
    (map.insert key value).lookup other = if other = key then some value else map.lookup other := by
  by_cases same : other = key
  · subst same
    rw [if_pos rfl, lookup_insert]
  · rw [if_neg same, lookup_insert_ne same]

theorem lookup_erase_if (map : GoMap κ α) (key other : κ) :
    (map.erase key).lookup other = if other = key then none else map.lookup other := by
  by_cases same : other = key
  · subst same
    rw [if_pos rfl, lookup_erase]
  · rw [if_neg same, lookup_erase_ne same]

variable {map : GoMap κ α} {key : κ}

theorem mem_of_lookup {value : α} (found : map.lookup key = some value) : key ∈ map :=
  lookup_isSome.mp (by rw [found]; rfl)

theorem lookup_of_mem (member : key ∈ map) :
    ∃ value, map.lookup key = some value :=
  Option.isSome_iff_exists.mp (lookup_isSome.mpr member)

theorem mem_iff_lookup :
    key ∈ map ↔ ∃ value, map.lookup key = some value :=
  ⟨lookup_of_mem, fun ⟨_, found⟩ => mem_of_lookup found⟩

theorem erase_of_notMem (missing : key ∉ map) : map.erase key = map :=
  AList.ext (List.kerase_of_notMem_keys missing)

theorem erase_erase_self (map : GoMap κ α) (key : κ) : (map.erase key).erase key = map.erase key :=
  erase_of_notMem fun member => (mem_erase.mp member).1 rfl

/-- Reading a map after a loop that removes some of the visited keys. -/
theorem lookup_foldl_erase (keep : κ → Prop) [DecidablePred keep] (visits : List κ)
    (map : GoMap κ α) (key : κ) :
    (visits.foldl (fun map visit => if keep visit then map else map.erase visit) map).lookup key =
      if key ∈ visits ∧ ¬keep key then none else map.lookup key := by
  induction visits generalizing map with
  | nil => simp
  | cons visit rest inductionHypothesis =>
    rw [List.foldl_cons, inductionHypothesis]
    by_cases same : key = visit
    · subst same
      by_cases kept : keep key
      · simp [kept]
      · simp [kept, lookup_erase]
    · have elsewhere : (if keep visit then map else map.erase visit).lookup key =
          map.lookup key := by
        split
        · rfl
        · exact lookup_erase_ne same
      rw [elsewhere]
      simp [same]

theorem mem_foldl_insert (visits : List κ) (set : GoSet κ) (key : κ) :
    key ∈ visits.foldl (fun set visit => set.insert visit ()) set ↔ key ∈ visits ∨ key ∈ set := by
  induction visits generalizing set with
  | nil => simp
  | cons visit rest inductionHypothesis =>
    rw [List.foldl_cons, inductionHypothesis, mem_insert, List.mem_cons]
    tauto

end GoMap

end Constellation.Lib
