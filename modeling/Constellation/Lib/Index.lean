/-
This file is a library of two-level indices: maps from a first component to the map, or the set,
of the second components that are paired with it, in which an inner map is created with its first
element and dropped with its last.
-/

import Constellation.Lib.GoMap

namespace Constellation.Lib.Index

variable {α β γ : Type} [DecidableEq α] [DecidableEq β] (index : GoMap α (GoMap β γ))

def Indexed (first : α) (second : β) : Prop :=
  ∃ members, index.lookup first = some members ∧ second ∈ members

instance (first : α) (second : β) : Decidable (Indexed index first second) := by
  delta Indexed
  infer_instance

/-- A first component that has none gets a new inner map. -/
def insert (first : α) (second : β) (value : γ) : GoMap α (GoMap β γ) :=
  index.insert first (((index.lookup first).getD ∅).insert second value)

/-- An inner map that becomes empty is removed. -/
def erase (first : α) (second : β) : GoMap α (GoMap β γ) :=
  match index.lookup first with
  | none => index
  | some members =>
    let remaining := members.erase second
    if remaining.keys = [] then index.erase first else index.insert first remaining

section

variable {index} {first other : α} {second member : β} {value : γ}

omit [DecidableEq β] in
theorem indexed_iff : Indexed index first second ↔ second ∈ (index.lookup first).getD ∅ := by
  unfold Indexed
  cases index.lookup first with
  | none | some members => simp

theorem getD_insert : ((insert index first second value).lookup other).getD ∅ =
    if other = first then ((index.lookup other).getD ∅).insert second value
    else (index.lookup other).getD ∅ := by
  rw [insert, GoMap.lookup_insert_if]
  split
  case isTrue same =>
    rw [same]
    rfl
  · rfl

theorem getD_erase : ((erase index first second).lookup other).getD ∅ =
    if other = first then ((index.lookup other).getD ∅).erase second
    else (index.lookup other).getD ∅ := by
  unfold erase
  cases found : index.lookup first with
  | none =>
    dsimp only
    split
    case isTrue same =>
      rw [same, found]
      exact (GoMap.erase_of_notMem (AList.notMem_empty second)).symm
    · rfl
  | some members =>
    dsimp only
    split
    case isTrue emptied =>
      have none : members.erase second = ∅ := AList.ext (List.map_eq_nil_iff.mp emptied)
      rw [GoMap.lookup_erase_if]
      split
      case isTrue same =>
        rw [same, found]
        exact none.symm
      · rfl
    · rw [GoMap.lookup_insert_if]
      split
      case isTrue same =>
        rw [same, found]
        rfl
      · rfl

variable {inner : GoMap β γ} {here : Prop} [Decidable here]

theorem mem_insert_if : member ∈ (if here then inner.insert second value else inner) ↔
    (here ∧ member = second) ∨ member ∈ inner := by
  split
  case isTrue isHere => rw [AList.mem_insert, and_iff_right isHere]
  case isFalse elsewhere => rw [or_iff_right fun both => elsewhere both.1]

theorem mem_erase_if : member ∈ (if here then inner.erase second else inner) ↔
    ¬(here ∧ member = second) ∧ member ∈ inner := by
  split
  case isTrue isHere => rw [AList.mem_erase, and_iff_right isHere]
  case isFalse elsewhere => rw [and_iff_right fun both => elsewhere both.1]

end

theorem indexed_insert (first other : α) (second member : β) (value : γ) :
    Indexed (insert index first second value) other member ↔
      (other = first ∧ member = second) ∨ Indexed index other member := by
  rw [indexed_iff, getD_insert, mem_insert_if, indexed_iff]

theorem indexed_erase (first other : α) (second member : β) :
    Indexed (erase index first second) other member ↔
      ¬(other = first ∧ member = second) ∧ Indexed index other member := by
  rw [indexed_iff, getD_erase, mem_erase_if, indexed_iff]

variable {index}

/-- A pair whose second component has no other first component is added to a map and to its inverse
index. -/
theorem inverse_insert {map : GoMap β α} {first : α} {second : β}
    (inverse : ∀ member other, Indexed index other member ↔ map.lookup member = some other)
    (fits : ∀ other, map.lookup second = some other → other = first) (value : γ) (member : β)
    (other : α) : Indexed (insert index first second value) other member ↔
      (map.insert second first).lookup member = some other := by
  rw [indexed_insert, inverse, GoMap.lookup_insert_if]
  by_cases same : member = second
  · rw [same, if_pos rfl, Option.some_inj]
    refine ⟨?_, fun equal => .inl ⟨equal.symm, rfl⟩⟩
    rintro (⟨equal, _⟩ | before)
    · exact equal.symm
    · exact (fits other before).symm
  · rw [if_neg same]
    exact ⟨fun either => either.resolve_left fun both => same both.2, .inr⟩

end Constellation.Lib.Index
