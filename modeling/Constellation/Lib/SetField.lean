/-
This file is a library of maps whose records hold a set. Read through such a field, a map is a
relation between its keys and the elements of the sets, `Enlists`. A record is changed in place,
`modify`, or through a pointer that has no referent when the key is missing, `adjust`. An index
that files every element under the key its owner function names is `Filed`.
-/

import Constellation.Lib.GoMap

namespace Constellation.Lib.GoMap

open AList

variable {κ α β : Type} [DecidableEq κ]

/-! ### Changing a record in place -/

section

variable (map : GoMap κ α)

def modify (key : κ) (change : α → α) : GoMap κ α :=
  match map.lookup key with
  | none => map
  | some record => map.insert key (change record)

/-- There is no result when the key is missing: the pointer is nil. -/
def adjust (key : κ) (change : α → α) : Option (GoMap κ α) :=
  if key ∈ map then some (map.modify key change) else none

/-- The record of the key an element had is changed, unless it is the key the element has anew. -/
def leave (old new : κ) (change : α → α) : Option (GoMap κ α) :=
  if old ≠ new then map.adjust old change else some map

def ensure (key : κ) (fresh : α) : GoMap κ α :=
  if key ∈ map then map else map.insert key fresh

theorem lookup_modify (key other : κ) (change : α → α) : (map.modify key change).lookup other =
      if other = key then (map.lookup key).map change else map.lookup other := by
  unfold modify
  cases found : map.lookup key with
  | none =>
    by_cases same : other = key
    · rw [if_pos same, same, found]
      rfl
    · rw [if_neg same]
  | some record => exact lookup_insert_if map key other (change record)

end

variable {map : GoMap κ α} {key : κ} {other : κ}

theorem mem_modify {change : α → α} : other ∈ map.modify key change ↔ other ∈ map := by
  rw [← lookup_isSome, ← lookup_isSome, lookup_modify]
  by_cases same : other = key
  · rw [if_pos same, same, Option.isSome_map]
  · rw [if_neg same]

theorem adjust_of_mem (member : key ∈ map) (change : α → α) :
    map.adjust key change = some (map.modify key change) :=
  if_pos member

def Each (p : α → Prop) (map : GoMap κ α) : Prop :=
  ∀ key record, map.lookup key = some record → p record

section Each

variable {p : α → Prop} (each : map.Each p)
include each

theorem Each.insert {record : α} (here : p record) : Each p (map.insert key record) := by
  intro other record found
  rw [lookup_insert_if] at found
  split at found
  · cases found
    exact here
  · exact each other record found

theorem Each.erase (key : κ) : Each p (map.erase key) := by
  intro other record found
  rw [lookup_erase_if] at found
  split at found
  · cases found
  · exact each other record found

theorem Each.modify {change : α → α}
    (kept : ∀ record, map.lookup key = some record → p record → p (change record)) :
    (map.modify key change).Each p := by
  unfold GoMap.modify
  split
  · exact each
  case h_2 record found => exact each.insert (kept record found (each key record found))

theorem Each.adjust {change : α → α} {next : GoMap κ α}
    (adjusted : map.adjust key change = some next)
    (kept : ∀ record, map.lookup key = some record → p record → p (change record)) :
    next.Each p := by
  unfold GoMap.adjust at adjusted
  split at adjusted
  · cases adjusted
    exact each.modify kept
  · cases adjusted

end Each

theorem mem_ensure {fresh : α} : other ∈ map.ensure key fresh ↔ other = key ∨ other ∈ map := by
  unfold ensure
  split
  case isTrue member =>
    refine ⟨.inr, ?_⟩
    rintro (rfl | present)
    · exact member
    · exact present
  · exact mem_insert map

/-! ### Reading a map through a field -/

variable [DecidableEq β] {field : α → GoSet β}

def Enlists (field : α → GoSet β) (map : GoMap κ α) (key : κ) (element : β) : Prop :=
  ∃ record, map.lookup key = some record ∧ element ∈ field record

instance (map : GoMap κ α) (key : κ) (element : β) : Decidable (Enlists field map key element) := by
  delta Enlists
  infer_instance

variable {element : β}

section

omit [DecidableEq β]

theorem Enlists.mem (lists : Enlists field map key element) : key ∈ map :=
  let ⟨_, found, _⟩ := lists
  mem_of_lookup found

theorem lists_insert (map : GoMap κ α) (key other : κ) (record : α) (element : β) :
    Enlists field (map.insert key record) other element ↔
      if other = key then element ∈ field record else Enlists field map other element := by
  unfold Enlists
  rw [lookup_insert_if]
  split <;> simp

/-- A new record that lists what was listed under its key changes nothing that is listed. -/
theorem lists_insert_of_iff {record : α}
    (same : ∀ element, element ∈ field record ↔ Enlists field map key element) (other : κ)
    (element : β) :
    Enlists field (map.insert key record) other element ↔ Enlists field map other element := by
  rw [lists_insert]
  split
  case isTrue here => rw [here, same]
  · rfl

theorem lists_erase (map : GoMap κ α) (key other : κ) (element : β) :
    Enlists field (map.erase key) other element ↔
      other ≠ key ∧ Enlists field map other element := by
  unfold Enlists
  rw [lookup_erase_if]
  split <;> simp [*]

/-- A new record whose set is empty lists nothing. -/
theorem lists_ensure (field : α → GoSet β) (map : GoMap κ α) (key : κ) {fresh : α}
    (bare : field fresh = ∅) (other : κ) (element : β) :
    Enlists field (map.ensure key fresh) other element ↔ Enlists field map other element := by
  unfold ensure
  split
  · rfl
  case isFalse missing =>
    refine lists_insert_of_iff (fun element => ?_) other element
    rw [bare]
    exact ⟨fun none => absurd none (notMem_empty element),
      fun lists => absurd lists.mem missing⟩

/-- A change that leaves the set of a record alone changes nothing that is listed. -/
theorem lists_modify_of_eq (change : α → α) (keeps : ∀ record, field (change record) = field record)
    (other : κ) (element : β) :
    Enlists field (map.modify key change) other element ↔ Enlists field map other element := by
  unfold modify
  cases found : map.lookup key with
  | none => rfl
  | some record => exact lists_insert_of_iff (by simp [Enlists, found, keeps]) other element

end

theorem lists_modify_erase (change : α → α)
    (shrinks : ∀ record, field (change record) = (field record).erase element) (other : κ)
    (member : β) :
    Enlists field (map.modify key change) other member ↔
      ¬ (other = key ∧ member = element) ∧ Enlists field map other member := by
  unfold modify
  cases found : map.lookup key with
  | none =>
    by_cases same : other = key
    · subst same
      simp [Enlists, found]
    · simp [same]
  | some record =>
    rw [lists_insert]
    split
    case isTrue same =>
      subst same
      simp [Enlists, found, shrinks, mem_erase]
    case isFalse other => simp [other]

theorem lists_modify_insert (present : key ∈ map) (change : α → α)
    (grows : ∀ record, field (change record) = (field record).insert element ()) (other : κ)
    (member : β) :
    Enlists field (map.modify key change) other member ↔
      (other = key ∧ member = element) ∨ Enlists field map other member := by
  obtain ⟨record, found⟩ := lookup_of_mem present
  unfold modify
  rw [found]
  refine (lists_insert map key other (change record) member).trans ?_
  split
  case isTrue same =>
    subst same
    simp [Enlists, found, grows, mem_insert]
  case isFalse other => simp [other]

end Constellation.Lib.GoMap

namespace Constellation.Lib

/-! ### Filing elements under their owners -/

variable {κ β : Type} {lists lists' : κ → β → Prop} {known known' : κ → Prop}
  {owner owner' : β → Option κ}

/-- An index files every element under the key that owns it, if that key is known, and under no
other key. -/
def Filed (lists : κ → β → Prop) (known : κ → Prop) (owner : β → Option κ) : Prop :=
  ∀ key element, lists key element ↔ known key ∧ owner element = some key

namespace Filed

/-- Filing is a matter of what the index lists, which keys are known and who owns what. -/
theorem congr (filed : Filed lists known owner)
    (sameLists : ∀ key element, lists' key element ↔ lists key element)
    (sameKnown : ∀ key, known' key ↔ known key)
    (sameOwner : ∀ element, owner' element = owner element) :
    Filed lists' known' owner' := by
  intro key element
  rw [sameLists, sameKnown, sameOwner]
  exact filed key element

variable {key other : κ} {element : β}

/-- A key that becomes known is not that of an element that it did not own. -/
theorem grown_iff {owned : Option κ} (grown : known' other ↔ other = key ∨ known other)
    (unowned : ¬ known key → owned ≠ some key) :
    known' other ∧ owned = some other ↔ known other ∧ owned = some other := by
  rw [grown]
  refine ⟨fun both => ⟨?_, both.2⟩, fun both => ⟨.inr both.1, both.2⟩⟩
  rcases both.1 with rfl | wasKnown
  · by_contra unknown
    exact unowned unknown both.2
  · exact wasKnown

section

variable (filed : Filed lists known owner)
include filed

/-- An element without an owner is not listed, so it is listed under its new key only. -/
theorem left_of_unowned (unowned : owner element = none) (other : κ) (member : β) :
    lists other member ↔ lists other member ∧ (member = element → other = key) := by
  refine (and_iff_left_of_imp ?_).symm
  rintro listed rfl
  rw [((filed other member).mp listed).2] at unowned
  cases unowned

/-- One element is taken from the key it had, unless that is its new key, and then listed under the
new one. A key that becomes known by it owns nothing else. -/
theorem refile [DecidableEq β] {cleared : κ → β → Prop}
    (left : ∀ other member, cleared other member ↔
      lists other member ∧ (member = element → other = key))
    (entered : ∀ other member, lists' other member ↔
      (other = key ∧ member = element) ∨ cleared other member)
    (grown : ∀ other, known' other ↔ other = key ∨ known other)
    (unowned : ¬ known key → ∀ member, member ≠ element → owner member ≠ some key)
    (owns : ∀ member, owner' member = if member = element then some key else owner member) :
    Filed lists' known' owner' := by
  intro other member
  rw [entered, left, owns]
  by_cases same : member = element
  · rw [if_pos same, grown, Option.some_inj]
    refine ⟨fun either => ?_, fun both => .inl ⟨both.2.symm, same⟩⟩
    have here : other = key := either.elim And.left fun both => both.2 same
    exact ⟨.inl here, here.symm⟩
  · rw [if_neg same, grown_iff (grown other) fun unknown => unowned unknown member same]
    simp [same, filed other member]

theorem dropOwned [DecidableEq β] (owned : owner element = some key)
    (left : ∀ other member, lists' other member ↔
      ¬ (other = key ∧ member = element) ∧ lists other member)
    (sameKnown : ∀ key, known' key ↔ known key)
    (owns : ∀ member, owner' member = if member = element then none else owner member) :
    Filed lists' known' owner' := by
  intro other member
  rw [left, filed other member, sameKnown, owns]
  by_cases same : member = element
  · rw [if_pos same, same, owned, Option.some_inj]
    refine iff_of_false ?_ nofun
    rintro ⟨notHere, -, here⟩
    exact notHere ⟨here.symm, rfl⟩
  · simp [same]

theorem learn (sameLists : ∀ other member, lists' other member ↔ lists other member)
    (grown : ∀ other, known' other ↔ other = key ∨ known other)
    (unowned : ¬ known key → ∀ member, owner member ≠ some key) : Filed lists' known' owner := by
  intro other member
  rw [sameLists, grown_iff (grown other) fun unknown => unowned unknown member]
  exact filed other member

theorem forget (left : ∀ other member, lists' other member ↔ other ≠ key ∧ lists other member)
    (shrunk : ∀ other, known' other ↔ other ≠ key ∧ known other) : Filed lists' known' owner := by
  intro other member
  rw [left, shrunk, filed other member, and_assoc]

end

end Filed

namespace GoMap

variable {α : Type} [DecidableEq κ] [DecidableEq β] {field : α → GoSet β} {map : GoMap κ α}

/-- An element that is filed leaves the key it had, which is there, unless that is its new key. -/
theorem leave_of_filed (filed : Filed (Enlists field map) known owner) {old new : κ} {element : β}
    (owned : owner element = some old) (there : old ≠ new → known old) (change : α → α)
    (shrinks : ∀ record, field (change record) = (field record).erase element) :
    ∃ cleared, map.leave old new change = some cleared ∧
      cleared = (if old ≠ new then map.modify old change else map) ∧
      ∀ other member, Enlists field cleared other member ↔
        Enlists field map other member ∧ (member = element → other = new) := by
  unfold leave
  by_cases same : old = new
  · subst same
    refine ⟨map, by simp, by simp, fun other member => ⟨fun listed => ⟨listed, ?_⟩, And.left⟩⟩
    rintro rfl
    have here := ((filed other member).mp listed).2
    rw [owned] at here
    exact (Option.some.inj here).symm
  · have before := (filed old element).mpr ⟨there same, owned⟩
    rw [if_pos same, adjust_of_mem before.mem]
    refine ⟨_, rfl, (if_pos same).symm, fun other member => ?_⟩
    rw [lists_modify_erase change shrinks]
    refine ⟨fun ⟨notHere, listed⟩ => ⟨listed, ?_⟩, fun ⟨listed, stays⟩ => ⟨?_, listed⟩⟩
    · rintro rfl
      have here := ((filed other member).mp listed).2
      rw [owned] at here
      exact absurd ⟨(Option.some.inj here).symm, rfl⟩ notHere
    · rintro ⟨rfl, rfl⟩
      exact same (stays rfl)

end GoMap

end Constellation.Lib
