/-
This file models the pool of numeric identifiers. An identifier of a pool is available, leased or
unavailable.
-/

import Constellation.Lib.GoMap

namespace Constellation.Linux

open Lib List AList

abbrev ID := UInt64

/-- The identifier that stands for none. -/
def noID : ID := 0

structure IDCache where
  ids : GoSet ID
  leased : GoSet ID
  not_leased : ∀ id ∈ ids, id ∉ leased

inductive Status
  | available
  | leased
  | unavailable
  deriving DecidableEq, Repr

namespace IDCache

def status (cache : IDCache) (id : ID) : Status :=
  if id ∈ cache.ids then .available else if id ∈ cache.leased then .leased else .unavailable

/-- As the loop that fills a pool runs through them. -/
def between (minID maxID : ID) : List ID :=
  (List.range' minID.toNat ((maxID + 1).toNat - minID.toNat)).map UInt64.ofNat

variable {id : ID}

theorem mem_between {minID maxID : ID} :
    id ∈ between minID maxID ↔ minID.toNat ≤ id.toNat ∧ id.toNat < (maxID + 1).toNat := by
  rw [between, mem_map]
  constructor
  · intro ⟨number, member, same⟩
    rw [mem_range'_1] at member
    have small : number < 2 ^ 64 := by
      have bound := (maxID + 1).toNat_lt
      omega
    subst same
    rw [UInt64.toNat_ofNat', Nat.mod_eq_of_lt small]
    omega
  · intro ⟨lower, upper⟩
    refine ⟨id.toNat, ?_, UInt64.ofNat_toNat⟩
    rw [mem_range'_1]
    omega

theorem between_nodup (minID maxID : ID) : (between minID maxID).Nodup := by
  refine (nodup_map_iff_inj_on nodup_range').mpr ?_
  intro first inFirst second inSecond same
  rw [mem_range'_1] at inFirst inSecond
  have bound := (maxID + 1).toNat_lt
  have numbers := congrArg UInt64.toNat same
  rw [UInt64.toNat_ofNat', UInt64.toNat_ofNat', Nat.mod_eq_of_lt (by omega),
    Nat.mod_eq_of_lt (by omega)] at numbers
  exact numbers

theorem keys_available (ids : List ID) :
    (ids.map fun id => (⟨id, ()⟩ : (_ : ID) × Unit)).keys = ids := by
  rw [List.keys, map_map]
  exact map_id' ids

def newIDCache (minID maxID : ID) : IDCache where
  ids := ⟨(between minID maxID).map fun id => ⟨id, ()⟩, by
    rw [List.NodupKeys, keys_available]
    exact between_nodup minID maxID⟩
  leased := ∅
  not_leased _ _ := notMem_empty _

/-- The first that the loop over the available ones visits. -/
def allocateID (cache : IDCache) (order : IterationOrder) (loop : Nat) : ID × IDCache :=
  match order.visit loop cache.ids.keys with
  | [] => (noID, cache)
  | id :: _ => (id, { cache with
      ids := cache.ids.erase id
      not_leased := fun other member => cache.not_leased other (mem_erase.mp member).2 })

/-- An allocation takes an available identifier, or there is none. -/
theorem allocateID_cases (cache : IDCache) (order : IterationOrder) (loop : Nat) :
    (cache.ids.keys = [] ∧ cache.allocateID order loop = (noID, cache)) ∨
      ((cache.allocateID order loop).1 ∈ cache.ids ∧ (cache.allocateID order loop).2.ids =
          cache.ids.erase (cache.allocateID order loop).1 ∧
        (cache.allocateID order loop).2.leased = cache.leased) := by
  unfold allocateID
  have visited := order.visit_perm loop cache.ids.keys
  cases visits : order.visit loop cache.ids.keys with
  | nil =>
    rw [visits] at visited
    exact .inl ⟨visited.nil_eq.symm, rfl⟩
  | cons id rest =>
    refine .inr ⟨(visited.mem_iff.mp ?_), rfl, rfl⟩
    rw [visits]
    exact .head _

variable {cache : IDCache} {other : ID}

theorem allocateID_not_mem {order : IterationOrder} {loop : Nat}
    (some : (cache.allocateID order loop).1 ≠ noID) :
    (cache.allocateID order loop).1 ∉ (cache.allocateID order loop).2.ids := by
  rcases cache.allocateID_cases order loop with ⟨_, none⟩ | ⟨_, taken, _⟩
  · exact absurd (congrArg Prod.fst none) some
  · rw [taken, mem_erase]
    exact fun present => present.1 rfl

section

variable (cache : IDCache)

def leaseAvailableID (order : IterationOrder) (loop : Nat) : ID × IDCache :=
  if none : (cache.allocateID order loop).1 = noID then (noID, (cache.allocateID order loop).2)
  else ((cache.allocateID order loop).1, { (cache.allocateID order loop).2 with
      leased := (cache.allocateID order loop).2.leased.insert (cache.allocateID order loop).1 ()
      not_leased := fun other member leased => by
        rcases (mem_insert _).mp leased with same | before
        · exact allocateID_not_mem none (same ▸ member)
        · exact (cache.allocateID order loop).2.not_leased other member before })

def insert (id : ID) : IDCache × Bool :=
  if id ∈ cache.ids then (cache, false)
  else if leased : id ∈ cache.leased then (cache, false)
  else ( { cache with
      ids := cache.ids.insert id ()
      not_leased := fun other member => by
        rcases (mem_insert _).mp member with same | before
        · exact same ▸ leased
        · exact cache.not_leased other before }, true)

def unlease (id : ID) : IDCache :=
  { cache with
    leased := cache.leased.erase id
    not_leased := fun other member leased =>
      cache.not_leased other member (mem_erase.mp leased).2 }

def release (id : ID) : IDCache × Bool :=
  if id ∈ cache.leased then (((cache.unlease id).insert id).1, true) else (cache, false)

def use (id : ID) : IDCache × Bool :=
  if id ∈ cache.leased then (cache.unlease id, true) else (cache, false)

def remove (id : ID) : IDCache × Bool :=
  ( { cache.unlease id with
      ids := cache.ids.erase id
      not_leased := fun other member =>
        (cache.unlease id).not_leased other (mem_erase.mp member).2 },
    decide (id ∈ cache.ids))

end

/-! ### The identifiers of a pool -/

theorem mem_ids_insert :
    other ∈ (cache.insert id).1.ids ↔ other ∈ cache.ids ∨ other = id ∧ id ∉ cache.leased := by
  unfold insert
  split
  case isTrue present =>
    refine ⟨.inl, ?_⟩
    rintro (before | ⟨rfl, _⟩)
    · exact before
    · exact present
  case isFalse absent =>
    split
    case isTrue leased =>
      refine ⟨.inl, ?_⟩
      rintro (before | ⟨_, free⟩)
      · exact before
      · exact absurd leased free
    case isFalse free =>
      rw [mem_insert, or_comm]
      exact or_congr_right (and_iff_left free).symm

theorem leased_insert (cache : IDCache) (id : ID) :
    (cache.insert id).1.leased = cache.leased := by
  unfold insert
  split
  · rfl
  · split <;> rfl

theorem mem_ids_remove : other ∈ (cache.remove id).1.ids ↔ other ≠ id ∧ other ∈ cache.ids :=
  mem_erase

end IDCache

/-- Used through its cache; its bounds are those the cache was filled with. -/
abbrev IDPool := IDCache

def newIDPool (minID maxID : ID) : IDPool := IDCache.newIDCache minID maxID

theorem mem_ids_newIDPool {minID maxID id : ID} :
    id ∈ (newIDPool minID maxID).ids ↔ minID.toNat ≤ id.toNat ∧ id.toNat < (maxID + 1).toNat := by
  rw [← IDCache.mem_between]
  exact iff_of_eq (congrArg (id ∈ ·) (IDCache.keys_available (IDCache.between minID maxID)))

end Constellation.Linux
