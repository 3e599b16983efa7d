/-
This file compares the pool of identifiers with the table of states in its documentation. A pool
follows the table, unless the identifier that stands for none is inserted. `Insert` does not look
at the bounds of the pool.
-/

import Constellation.Lib.Run
import Constellation.Linux.IDPool

namespace Constellation.Linux

open Lib AList

inductive PoolCall
  | leaseAvailableID
  | allocateID
  | release (id : ID)
  | use (id : ID)
  | insert (id : ID)
  | remove (id : ID)
  deriving DecidableEq

def PoolCall.returns : PoolCall → Bool
  | leaseAvailableID | allocateID => true
  | _ => false

/-- `AllocateID`, which the table does not have, leases an identifier and uses it at once. -/
def Status.after : Status → PoolCall → Status
  | available, .leaseAvailableID => leased
  | available, .allocateID | available, .remove _ => unavailable
  | leased, .release _ => available
  | leased, .use _ | leased, .remove _ => unavailable
  | unavailable, .insert _ => available
  | status, _ => status

namespace IDCache

/-- The identifier that a call returns or is given, and the pool after it. -/
def handle (pool : IDPool) (order : IterationOrder) : PoolCall → ID × IDPool
  | .leaseAvailableID => pool.leaseAvailableID order 0
  | .allocateID => pool.allocateID order 0
  | .release id => (id, (pool.release id).1)
  | .use id => (id, (pool.use id).1)
  | .insert id => (id, (pool.insert id).1)
  | .remove id => (id, (pool.remove id).1)

variable (pool : IDPool) (call : PoolCall) (outcome : ID × IDPool) (known : ID → Prop)

/-- A call moves its identifier as the table says and no other one. -/
def Moves : Prop :=
  ∀ id, outcome.2.status id =
    if id = outcome.1 then (pool.status id).after call else pool.status id

/-- A call returns an identifier only if that is available and one of those that are known, and none
exactly if none is available. -/
structure Follows : Prop where
  moves : pool.Moves call outcome
  returned : call.returns = true → outcome.1 ≠ noID →
    pool.status outcome.1 = .available ∧ known outcome.1
  none_iff : call.returns = true → (outcome.1 = noID ↔ ∀ id, pool.status id ≠ .available)

/-- Identifiers that are not known are unavailable. -/
def Bounded : Prop := ∀ id, pool.status id ≠ .unavailable → known id

def Takes : Prop :=
  (pool.ids.keys = [] ∧ outcome = (noID, pool)) ∨
    (outcome.1 ∈ pool.ids ∧ outcome.2.ids = pool.ids.erase outcome.1 ∧ ∀ id, id ∈ outcome.2.leased ↔
        id ∈ pool.leased ∨ call = .leaseAvailableID ∧ id = outcome.1)

variable {pool call outcome known} (order : IterationOrder) {id : ID}

theorem status_eq_available_iff : pool.status id = .available ↔ id ∈ pool.ids := by
  unfold status
  split
  case isTrue present => exact iff_of_true rfl present
  case isFalse absent =>
    refine iff_of_false ?_ absent
    split <;> nofun

theorem takes_handle (unlisted : noID ∉ pool.ids) (returns : call.returns = true) :
    pool.Takes call (pool.handle order call) := by
  unfold Takes
  cases call with
  | release | use | insert | remove => cases returns
  | allocateID =>
    refine (pool.allocateID_cases order 0).imp_right fun ⟨member, ids, leased⟩ => ⟨member, ids, ?_⟩
    simp [handle, leased]
  | leaseAvailableID =>
    simp only [handle, leaseAvailableID]
    rcases pool.allocateID_cases order 0 with ⟨empty, none⟩ | ⟨member, ids, leased⟩
    · rw [dif_pos (congrArg Prod.fst none), none]
      exact .inl ⟨empty, rfl⟩
    · have some : (pool.allocateID order 0).1 ≠ noID := fun same => unlisted (same ▸ member)
      rw [dif_neg some]
      refine .inr ⟨member, ids, fun id => ?_⟩
      simp [leased, mem_insert, or_comm]

theorem moves_handle (unlisted : noID ∉ pool.ids) : pool.Moves call (pool.handle order call) := by
  intro other
  have apart := pool.not_leased other
  by_cases returns : call.returns = true
  · rcases takes_handle order unlisted returns with ⟨empty, none⟩ | ⟨member, ids, leased⟩
    · have absent : other ∉ pool.ids := by simp [mem_keys, empty]
      by_cases held : other ∈ pool.leased <;> cases call <;>
        simp_all [PoolCall.returns, status, Status.after]
    · by_cases same : other = (pool.handle order call).1 <;> cases call <;>
        simp_all [PoolCall.returns, status, Status.after]
  · cases call with
    | leaseAvailableID | allocateID => exact absurd rfl returns
    | release id | use id | insert id | remove id =>
      by_cases same : other = id
      · subst same
        by_cases free : other ∈ pool.ids <;> by_cases leased : other ∈ pool.leased <;>
          simp_all [handle, status, Status.after, release, use, insert, remove, unlease]
      · by_cases leased : id ∈ pool.leased <;>
          simp_all [handle, status, release, use, remove, unlease, mem_ids_insert, leased_insert]

section

variable (bounded : pool.Bounded known) (unknown : ¬known noID)

include bounded

theorem Bounded.of_mem (member : id ∈ pool.ids) : known id :=
  bounded id (by rw [status_eq_available_iff.mpr member]; nofun)

include unknown

/-- Only an insertion makes an unavailable identifier anything else. -/
theorem Bounded.handle (inserted : ∀ id, call = .insert id → known id) :
    (pool.handle order call).2.Bounded known := by
  intro id available
  by_cases before : pool.status id = .unavailable
  · rw [moves_handle order fun present => unknown (bounded.of_mem present), before] at available
    split at available
    case isTrue same =>
      cases call with
      | insert other => exact same ▸ inserted other rfl
      | _ => exact absurd rfl available
    · exact absurd rfl available
  · exact bounded id before

theorem Bounded.follows : pool.Follows call (pool.handle order call) known := by
  have unlisted : noID ∉ pool.ids := fun present => unknown (bounded.of_mem present)
  refine ⟨moves_handle order unlisted, fun returns some => ?_, fun returns => ?_⟩
  · rcases takes_handle order unlisted returns with ⟨_, none⟩ | ⟨member, _⟩
    · exact absurd (congrArg Prod.fst none) some
    · exact ⟨status_eq_available_iff.mpr member, bounded.of_mem member⟩
  · rcases takes_handle order unlisted returns with ⟨empty, none⟩ | ⟨member, _⟩
    · refine iff_of_true (congrArg Prod.fst none) fun id => ?_
      simp [status_eq_available_iff, mem_keys, empty]
    · refine iff_of_false (fun none => unlisted (none ▸ member)) fun free => ?_
      exact free _ (status_eq_available_iff.mpr member)

end

theorem bounded_newIDPool {minID maxID : ID} (small : maxID < 0xffffffffffffffff) :
    Bounded (newIDPool minID maxID) fun id => minID ≤ id ∧ id ≤ maxID := by
  intro id available
  have present : id ∈ (newIDPool minID maxID).ids := by
    by_contra absent
    exact available ((if_neg absent).trans (if_neg (notMem_empty id)))
  have above : (maxID + 1).toNat = maxID.toNat + 1 := by
    rw [UInt64.toNat_add]
    exact Nat.mod_eq_of_lt (Nat.succ_lt_succ small)
  rw [mem_ids_newIDPool, above] at present
  exact ⟨present.1, Nat.le_of_lt_succ present.2⟩

end IDCache

/-- With the order in which the call visits the identifiers. -/
def IDPool.step (pool : IDPool) (action : PoolCall × IterationOrder) : IDPool :=
  (pool.handle action.2 action.1).2

def IDPool.after (minID maxID : ID) (actions : List (PoolCall × IterationOrder)) : IDPool :=
  run step (newIDPool minID maxID) actions

/-- An identifier between the bounds, or one that a run inserts. -/
def IDPool.Known (minID maxID : ID) (actions : List (PoolCall × IterationOrder)) (id : ID) : Prop :=
  minID ≤ id ∧ id ≤ maxID ∨ .insert id ∈ actions.map Prod.fst

/-- In a run that does not insert the identifier that stands for none, every call follows the table
and returns identifiers only that are between the bounds or were inserted. -/
theorem IDPool.after_follows {minID maxID : ID} (positive : 1 ≤ minID)
    (small : maxID < 0xffffffffffffffff) {actions : List (PoolCall × IterationOrder)}
    (nonzero : .insert noID ∉ actions.map Prod.fst) (order : IterationOrder) (call : PoolCall) :
    (IDPool.after minID maxID actions).Follows call
      ((IDPool.after minID maxID actions).handle order call) (Known minID maxID actions) := by
  have unknown : ¬Known minID maxID actions noID := by
    rintro (inside | inserted)
    · exact absurd (UInt64.le_trans positive inside.1) (by decide)
    · exact nonzero inserted
  refine IDCache.Bounded.follows order ?_ unknown
  refine List.foldlRecOn (motive := (IDCache.Bounded · (Known minID maxID actions))) actions step
    (fun id available => .inl (IDCache.bounded_newIDPool small id available)) ?_
  intro pool bounded action member
  refine bounded.handle action.2 unknown fun id inserts => .inr ?_
  exact inserts ▸ List.mem_map_of_mem member

def insertedAbove : List (PoolCall × IterationOrder) :=
  [(.leaseAvailableID, .listed), (.use 1, .listed), (.insert 5, .listed)]

theorem insertedAbove_follows :
    let pool := IDPool.after 1 1 insertedAbove
    (pool.handle .listed .allocateID).1 = 5 ∧
      pool.Follows .allocateID (pool.handle .listed .allocateID)
        (IDPool.Known 1 1 insertedAbove) :=
  ⟨by decide, IDPool.after_follows (by decide) (by decide) (by decide) .listed .allocateID⟩

/-- It is returned when the others are gone. -/
theorem insertedAbove_not_follows :
    let pool := IDPool.after 1 1 insertedAbove
    ¬pool.Follows .allocateID (pool.handle .listed .allocateID) fun id => 1 ≤ id ∧ id ≤ 1 :=
  fun follows => absurd (follows.returned rfl (by decide)).2.2 (by decide)

end Constellation.Linux
