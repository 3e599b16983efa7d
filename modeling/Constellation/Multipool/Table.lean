/-
This file models the tables in which the multi-pool allocator keeps what the nodes hold: from node
to pool to CIDRs, with a map for each family, which may be nil. Every operation on a table is
described by what it makes of the CIDRs held.
-/

import Constellation.Lib.GoMap
import Constellation.Ipam.Range

namespace Constellation.Multipool

open Ipam (CIDR Family)
open Lib List Option AList IterationOrder

/-! ### Values for each family -/

@[ext]
structure Dual (α : Type) where
  v4 : α
  v6 : α
  deriving DecidableEq, Repr

namespace Dual

variable {α : Type} (dual : Dual α)

def of : Family → α
  | .ipv4 => dual.v4
  | .ipv6 => dual.v6

def set (family : Family) (value : α) : Dual α :=
  match family with
  | .ipv4 => { dual with v4 := value }
  | .ipv6 => { dual with v6 := value }

theorem of_set (family other : Family) (value : α) :
    (dual.set family value).of other = if other = family then value else dual.of other := by
  cases family <;> cases other <;> rfl

@[simp]
theorem of_set_self (family : Family) (value : α) : (dual.set family value).of family = value := by
  rw [of_set, if_pos rfl]

end Dual

/-! ### Tables of CIDRs -/

/-- A nil map is `none`. -/
structure CidrSets where
  cidrs : Dual (Option (GoSet CIDR))
  allowFirstIP : Bool
  allowLastIP : Bool

namespace CidrSets

def keys (sets : CidrSets) (family : Family) : List CIDR :=
  match sets.cidrs.of family with
  | none => []
  | some cidrs => cidrs.keys

def delete (sets : CidrSets) (family : Family) (cidr : CIDR) : CidrSets :=
  { sets with cidrs := sets.cidrs.set family ((sets.cidrs.of family).map (·.erase cidr)) }

def zero : CidrSets := ⟨⟨none, none⟩, false, false⟩

/-- Two loops visit the CIDRs of IPv4 and then those of IPv6. -/
def visits (order : IterationOrder) (sets : CidrSets) : List (Family × CIDR) :=
  (order.visit 2 (sets.keys .ipv4)).map (Prod.mk .ipv4) ++
    (order.visit 3 (sets.keys .ipv6)).map (Prod.mk .ipv6)

end CidrSets

abbrev PoolToCIDRs := GoMap String CidrSets

abbrev Table := GoMap String PoolToCIDRs

namespace Table

variable (table : Table) (node pool : String)

def sets : CidrSets :=
  (((table.lookup node).getD ∅).lookup pool).getD CidrSets.zero

def has (cidr : CIDR) : Bool :=
  decide (cidr ∈ (table.sets node pool).keys cidr.addr.family)

/-- There is no result if the map to write to is nil. -/
def mark (cidr : CIDR) (allowFirstIP allowLastIP : Bool) : Option Table :=
  let pools := (table.lookup node).getD ∅
  let sets := (pools.lookup pool).getD ⟨⟨some ∅, some ∅⟩, allowFirstIP, allowLastIP⟩
  (sets.cidrs.of cidr.addr.family).map fun cidrs =>
    table.insert node (pools.insert pool
      { sets with cidrs := sets.cidrs.set cidr.addr.family (some (cidrs.insert cidr ())) })

def delete (family : Family) (cidr : CIDR) : Table :=
  match table.lookup node with
  | none => table
  | some pools =>
    match pools.lookup pool with
    | none => table
    | some sets => table.insert node (pools.insert pool (sets.delete family cidr))

def deletePool : Table :=
  match table.lookup node with
  | none => table
  | some pools => table.insert node (pools.erase pool)

/-- `cleanupOrphans` of the source. -/
def cleanup : Table :=
  match table.lookup node with
  | none => table
  | some pools =>
    let sets := (pools.lookup pool).getD CidrSets.zero
    if sets.keys .ipv4 = [] ∧ sets.keys .ipv6 = [] then
      let pools := pools.erase pool
      if pools.keys = [] then table.erase node else table.insert node pools
    else if sets.keys .ipv4 = [] then
      table.insert node (pools.insert pool { sets with cidrs := sets.cidrs.set .ipv4 none })
    else if sets.keys .ipv6 = [] then
      table.insert node (pools.insert pool { sets with cidrs := sets.cidrs.set .ipv6 none })
    else table

def visitPools (order : IterationOrder) (table : Table) (node : String) : List String :=
  order.visit 1 ((table.lookup node).getD ∅).keys

def visitNodes (order : IterationOrder) (table : Table) : List String :=
  order.visit 0 table.keys

end Table

/-! ### The CIDRs of a table -/

namespace CidrSets

variable {sets : CidrSets} {family other : Family} {cidr candidate : CIDR}

theorem mem_keys_zero : cidr ∉ zero.keys family := by
  cases family <;> exact not_mem_nil

theorem mem_keys_delete :
    candidate ∈ (sets.delete family cidr).keys other ↔
      ¬(other = family ∧ candidate = cidr) ∧ candidate ∈ sets.keys other := by
  unfold keys delete
  rw [Dual.of_set]
  by_cases same : other = family
  · subst same
    cases sets.cidrs.of other with
    | none => simp
    | some cidrs =>
      simp only [true_and]
      exact mem_erase
  · simp [same]

theorem mem_keys_insert {cidrs : GoSet CIDR} (found : sets.cidrs.of family = some cidrs) :
    candidate ∈ ({ sets with
        cidrs := sets.cidrs.set family (some (cidrs.insert cidr ())) } : CidrSets).keys other ↔
      (other = family ∧ candidate = cidr) ∨ candidate ∈ sets.keys other := by
  unfold keys
  rw [Dual.of_set]
  by_cases same : other = family
  · subst same
    rw [if_pos rfl, found]
    simp only [true_and]
    exact mem_insert _
  · simp [same]

/-- A nil map has no more CIDRs than an empty one. -/
theorem mem_keys_set_none (empty : sets.keys family = []) :
    candidate ∈ ({ sets with cidrs := sets.cidrs.set family none } : CidrSets).keys other ↔
      candidate ∈ sets.keys other := by
  by_cases same : other = family
  · subst same
    rw [empty]
    unfold keys
    rw [Dual.of_set, if_pos rfl]
  · unfold keys
    rw [Dual.of_set, if_neg same]

theorem mem_visits {order : IterationOrder} :
    (family, cidr) ∈ sets.visits order ↔ cidr ∈ sets.keys family := by
  unfold visits
  cases family <;> simp

theorem keys_nodup (sets : CidrSets) (family : Family) : (sets.keys family).Nodup := by
  unfold keys
  split
  · exact nodup_nil
  case h_2 cidrs _ => exact cidrs.keys_nodup

theorem visits_nodup (order : IterationOrder) (sets : CidrSets) : (sets.visits order).Nodup := by
  refine List.Nodup.append ?_ ?_ ?_
  · exact (order.visit_nodup 2 (sets.keys_nodup .ipv4)).map (Prod.mk_right_injective _)
  · exact (order.visit_nodup 3 (sets.keys_nodup .ipv6)).map (Prod.mk_right_injective _)
  · intro visit inFirst inSecond
    obtain ⟨_, _, rfl⟩ := mem_map.mp inFirst
    obtain ⟨_, _, same⟩ := mem_map.mp inSecond
    cases (Prod.mk.inj same).1

end CidrSets

namespace Table

/-- A node has a CIDR in the map of a family of a pool. -/
def Holds (table : Table) (node pool : String) (family : Family) (cidr : CIDR) : Prop :=
  cidr ∈ (table.sets node pool).keys family

variable {table later : Table} {node otherNode pool otherPool : String}
  {family otherFamily : Family} {cidr other : CIDR} {order : IterationOrder}

/-- Writing the pools of a node with a change of one pool changes that pool on that node. -/
theorem holds_change {pools changed : PoolToCIDRs} {value : Option CidrSets}
    (isPools : (table.lookup node).getD ∅ = pools) (changes : ∀ other, changed.lookup other =
      if other = pool then value else pools.lookup other) :
    Holds (table.insert node changed) otherNode otherPool otherFamily other ↔
      if otherNode = node ∧ otherPool = pool then
        other ∈ (value.getD CidrSets.zero).keys otherFamily
      else table.Holds otherNode otherPool otherFamily other := by
  subst isPools
  unfold Holds sets
  rw [GoMap.lookup_insert_if]
  by_cases sameNode : otherNode = node
  · subst sameNode
    rw [if_pos rfl, getD_some, changes]
    by_cases samePool : otherPool = pool
    · rw [if_pos samePool, if_pos ⟨rfl, samePool⟩]
    · rw [if_neg samePool, if_neg fun both => samePool both.2]
  · rw [if_neg sameNode, if_neg fun both => sameNode both.1]

theorem sets_of_lookup {pools : PoolToCIDRs} (found : table.lookup node = some pools) :
    table.sets node pool = (pools.lookup pool).getD CidrSets.zero := by
  unfold sets
  rw [found]
  rfl

theorem not_holds_of_lookup (missing : table.lookup node = none) :
    ¬table.Holds node pool family cidr := by
  unfold Holds sets
  rw [missing]
  exact CidrSets.mem_keys_zero

/-- A given CIDR is the only one that a table has more. -/
def Gains (table later : Table) (node pool : String) (cidr : CIDR) : Prop :=
  ∀ {otherNode otherPool otherFamily other}, later.Holds otherNode otherPool otherFamily other ↔
    (otherNode = node ∧ otherPool = pool ∧ otherFamily = cidr.addr.family ∧ other = cidr) ∨
      table.Holds otherNode otherPool otherFamily other

theorem gains_of_mark {allowFirstIP allowLastIP : Bool}
    (marked : table.mark node pool cidr allowFirstIP allowLastIP = some later) :
    table.Gains later node pool cidr := by
  intro otherNode otherPool otherFamily other
  obtain ⟨cidrs, found, rfl⟩ := map_eq_some_iff.mp marked
  rw [holds_change rfl fun _ => GoMap.lookup_insert_if _ _ _ _]
  split
  case isTrue both =>
    obtain ⟨rfl, rfl⟩ := both
    rw [getD_some, CidrSets.mem_keys_insert found]
    simp only [true_and]
    refine or_congr_right ?_
    unfold Holds sets
    cases ((table.lookup otherNode).getD ∅).lookup otherPool with
    | none =>
      refine iff_of_false ?_ CidrSets.mem_keys_zero
      cases otherFamily <;> exact not_mem_nil
    | some _ => rfl
  case isFalse away => exact (or_iff_right fun all => away ⟨all.1, all.2.1⟩).symm

theorem holds_delete :
    (table.delete node pool family cidr).Holds otherNode otherPool otherFamily other ↔
      ¬(otherNode = node ∧ otherPool = pool ∧ otherFamily = family ∧ other = cidr) ∧
        table.Holds otherNode otherPool otherFamily other := by
  unfold delete
  cases found : table.lookup node with
  | none =>
    refine (and_iff_right_of_imp ?_).symm
    rintro holds ⟨rfl, _⟩
    exact not_holds_of_lookup found holds
  | some pools =>
    dsimp only
    cases foundPool : pools.lookup pool with
    | none =>
      refine (and_iff_right_of_imp ?_).symm
      rintro holds ⟨rfl, rfl, _⟩
      rw [Holds, sets_of_lookup found, foundPool] at holds
      exact CidrSets.mem_keys_zero holds
    | some sets =>
      refine (holds_change (congrArg (getD · ∅) found) fun _ =>
        GoMap.lookup_insert_if _ _ _ _).trans ?_
      split
      case isTrue both =>
        obtain ⟨rfl, rfl⟩ := both
        rw [getD_some, CidrSets.mem_keys_delete, Holds, sets_of_lookup found, foundPool, getD_some]
        simp only [true_and]
      case isFalse away => exact (and_iff_right fun all => away ⟨all.1, all.2.1⟩).symm

theorem holds_deletePool :
    (table.deletePool node pool).Holds otherNode otherPool otherFamily other ↔
      ¬(otherNode = node ∧ otherPool = pool) ∧
        table.Holds otherNode otherPool otherFamily other := by
  unfold deletePool
  cases found : table.lookup node with
  | none =>
    refine (and_iff_right_of_imp ?_).symm
    rintro holds ⟨rfl, _⟩
    exact not_holds_of_lookup found holds
  | some pools =>
    refine (holds_change (congrArg (getD · ∅) found) fun _ =>
      GoMap.lookup_erase_if _ _ _).trans ?_
    split
    case isTrue both => exact iff_of_false CidrSets.mem_keys_zero fun held => held.1 both
    case isFalse away => exact (and_iff_right away).symm

theorem holds_erase :
    Holds (table.erase node) otherNode otherPool otherFamily other ↔
      otherNode ≠ node ∧ table.Holds otherNode otherPool otherFamily other := by
  by_cases same : otherNode = node
  · subst same
    refine iff_of_false (not_holds_of_lookup ?_) fun ⟨differ, _⟩ => differ rfl
    rw [lookup_erase]
  · unfold Holds sets
    simp [same]

/-- Writing the CIDRs of one pool anew changes nothing if they are the same. -/
theorem holds_insert_of_same {pools changed : PoolToCIDRs} {value : Option CidrSets}
    (found : table.lookup node = some pools) (changes : ∀ other, changed.lookup other =
      if other = pool then value else pools.lookup other)
    (same : ∀ family cidr, cidr ∈ (value.getD CidrSets.zero).keys family ↔
      cidr ∈ ((pools.lookup pool).getD CidrSets.zero).keys family) :
    Holds (table.insert node changed) otherNode otherPool otherFamily other ↔
      table.Holds otherNode otherPool otherFamily other := by
  rw [holds_change (congrArg (getD · ∅) found) changes]
  split
  case isTrue both => rw [same, both.1, both.2, Holds, sets_of_lookup found]
  · rfl

theorem holds_cleanup :
    (table.cleanup node pool).Holds otherNode otherPool otherFamily other ↔
      table.Holds otherNode otherPool otherFamily other := by
  unfold cleanup
  cases found : table.lookup node with
  | none => rfl
  | some pools =>
    dsimp only
    split
    case isTrue empty =>
      have erased : ∀ otherNode otherPool otherFamily other,
          Holds (table.insert node (pools.erase pool)) otherNode otherPool otherFamily other ↔
            table.Holds otherNode otherPool otherFamily other := by
        intro _ _ _ _
        refine holds_insert_of_same found (fun _ => GoMap.lookup_erase_if _ _ _) ?_
        intro family cidr
        refine iff_of_false CidrSets.mem_keys_zero ?_
        cases family
        · rw [empty.1]
          exact not_mem_nil
        · rw [empty.2]
          exact not_mem_nil
      split
      case isTrue last =>
        rw [holds_erase, and_iff_right_of_imp]
        rintro holds rfl
        have missing : (pools.erase pool).lookup otherPool = Option.none := by
          rw [lookup_eq_none, AList.mem_keys, last]
          exact not_mem_nil
        rw [← erased, Holds, sets_of_lookup (lookup_insert _), missing] at holds
        exact CidrSets.mem_keys_zero holds
      · exact erased _ _ _ _
    · split
      case isTrue empty =>
        exact holds_insert_of_same found (fun _ => GoMap.lookup_insert_if _ _ _ _)
          fun family cidr => CidrSets.mem_keys_set_none empty
      · split
        case isTrue empty =>
          exact holds_insert_of_same found (fun _ => GoMap.lookup_insert_if _ _ _ _)
            fun family cidr => CidrSets.mem_keys_set_none empty
        · rfl

theorem mem_visitNodes (holds : table.Holds node pool family cidr) :
    node ∈ table.visitNodes order := by
  unfold visitNodes
  rw [mem_visit, ← AList.mem_keys]
  by_contra missing
  exact not_holds_of_lookup (lookup_eq_none.mpr missing) holds

theorem mem_visitPools (holds : table.Holds node pool family cidr) :
    pool ∈ table.visitPools order node := by
  unfold visitPools
  rw [mem_visit, ← AList.mem_keys]
  by_contra missing
  unfold Holds sets at holds
  rw [lookup_eq_none.mpr missing] at holds
  exact CidrSets.mem_keys_zero holds

def entries (table : Table) : List (String × String × Family × CIDR) :=
  table.keys.flatMap fun node =>
    ((table.lookup node).getD ∅).keys.flatMap fun pool =>
      [Family.ipv4, Family.ipv6].flatMap fun family =>
        ((table.sets node pool).keys family).map fun cidr => (node, pool, family, cidr)

theorem mem_entries (holds : table.Holds node pool family cidr) :
    (node, pool, family, cidr) ∈ table.entries := by
  have known : node ∈ table.keys := by
    have visited := @mem_visitNodes _ _ _ _ _ listed holds
    exact (mem_visit _ _ _ _).mp visited
  have knownPool : pool ∈ ((table.lookup node).getD ∅).keys := by
    have visited := @mem_visitPools _ _ _ _ _ listed holds
    exact (mem_visit _ _ _ _).mp visited
  refine mem_flatMap.mpr ⟨node, known, mem_flatMap.mpr ⟨pool, knownPool, ?_⟩⟩
  refine mem_flatMap.mpr ⟨family, ?_, mem_map.mpr ⟨cidr, holds, rfl⟩⟩
  cases family <;> simp

end Table

end Constellation.Multipool
