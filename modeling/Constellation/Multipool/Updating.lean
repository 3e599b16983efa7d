/-
This file proves that an update of a pool keeps what the multi-pool allocator keeps, under a
condition. An orphan in the range of a set that is added has to be taken out of it before the pool
allocates. It is looked up in the pool it came from, so this succeeds only for orphans of the
updated pool, and only where they are single blocks of it.
-/

import Constellation.Multipool.Keeping

namespace Constellation.Multipool

open Ipam (Addr CIDR Family)
open Lib Option CidrSet Table

namespace PoolAllocator

variable {allocator later : PoolAllocator} {node pool otherPool : String}
  {family otherFamily : Family} {cidr other : CIDR} {set next : CidrSet}

/-! ### Removing sets from a pool -/

structure Moves (removed : List CidrSet) (family : Family) (start : PoolAllocator)
    (state : Collecting) : Prop where
  pools : state.1.pools = start.pools
  errors : state.2 = []
  nodes : ∀ {node pool family cidr}, state.1.nodes.Holds node pool family cidr →
    start.nodes.Holds node pool family cidr
  orphans : ∀ {node pool otherFamily cidr}, state.1.orphans.Holds node pool otherFamily cidr →
    start.orphans.Holds node pool otherFamily cidr ∨
      start.nodes.Holds node pool otherFamily cidr ∧ otherFamily = family ∧
        ∃ old ∈ removed, old.inRange cidr = true

section Removing

variable {sets : Sets} {removed : List CidrSet} {start : PoolAllocator} {state result : Collecting}
  {name : String} {old : CidrSet} {runtime : Runtime}
  (separate : Separate sets start.nodes start.orphans)
  (listed : ∀ old ∈ removed, old ∈ sets name family)
include separate listed

section

variable (moves : Moves removed family start state) (member : old ∈ removed)
include moves member

/-- An allocation in the range of a removed set becomes an orphan. -/
theorem orphanCIDR_moves (held : start.nodes.Holds node pool family cidr)
    (moved : orphanCIDR old family node pool state cidr = some result) :
    Moves removed family start result ∧
      (result.1.nodes.Holds node pool family cidr → old.inRange cidr = false) ∧
      result.1.nodes.Holds ≤ state.1.nodes.Holds := by
  unfold orphanCIDR at moved
  dsimp only at moved
  split at moved
  case isTrue far =>
    cases moved
    rw [Bool.not_eq_true'] at far
    exact ⟨moves, fun _ => far, le_rfl⟩
  case isFalse near =>
    rw [Bool.not_eq_true, Bool.not_eq_false'] at near
    obtain ⟨set, setMember, block, used⟩ := separate.regular held
    obtain ⟨rfl, rfl⟩ := separate.eq_of_overlaps setMember (listed old member) block near
    rw [isAllocated_block block (separate.addressable setMember), decide_eq_true used] at moved
    obtain ⟨next, marked, rfl⟩ := map_eq_some_iff.mp moved
    obtain ⟨pools, nodes, given⟩ := markOrphan_spec marked
    refine ⟨⟨pools.trans moves.pools, moves.errors, ?_, ?_⟩, ?_, ?_⟩
    · intro otherNode otherPool otherFamily other stays
      have before := (holds_delete.mp stays).2
      rw [nodes] at before
      exact moves.nodes before
    · intro otherNode otherPool otherFamily other orphaned
      rcases given.mp orphaned with ⟨rfl, rfl, rfl, rfl⟩ | before
      · rw [separate.regular_family held]
        exact .inr ⟨held, rfl, old, member, near⟩
      · exact moves.orphans before
    · intro stays
      exact absurd ⟨rfl, rfl, rfl, rfl⟩ (holds_delete.mp stays).1
    · intro otherNode otherPool otherFamily other stays
      have before := (holds_delete.mp stays).2
      rwa [nodes] at before

/-- No allocation of a node stays in the range of a removed set. -/
theorem removeFromPool_moves
    (moved : (runtime.order.visit 2 ((state.1.nodes.sets node pool).keys family)).foldlM
      (orphanCIDR old family node pool) state = some result) :
    Moves removed family start result ∧
      (∀ cidr, result.1.nodes.Holds node pool family cidr → old.inRange cidr = false) ∧
      result.1.nodes.Holds ≤ state.1.nodes.Holds := by
  obtain ⟨movesLater, settled, fewer⟩ := foldlM_descends (·.1.nodes.Holds)
    (Moves removed family start)
    (fun cidr current => current.1.nodes.Holds node pool family cidr → old.inRange cidr = false)
    (by intro _ _ _ less earlier held; exact earlier (less _ _ _ _ held))
    (fun current cidr visited next before _ round => by
      have held : start.nodes.Holds node pool family cidr := by
        rw [IterationOrder.mem_visit] at visited
        exact moves.nodes visited
      exact orphanCIDR_moves separate listed before member held round)
    moved moves
  refine ⟨movesLater, fun cidr held => settled cidr ?_ held, fewer⟩
  rw [IterationOrder.mem_visit]
  exact fewer _ _ _ _ held

theorem removeFromNode_moves
    (moved : (state.1.nodes.visitPools runtime.order node).foldlM (fun state pool =>
      (runtime.order.visit 2 ((state.1.nodes.sets node pool).keys family)).foldlM
        (orphanCIDR old family node pool) state) state = some result) :
    Moves removed family start result ∧
      (∀ pool cidr, result.1.nodes.Holds node pool family cidr → old.inRange cidr = false) ∧
      result.1.nodes.Holds ≤ state.1.nodes.Holds := by
  obtain ⟨movesLater, settled, fewer⟩ := foldlM_descends (·.1.nodes.Holds)
    (Moves removed family start)
    (fun pool current => ∀ cidr, current.1.nodes.Holds node pool family cidr →
      old.inRange cidr = false)
    (by intro _ _ _ less earlier cidr held; exact earlier cidr (less _ _ _ _ held))
    (fun current pool _ next before _ round =>
      removeFromPool_moves separate listed before member round)
    moved moves
  exact ⟨movesLater, fun pool cidr held =>
    settled pool (mem_visitPools (fewer _ _ _ _ held)) cidr held, fewer⟩

theorem removeCIDRSet_moves (moved : removeCIDRSet runtime family state old = some result) :
    Moves removed family start result ∧
      (∀ node pool cidr, result.1.nodes.Holds node pool family cidr → old.inRange cidr = false) ∧
      result.1.nodes.Holds ≤ state.1.nodes.Holds := by
  obtain ⟨movesLater, settled, fewer⟩ := foldlM_descends (·.1.nodes.Holds)
    (Moves removed family start)
    (fun node current => ∀ pool cidr, current.1.nodes.Holds node pool family cidr →
      old.inRange cidr = false)
    (by intro _ _ _ less earlier pool cidr held; exact earlier pool cidr (less _ _ _ _ held))
    (fun current node _ next before _ round =>
      removeFromNode_moves separate listed before member round)
    moved moves
  exact ⟨movesLater, fun node pool cidr held =>
    settled node (mem_visitNodes (fewer _ _ _ _ held)) pool cidr held, fewer⟩

end

/-- After all removed sets no allocation is in the range of one. -/
theorem removeCIDRSets_moves
    (moved : removed.foldlM (removeCIDRSet runtime family) (start, []) = some result) :
    Moves removed family start result ∧
      ∀ old ∈ removed, ∀ node pool cidr, result.1.nodes.Holds node pool family cidr →
        old.inRange cidr = false := by
  obtain ⟨moves, settled, _⟩ := foldlM_descends (·.1.nodes.Holds) (Moves removed family start)
    (fun old current => ∀ node pool cidr, current.1.nodes.Holds node pool family cidr →
      old.inRange cidr = false)
    (by
      intro _ _ _ less earlier node pool cidr held
      exact earlier node pool cidr (less _ _ _ _ held))
    (fun current old member next before _ round =>
      removeCIDRSet_moves separate listed before member round)
    moved ⟨rfl, rfl, id, .inl⟩
  exact ⟨moves, settled⟩

end Removing

def putSets (sets : Sets) (pool : String) (family : Family) (replacement : List CidrSet) : Sets :=
  fun otherPool otherFamily =>
    if otherPool = pool ∧ otherFamily = family then replacement else sets otherPool otherFamily

/-- What an update of the sets of a family comes to, if it does not fail early. -/
structure Updates (runtime : Runtime) (allocator : PoolAllocator) (name : String) (family : Family)
    (old : List CidrSet) (newCIDRs : List CIDR) (maskSize : Nat) (sets : Sets) (update : Update) :
    Prop where
  errors : update.errors = []
  pools : update.allocator.pools = allocator.pools
  kept : update.kept = old.filter (isKept newCIDRs)
  added : ∃ missing, newCIDRSets family maskSize missing [] = .ok update.added ∧
    ∀ cidr ∈ missing, cidr ∈ newCIDRs ∧ ∀ set ∈ old, set.clusterPrefix ≠ cidr
  nodes : ∀ {node pool family cidr}, update.allocator.nodes.Holds node pool family cidr →
    allocator.nodes.Holds node pool family cidr
  orphans : ∀ {node pool otherFamily cidr},
    update.allocator.orphans.Holds node pool otherFamily cidr →
      allocator.orphans.Holds node pool otherFamily cidr ∨
        pool = name ∧ ∃ set ∈ sets name otherFamily, set.IsBlock cidr
  separate : Separate (putSets sets name family update.kept) update.allocator.nodes
    update.allocator.orphans
  clear : Clear (putSets sets name family update.kept) update.allocator.orphans

variable {allocators : List (Option CidrSet)}

theorem hasCIDR_eq_false (missing : hasCIDR cidr allocators = some false) :
    none ∉ allocators ∧ ∀ set ∈ allocators.filterMap id, set.clusterPrefix ≠ cidr := by
  induction allocators with
  | nil => exact ⟨List.not_mem_nil, List.forall_mem_nil _⟩
  | cons first rest inductionHypothesis =>
    cases first with
    | none => cases missing
    | some own =>
      unfold hasCIDR at missing
      split at missing
      · cases missing
      case isFalse differ =>
        obtain ⟨noEntry, others⟩ := inductionHypothesis missing
        refine ⟨by simpa using noEntry, List.forall_mem_cons.mpr ⟨fun same => ?_, others⟩⟩
        rw [← same] at differ
        exact differ (decide_eq_true rfl)

theorem missingCIDRs_spec {cidrs missing : List CIDR}
    (found : missingCIDRs allocators cidrs = some missing) :
    ∀ cidr ∈ missing, cidr ∈ cidrs ∧ none ∉ allocators ∧
      ∀ set ∈ allocators.filterMap id, set.clusterPrefix ≠ cidr := by
  induction cidrs generalizing missing with
  | nil =>
    cases found
    exact List.forall_mem_nil _
  | cons first rest inductionHypothesis =>
    obtain ⟨has, hasFound, found⟩ := bind_eq_some_iff.mp found
    obtain ⟨others, othersFound, found⟩ := bind_eq_some_iff.mp found
    have tail := fun cidr member =>
      (inductionHypothesis othersFound cidr member).imp_left (List.mem_cons_of_mem first)
    cases has with
    | true =>
      cases found
      exact tail
    | false =>
      cases found
      exact List.forall_mem_cons.mpr ⟨⟨.head _, hasCIDR_eq_false hasFound⟩, tail⟩

variable {name : String} {maskSize : Nat} {sets : Sets} {start : PoolAllocator}
  {newCIDRs : List CIDR} {runtime : Runtime} {error : PoolError} {update : Update}

/-- The spec of an update of the sets of a family. -/
theorem updateCIDRSets_updates {slice : Slice}
    (separate : Separate sets allocator.nodes allocator.orphans)
    (clear : Clear sets allocator.orphans)
    (same : sets name family = slice.allocators.filterMap id)
    (updated : updateCIDRSets runtime allocator family slice newCIDRs maskSize =
      some (.ok update)) :
    Updates runtime allocator name family (slice.allocators.filterMap id) newCIDRs maskSize sets
      update := by
  obtain ⟨missing, missingFound, updated⟩ := bind_eq_some_iff.mp updated
  split at updated
  · cases updated
  case h_2 added made =>
    obtain ⟨⟨last, errors⟩, folded, updated⟩ := bind_eq_some_iff.mp updated
    cases updated
    have listed : ∀ old ∈ (slice.allocators.filterMap id).filter (!isKept newCIDRs ·),
        old ∈ sets name family := by
      intro old member
      rw [same]
      exact (List.mem_filter.mp member).1
    obtain ⟨moves, gone⟩ := removeCIDRSets_moves separate listed folded
    have sameSets : ∀ pool otherFamily, putSets sets name family
        ((slice.allocators.filterMap id).filter (isKept newCIDRs)) pool otherFamily =
          (sets pool otherFamily).filter fun set =>
            decide (¬(pool = name ∧ otherFamily = family)) || isKept newCIDRs set := by
      intro pool otherFamily
      unfold putSets
      split
      case isTrue here => simp [here, same]
      case isFalse elsewhere => simp [elsewhere]
    have stay : ∀ {node pool otherFamily cidr}, last.nodes.Holds node pool otherFamily cidr →
        ∀ set ∈ sets pool otherFamily, set.IsBlock cidr →
          (decide (¬(pool = name ∧ otherFamily = family)) || isKept newCIDRs set) = true := by
      intro node pool otherFamily cidr held set member block
      rw [Bool.or_eq_true, decide_eq_true_iff]
      by_contra both
      obtain ⟨here, removed⟩ := not_or.mp both
      obtain ⟨rfl, rfl⟩ := not_not.mp here
      rw [same] at member
      have away := gone set (List.mem_filter.mpr ⟨member, by simpa using removed⟩) node pool cidr
        held
      rw [inRange, block.inside] at away
      cases away
    have go : ∀ {node pool otherFamily cidr}, last.orphans.Holds node pool otherFamily cidr →
        allocator.orphans.Holds node pool otherFamily cidr ∨
          allocator.nodes.Holds node pool otherFamily cidr ∧ pool = name ∧ otherFamily = family ∧
            ∃ set ∈ sets pool otherFamily, set.IsBlock cidr ∧ isKept newCIDRs set = false := by
      intro node pool otherFamily cidr orphaned
      refine (moves.orphans orphaned).imp_right ?_
      rintro ⟨held, rfl, old, member, near⟩
      obtain ⟨set, setMember, block, _⟩ := separate.regular held
      obtain ⟨rfl, rfl⟩ := separate.eq_of_overlaps setMember (listed old member) block near
      refine ⟨held, rfl, rfl, old, setMember, block, ?_⟩
      simpa using (List.mem_filter.mp member).2
    obtain ⟨separateLater, clearLater⟩ := separate.move _ clear sameSets
      (fun held => ⟨moves.nodes held, stay held⟩)
      (fun orphaned => (go orphaned).imp_right <| by
        rintro ⟨held, here, sameFamily, set, member, block, removed⟩
        exact ⟨held, set, member, block, by simp [here, sameFamily, removed]⟩)
    refine ⟨moves.errors, moves.pools, rfl, ⟨missing, made, fun cidr member =>
      (missingCIDRs_spec missingFound cidr member).imp_right (·.2)⟩,
      moves.nodes, ?_, separateLater, clearLater⟩
    intro node pool otherFamily cidr orphaned
    refine (go orphaned).imp_right ?_
    rintro ⟨_, rfl, _, set, member, block, _⟩
    exact ⟨rfl, set, member, block⟩

/-! ### Reconciling orphans -/

/-- An orphan that overlaps no set with blocks. -/
def IsClear (sets : Sets) (family : Family) (cidr : CIDR) : Prop :=
  ∀ pool, ∀ set ∈ sets pool family, set.clusterPrefix.bits ≤ set.nodeMaskSize →
    set.clusterPrefix.overlaps cidr = false

/-- The CIDRs are kept apart, the sets have the blocks they had, and there are no more orphans than
before. -/
structure Reconciles (start state : PoolAllocator) : Prop where
  separate : Separate state.sets state.nodes state.orphans
  masks : state.maskOf = start.maskOf
  origin : ∀ {pool family set}, set ∈ state.sets pool family →
    ∃ earlier ∈ start.sets pool family, set.clusterPrefix = earlier.clusterPrefix ∧
      set.nodeMaskSize = earlier.nodeMaskSize
  still : ∀ {pool family earlier}, earlier ∈ start.sets pool family →
    ∃ set ∈ state.sets pool family, set.clusterPrefix = earlier.clusterPrefix ∧
      set.nodeMaskSize = earlier.nodeMaskSize
  orphans : ∀ {node pool family cidr}, state.orphans.Holds node pool family cidr →
    start.orphans.Holds node pool family cidr

/-- An orphan of a set that still has blocks for it is not refused. -/
theorem occupyCIDR_reclaimable
    (separate : Separate allocator.sets allocator.nodes allocator.orphans)
    (orphaned : allocator.orphans.Holds node pool family cidr)
    (member : set ∈ allocator.sets otherPool family)
    (longer : set.clusterPrefix.bits ≤ set.nodeMaskSize)
    (overlap : set.clusterPrefix.overlaps cidr = true) :
    allocator.occupyCIDR node pool cidr ≠ some (later, some error) := by
  intro refused
  obtain ⟨rfl, block, unused⟩ := separate.orphan orphaned member longer overlap
  have sameFamily := separate.orphan_family orphaned
  subst sameFamily
  unfold PoolAllocator.occupyCIDR at refused
  split at refused
  · cases refused
  · obtain ⟨cidrPool, found⟩ := exists_of_mem_sets member
    rw [found] at refused
    dsimp only at refused
    split at refused
    · cases refused
    case h_2 reason rejected =>
      have addressable := separate.addressable member
      have none := occupyCIDR_error rejected ((mem_sets found).mp member) overlap
        (fun other otherMember near =>
          (separate.eq_of_overlaps member ((mem_sets found).mpr otherMember) block near).2)
        (by rw [isAllocated_block block addressable, decide_eq_false unused])
      rw [occupy_block block addressable] at none
      cases none
    case h_3 changed taken =>
      obtain ⟨result, _, mapped⟩ := map_eq_some_iff.mp refused
      cases (Prod.mk.inj mapped).2

/-- One orphan after the attempt to make it an allocation: it is one, or it overlaps no set. -/
theorem unorphanCIDR_reconciles {error : Option PoolError}
    (reconciles : Reconciles start allocator)
    (orphaned : allocator.orphans.Holds node pool family cidr)
    (called : allocator.unorphanCIDR family node pool cidr = some (later, error)) :
    Reconciles start later ∧
      (later.orphans.Holds node pool family cidr → IsClear start.sets family cidr) ∧
      later.orphans.Holds ≤ allocator.orphans.Holds ∧
      ∀ {otherNode otherPool otherFamily other},
        ¬(otherNode = node ∧ otherPool = pool ∧ otherFamily = family ∧ other = cidr) →
          allocator.orphans.Holds otherNode otherPool otherFamily other →
            later.orphans.Holds otherNode otherPool otherFamily other := by
  have separate := reconciles.separate
  have sameFamily := separate.orphan_family orphaned
  obtain ⟨⟨next, reason⟩, occupied, mapped⟩ := map_eq_some_iff.mp called
  have blocks : ∀ set ∈ allocator.sets pool cidr.addr.family,
      set.clusterPrefix.bits ≤ set.nodeMaskSize → set.clusterPrefix.overlaps cidr = true →
        cidr.bits = set.nodeMaskSize := by
    intro set member longer overlap
    rw [sameFamily] at member
    exact (separate.orphan orphaned member longer overlap).block.bits_eq
  cases reason with
  | some reason =>
    cases mapped
    rcases occupyCIDR_cases separate blocks occupied with rfl | ⟨impossible, _⟩
    · refine ⟨reconciles, fun _ => ?_, le_rfl, fun _ => id⟩
      intro setPool earlier member longer
      refine Bool.eq_false_iff.mpr fun overlap => ?_
      obtain ⟨set, setMember, samePrefix, sameMask⟩ := reconciles.still member
      rw [← samePrefix, ← sameMask] at longer
      rw [← samePrefix] at overlap
      exact occupyCIDR_reclaimable separate orphaned setMember longer overlap occupied
    · cases impossible
  | none =>
    cases mapped
    have takes := occupyCIDR_cases separate blocks occupied
    have sameOrphans : next.orphans = allocator.orphans := by
      rcases takes with rfl | ⟨_, _, _, takes⟩
      · rfl
      · exact takes.orphans
    have fewer : (next.orphans.delete node pool family cidr).Holds ≤ allocator.orphans.Holds := by
      rw [sameOrphans]
      exact fun _ _ _ _ held => (holds_delete.mp held).2
    have orphans {otherNode otherPool otherFamily other} (held : (next.orphans.delete node pool
        family cidr).Holds otherNode otherPool otherFamily other) :
        start.orphans.Holds otherNode otherPool otherFamily other :=
      reconciles.orphans (fewer _ _ _ _ held)
    refine ⟨?_, fun held => absurd ⟨rfl, rfl, rfl, rfl⟩ (holds_delete.mp held).1, fewer, ?_⟩
    · rcases takes with rfl | ⟨_, set, changed, takes⟩
      · exact ⟨separate.mono le_rfl fewer, reconciles.masks, reconciles.origin, reconciles.still,
          orphans⟩
      refine ⟨?_, takes.masks.trans reconciles.masks, ?_, ?_, orphans⟩
      · refine separate.take takes.replaced takes.block takes.unused takes.given ?_
        intro otherNode otherPool otherFamily other held
        have otherOrphaned := fewer _ _ _ _ held
        refine ⟨otherOrphaned, ?_⟩
        refine Bool.eq_false_iff.mpr fun overlap => ?_
        obtain ⟨rfl, rfl, rfl⟩ := separate.orphan_unique orphaned otherOrphaned overlap
        have sameOther := separate.orphan_family otherOrphaned
        exact (holds_delete.mp held).1 ⟨rfl, rfl, sameOther.symm.trans sameFamily, rfl⟩
      · intro otherPool otherFamily other member
        obtain ⟨middle, middleMember, samePrefix, sameMask⟩ :=
          takes.replaced.origin (separate.apart _ _) member
        obtain ⟨earlier, before, earlierPrefix, earlierMask⟩ := reconciles.origin middleMember
        exact ⟨earlier, before, samePrefix.trans earlierPrefix, sameMask.trans earlierMask⟩
      · intro otherPool otherFamily earlier member
        obtain ⟨middle, middleMember, samePrefix, sameMask⟩ := reconciles.still member
        by_cases same : otherPool = pool ∧ otherFamily = cidr.addr.family ∧ middle = set
        · obtain ⟨rfl, rfl, rfl⟩ := same
          exact ⟨changed, takes.replaced.next_member,
            takes.replaced.becomes.clusterPrefix.trans samePrefix,
            takes.replaced.becomes.nodeMaskSize.trans sameMask⟩
        · exact ⟨middle, takes.replaced.mem_later middleMember same, samePrefix, sameMask⟩
    · intro otherNode otherPool otherFamily other differ held
      refine holds_delete.mpr ⟨differ, ?_⟩
      rwa [sameOrphans]

section Reconciling

variable {newSets : Dual (List CidrSet)} {state result : Collecting}
  (same : ∀ family, start.sets name family = newSets.of family)
  (only : ∀ {node pool family cidr}, start.orphans.Holds node pool family cidr → ∀ {setPool set},
    set ∈ start.sets setPool family → set.clusterPrefix.bits ≤ set.nodeMaskSize →
    set.clusterPrefix.overlaps cidr = true → setPool = name)
include same only

/-- The orphans of a node from a pool that are left overlap no set. -/
theorem reconcileVisits (reconciles : Reconciles start state.1)
    (visited : ((state.1.orphans.sets node pool).visits runtime.order).foldlM
      (fun (state : Collecting) (family, cidr) =>
        if containsCIDR (newSets.of family) cidr then
          collect state.2 (state.1.unorphanCIDR family node pool cidr)
        else some state) state = some result) :
    Reconciles start result.1 ∧ (∀ {family cidr}, result.1.orphans.Holds node pool family cidr →
        IsClear start.sets family cidr) ∧
      result.1.orphans.Holds ≤ state.1.orphans.Holds := by
  obtain ⟨reconcilesLast, settled, fewer⟩ := foldlM_pending (·.1.orphans.Holds)
    (fun current => Reconciles start current.1)
    (fun visit current => current.1.orphans.Holds node pool visit.1 visit.2 →
      IsClear start.sets visit.1 visit.2)
    (by intro _ _ _ less earlier held; exact earlier (less _ _ _ _ held))
    (fun visit current => current.1.orphans.Holds node pool visit.1 visit.2)
    (CidrSets.visits_nodup runtime.order (state.1.orphans.sets node pool))
    (fun current visit _ next before orphaned round => by
      dsimp only at round
      split at round
      · obtain ⟨⟨changed, error⟩, called, rfl⟩ := map_eq_some_iff.mp round
        obtain ⟨after, done, less, others⟩ := unorphanCIDR_reconciles before orphaned called
        refine ⟨after, done, less, ?_⟩
        rintro ⟨otherFamily, other⟩ differ pending
        refine others ?_ pending
        rintro ⟨_, _, rfl, rfl⟩
        exact differ rfl
      case isFalse outside =>
        cases round
        refine ⟨before, ?_, le_rfl, fun _ _ pending => pending⟩
        intro held setPool set member longer
        refine Bool.eq_false_iff.mpr fun overlap => ?_
        obtain rfl := only (before.orphans held) member longer overlap
        rw [same] at member
        exact outside (List.any_eq_true.mpr ⟨set, member, overlap⟩))
    visited reconciles fun visit member => CidrSets.mem_visits.mp member
  refine ⟨reconcilesLast, ?_, fewer⟩
  intro family cidr held
  exact settled (family, cidr) (CidrSets.mem_visits.mpr (fewer _ _ _ _ held)) held

theorem reconcileNode_reconciles (reconciles : Reconciles start state.1)
    (visited : reconcileNode runtime name newSets state node = some result) :
    Reconciles start result.1 ∧
      (∀ {pool family cidr}, result.1.orphans.Holds node pool family cidr →
        IsClear start.sets family cidr) ∧
      result.1.orphans.Holds ≤ state.1.orphans.Holds := by
  obtain ⟨last, folded, mapped⟩ := bind_eq_some_iff.mp visited
  cases mapped
  obtain ⟨reconcilesLast, settled, fewer⟩ := foldlM_descends (·.1.orphans.Holds)
    (fun current => Reconciles start current.1)
    (fun pool current => ∀ {family cidr}, current.1.orphans.Holds node pool family cidr →
      IsClear start.sets family cidr)
    (by intro _ _ _ less earlier _ _ held; exact earlier (less _ _ _ _ held))
    (fun current pool _ next before _ round => reconcileVisits same only before round)
    folded reconciles
  refine ⟨⟨?_, reconcilesLast.masks, reconcilesLast.origin, reconcilesLast.still, ?_⟩, ?_, ?_⟩
  · exact reconcilesLast.separate.mono le_rfl fun _ _ _ _ held => holds_cleanup.mp held
  · exact fun held => reconcilesLast.orphans (holds_cleanup.mp held)
  · intro pool family cidr held
    have before := holds_cleanup.mp held
    exact settled pool (mem_visitPools (fewer _ _ _ _ before)) before
  · exact fun _ _ _ _ held => fewer _ _ _ _ (holds_cleanup.mp held)

theorem reconcileOrphanCIDRs_kept (separate : Separate start.sets start.nodes start.orphans)
    (uniform : ∀ {pool family set}, set ∈ start.sets pool family →
      start.maskOf pool family = some set.nodeMaskSize)
    (visited : reconcileOrphanCIDRs runtime start name newSets = some result) : result.1.Kept := by
  obtain ⟨reconciles, settled, fewer⟩ := foldlM_descends (·.1.orphans.Holds)
    (fun current => Reconciles start current.1)
    (fun node current => ∀ {pool family cidr}, current.1.orphans.Holds node pool family cidr →
      IsClear start.sets family cidr)
    (by intro _ _ _ less earlier _ _ _ held; exact earlier (less _ _ _ _ held))
    (fun current node _ next before _ round => reconcileNode_reconciles same only before round)
    visited
    ⟨separate, rfl, fun member => ⟨_, member, rfl, rfl⟩, fun member => ⟨_, member, rfl, rfl⟩, id⟩
  refine ⟨reconciles.separate, ?_, ?_⟩
  · intro node pool family cidr held setPool set member longer
    obtain ⟨earlier, before, samePrefix, sameMask⟩ := reconciles.origin member
    rw [samePrefix, sameMask] at longer
    rw [samePrefix]
    exact settled node (mem_visitNodes (fewer _ _ _ _ held)) held _ _ before longer
  · intro pool family set member
    obtain ⟨earlier, before, _, sameMask⟩ := reconciles.origin member
    rw [reconciles.masks, sameMask]
    exact uniform before

end Reconciling

/-! ### Adding sets to a pool -/

/-- The sets that are made are disjoint, and each is the set of one of the CIDRs. -/
theorem newCIDRSets_spec {cidrs : List CIDR} {made result : List CidrSet}
    (done : newCIDRSets family maskSize cidrs made = .ok result)
    (apart : made.Pairwise CidrSet.Apart) :
    result.Pairwise CidrSet.Apart ∧ ∀ set ∈ result, set ∈ made ∨
      ∃ cidr ∈ cidrs, cidr.addr.family = family ∧ newCIDRSet cidr maskSize = .ok set := by
  induction cidrs generalizing made with
  | nil =>
    cases done
    exact ⟨apart, fun set member => .inl member⟩
  | cons cidr rest inductionHypothesis =>
    unfold newCIDRSets at done
    split at done
    · cases done
    case isFalse free =>
      split at done
      · cases done
      case isFalse sameFamily =>
        rw [ne_eq, not_not] at sameFamily
        split at done
        · cases done
        case h_2 set setMade =>
          have alone : ∀ other ∈ made, other.Apart set := by
            intro other member
            unfold CidrSet.Apart
            rw [(newCIDRSet_spec setMade).1, CIDR.overlaps_comm, CIDR.overlaps_masked,
              CIDR.overlaps_comm]
            refine Bool.eq_false_iff.mpr fun near => ?_
            exact free (List.any_eq_true.mpr ⟨other, member, near⟩)
          have apartNow : (made ++ [set]).Pairwise CidrSet.Apart := by
            rw [List.pairwise_append]
            exact ⟨apart, List.pairwise_singleton _ _, fun other member =>
              List.forall_mem_singleton.mpr (alone other member)⟩
          obtain ⟨apartLater, origin⟩ := inductionHypothesis done apartNow
          refine ⟨apartLater, fun other member => ?_⟩
          rcases origin other member with earlier | ⟨source, listed, facts⟩
          · rcases List.mem_append.mp earlier with inMade | isSet
            · exact .inl inMade
            · rw [List.mem_singleton.mp isSet]
              exact .inr ⟨cidr, .head _, sameFamily, setMade⟩
          · exact .inr ⟨source, List.mem_cons_of_mem _ listed, facts⟩

/-- Sets that differ in nothing but their reserved blocks. -/
structure Reserves (before after : List CidrSet) : Prop where
  still : ∀ set ∈ before, ∃ next ∈ after, set.Becomes next set.used
  origin : ∀ next ∈ after, ∃ set ∈ before, set.Becomes next set.used
  clusters : after.map (·.clusterPrefix) = before.map (·.clusterPrefix)

variable {before : List CidrSet} {after : List CidrSet}

theorem Reserves.pairwise (reserves : Reserves before after)
    (apart : before.Pairwise CidrSet.Apart) : after.Pairwise CidrSet.Apart :=
  pairwise_of_clusters reserves.clusters apart

variable {configs : List PoolCIDRConfig} {cidrPool : CidrPool}

theorem setReservedRanges_reserves (accounted : ∀ set ∈ before, set.Accounted)
    (reserved : setReservedRanges configs before = (after, none)) : Reserves before after := by
  induction before generalizing after with
  | nil =>
    cases reserved
    exact ⟨List.forall_mem_nil _, List.forall_mem_nil _, rfl⟩
  | cons set rest inductionHypothesis =>
    unfold setReservedRanges at reserved
    split at reserved
    · cases (Prod.mk.inj reserved).2
    case h_2 next made =>
      obtain ⟨rfl, noError⟩ := Prod.mk.inj reserved
      have becomes := setReservedRanges_becomes (accounted set (.head _)) made
      have tail := inductionHypothesis
        (List.forall_mem_cons.mp accounted).2 (Prod.ext rfl noError)
      refine ⟨?_, ?_, ?_⟩
      · intro other member
        rcases List.mem_cons.mp member with rfl | inRest
        · exact ⟨next, .head _, becomes⟩
        · exact List.exists_mem_cons_of_exists (tail.still other inRest)
      · intro other member
        rcases List.mem_cons.mp member with rfl | inRest
        · exact ⟨set, .head _, becomes⟩
        · exact List.exists_mem_cons_of_exists (tail.origin other inRest)
      · rw [List.map_cons, List.map_cons, tail.clusters, becomes.clusterPrefix]

/-- Ranges within the cluster can be reserved. -/
theorem exists_setReservedRanges {ranges : List (Addr × Addr)} (addressable : set.Addressable)
    (inside : ∀ range ∈ ranges, set.clusterPrefix.bits ≤ set.nodeMaskSize ∧
      set.clusterPrefix.contains range.1 = true ∧ set.clusterPrefix.contains range.2 = true) :
    ∃ next, set.setReservedRanges ranges = some next := by
  have indices : ∃ reserved, set.reservedIndices ranges = some reserved := by
    induction ranges with
    | nil => exact ⟨∅, rfl⟩
    | cons range rest inductionHypothesis =>
      obtain ⟨longer, first, last⟩ := inside range (.head _)
      obtain ⟨others, made⟩ := inductionHypothesis (List.forall_mem_cons.mp inside).2
      refine ⟨(span (set.blockIndex range.1, set.blockIndex range.2 + 1)).toFinset ∪ others, ?_⟩
      unfold reservedIndices
      rw [getIndexForAddr_eq addressable longer first,
        getIndexForAddr_eq addressable longer last, made]
  obtain ⟨reserved, made⟩ := indices
  unfold CidrSet.setReservedRanges
  rw [made]
  exact ⟨_, rfl⟩

theorem setReservedRanges_none (possible : ∀ set ∈ before, ∃ next,
      set.setReservedRanges (rangesOf configs set.clusterPrefix) = some next) :
    (setReservedRanges configs before).2 = none := by
  induction before with
  | nil => rfl
  | cons set rest inductionHypothesis =>
    obtain ⟨next, made⟩ := possible set (.head _)
    unfold setReservedRanges
    rw [made]
    exact inductionHypothesis (List.forall_mem_cons.mp possible).2

theorem mem_rangesOf {range : Addr × Addr} (member : range ∈ rangesOf configs cidr) :
    ∃ config ∈ configs, config.cidr = cidr ∧ range ∈ config.reservedRanges := by
  unfold rangesOf at member
  cases found : configs.reverse.find? (·.cidr = cidr) with
  | none => cases found ▸ member
  | some config =>
    rw [found] at member
    have same := List.find?_some found
    exact ⟨config, List.mem_reverse.mp (List.mem_of_find?_eq_some found), of_decide_eq_true same,
      member⟩

theorem newCIDRSet_addressable (made : newCIDRSet cidr maskSize = .ok set)
    (indexable : cidr.addr.family = .ipv4 → maskSize < cidr.bits + 32) : set.Addressable := by
  obtain ⟨samePrefix, sameMask, _, _⟩ := newCIDRSet_spec made
  have bits : set.clusterPrefix.bits = cidr.bits := by
    rw [samePrefix]
    rfl
  have difference : maskSize < cidr.bits + 32 := by
    cases family : cidr.addr.family with
    | ipv4 => exact indexable family
    | ipv6 =>
      unfold newCIDRSet at made
      split at made
      case isFalse _ => cases made
      case isTrue _ =>
        split at made
        · cases made
        case isFalse near =>
          rw [not_and, not_lt] at near
          exact (near family).trans_lt (by omega)
  unfold CidrSet.Addressable maxCIDRs
  split
  · exact Nat.pow_lt_pow_right (by decide) (by omega)
  · decide

/-! ### The condition on an update -/

def families : List Family := [.ipv4, .ipv6]

theorem mem_families (family : Family) : family ∈ families := by
  cases family <;> decide

section

variable (allocator : PoolAllocator)

/-- The CIDRs of an update are disjoint from each other and from the sets of the other pools. -/
def ListsDisjoint (name : String) (configs : Dual (List PoolCIDRConfig)) : Prop :=
  (∀ family ∈ families, ∀ config ∈ configs.of family, ∀ other ∈ configs.of family,
    config.cidr ≠ other.cidr → config.cidr.overlaps other.cidr = false) ∧
  ∀ pool ∈ allocator.pools.keys, pool ≠ name → ∀ family ∈ families,
    ∀ set ∈ allocator.sets pool family, ∀ config ∈ configs.of family,
      set.clusterPrefix.overlaps config.cidr = false

/-- The orphans in the range of an update come from the same pool and are single blocks of it. -/
def OrphansReclaimable (name : String)
    (configs : Dual (List PoolCIDRConfig)) (maskSize : Dual Nat) : Prop :=
  ∀ entry ∈ allocator.orphans.entries, ∀ config ∈ configs.of entry.2.2.1,
    config.cidr.bits ≤ maskSize.of entry.2.2.1 → config.cidr.overlaps entry.2.2.2 = true →
      entry.2.1 = name ∧ entry.2.2.2.bits = maskSize.of entry.2.2.1

/-- The IPv4 sets of an update have fewer than `2 ^ 32` blocks. -/
def Indexable (configs : Dual (List PoolCIDRConfig)) (maskSize : Dual Nat) : Prop :=
  ∀ config ∈ configs.v4, maskSize.v4 < config.cidr.bits + 32

/-- An update of a pool that exists does not fail once the IPv4 sets have been changed: the IPv6
sets can be made, and all reserved ranges are within CIDRs that have blocks. -/
def Completes (name : String) (configs : Dual (List PoolCIDRConfig)) (maskSize : Dual Nat) : Prop :=
  ∀ pool ∈ (allocator.pools.lookup name).toList,
    (∀ missing ∈ (missingCIDRs pool.allocators.v6.allocators (configs.v6.map (·.cidr))).toList,
      (newCIDRSets .ipv6 maskSize.v6 missing []).isOk = true) ∧
    ∀ family ∈ families, ∀ config ∈ configs.of family, ∀ range ∈ config.reservedRanges,
      config.cidr.bits ≤ maskSize.of family ∧ config.cidr.contains range.1 = true ∧
        config.cidr.contains range.2 = true

end

/-! ### Updating a pool -/

def putPool (sets : Sets) (name : String) (replacement : Dual (List CidrSet)) : Sets :=
  fun pool family => if pool = name then replacement.of family else sets pool family

theorem putPool_self (sets : Sets) (name : String) (replacement : Dual (List CidrSet))
    (family : Family) : putPool sets name replacement name family = replacement.of family :=
  if_pos rfl

theorem mem_putPool {replacement : Dual (List CidrSet)}
    (member : set ∈ putPool sets name replacement pool family) :
    pool = name ∧ set ∈ replacement.of family ∨
      pool ≠ name ∧ ∀ other, set ∈ putPool sets name other pool family := by
  unfold putPool at member ⊢
  split at member
  case isTrue same => exact .inl ⟨same, member⟩
  case isFalse differ => exact .inr ⟨differ, fun other => by rwa [if_neg differ]⟩

theorem putSets_putSets (sets : Sets) (name : String) (v4 v6 : List CidrSet) :
    putSets (putSets sets name .ipv4 v4) name .ipv6 v6 = putPool sets name ⟨v4, v6⟩ := by
  funext pool family
  unfold putSets putPool
  by_cases same : pool = name
  · cases family <;> simp [same, Dual.of]
  · simp [same]

/-- What the sets of both families of a pool have come to before they are installed. -/
structure Prepared (allocator updated : PoolAllocator) (name : String)
    (configs : Dual (List PoolCIDRConfig)) (maskSize : Dual Nat)
    (keptSets addedSets : Dual (List CidrSet)) : Prop where
  pools : updated.pools = allocator.pools
  kept : ∀ family, keptSets.of family =
    (allocator.sets name family).filter (isKept ((configs.of family).map (·.cidr)))
  added : ∀ family, ∃ missing,
    newCIDRSets family (maskSize.of family) missing [] = .ok (addedSets.of family) ∧
      ∀ cidr ∈ missing, cidr ∈ (configs.of family).map (·.cidr) ∧
        ∀ set ∈ allocator.sets name family, set.clusterPrefix ≠ cidr
  orphans : ∀ {node pool family cidr}, updated.orphans.Holds node pool family cidr →
    allocator.orphans.Holds node pool family cidr ∨
      pool = name ∧ ∃ set ∈ allocator.sets name family, set.IsBlock cidr
  separate : Separate (putPool allocator.sets name keptSets) updated.nodes updated.orphans
  clear : Clear (putPool allocator.sets name keptSets) updated.orphans
  masks : ∀ {family set}, set ∈ allocator.sets name family → set.nodeMaskSize = maskSize.of family

/-- The set of a listed CIDR that had none. -/
structure Added (allocator : PoolAllocator) (name : String)
    (configs : Dual (List PoolCIDRConfig)) (maskSize : Dual Nat) (family : Family)
    (set : CidrSet) (config : PoolCIDRConfig) : Prop where
  listed : config ∈ configs.of family
  family_eq : config.cidr.addr.family = family
  fresh : ∀ other ∈ allocator.sets name family, other.clusterPrefix ≠ config.cidr
  made : newCIDRSet config.cidr (maskSize.of family) = .ok set

namespace Prepared

variable {updated : PoolAllocator} {configs : Dual (List PoolCIDRConfig)} {maskSize : Dual Nat}
  {keptSets addedSets newSets : Dual (List CidrSet)}
  (prepared : Prepared allocator updated name configs maskSize keptSets addedSets)
include prepared

theorem exists_added (member : set ∈ addedSets.of family) :
    ∃ config, Added allocator name configs maskSize family set config := by
  obtain ⟨missing, made, listed⟩ := prepared.added family
  rcases (newCIDRSets_spec made .nil).2 set member with
    impossible | ⟨cidr, there, facts⟩
  · exact nomatch impossible
  · obtain ⟨inList, fresh⟩ := listed cidr there
    obtain ⟨config, inConfigs, rfl⟩ := List.mem_map.mp inList
    exact ⟨config, inConfigs, facts.1, fresh, facts.2⟩

/-- A set that is kept is one of a listed CIDR. -/
theorem exists_kept (member : set ∈ keptSets.of family) :
    set ∈ allocator.sets name family ∧
      ∃ config ∈ configs.of family, config.cidr = set.clusterPrefix := by
  rw [prepared.kept, List.mem_filter] at member
  refine ⟨member.1, ?_⟩
  obtain ⟨cidr, listed, same⟩ := List.any_eq_true.mp member.2
  obtain ⟨config, inConfigs, rfl⟩ := List.mem_map.mp listed
  exact ⟨config, inConfigs, of_decide_eq_true same⟩

theorem apart (disjoint : ListsDisjoint allocator name configs) (family : Family) :
    (keptSets.of family ++ addedSets.of family).Pairwise CidrSet.Apart := by
  rw [List.pairwise_append]
  refine ⟨?_, ?_, ?_⟩
  · have apart := prepared.separate.apart name family
    rwa [putPool_self] at apart
  · obtain ⟨missing, made, _⟩ := prepared.added family
    exact (newCIDRSets_spec made .nil).1
  · intro set member other otherMember
    obtain ⟨before, config, listed, same⟩ := prepared.exists_kept member
    obtain ⟨otherConfig, added⟩ := prepared.exists_added otherMember
    unfold CidrSet.Apart
    rw [(newCIDRSet_spec added.made).1, CIDR.overlaps_comm, CIDR.overlaps_masked, ← same]
    refine disjoint.1 family (mem_families family) otherConfig added.listed config listed ?_
    rw [same]
    exact fun equal => added.fresh set before equal.symm

theorem sound (indexable : Indexable configs maskSize)
    (member : set ∈ keptSets.of family ++ addedSets.of family) :
    set.Accounted ∧ set.Addressable ∧ set.clusterPrefix.addr.family = family ∧
      set.nodeMaskSize = maskSize.of family := by
  rcases List.mem_append.mp member with kept | isAdded
  · have there : set ∈ putPool allocator.sets name keptSets name family := by
      rwa [putPool_self]
    exact ⟨prepared.separate.accounted there, prepared.separate.addressable there,
      prepared.separate.family_eq there, prepared.masks (prepared.exists_kept kept).1⟩
  · obtain ⟨config, added⟩ := prepared.exists_added isAdded
    obtain ⟨samePrefix, sameMask, _, accounted⟩ := newCIDRSet_spec added.made
    refine ⟨accounted, newCIDRSet_addressable added.made fun isV4 => ?_,
      samePrefix ▸ added.family_eq, sameMask⟩
    have listed := added.listed
    rw [← added.family_eq, isV4] at listed ⊢
    exact indexable config listed

/-- The reserved ranges of an update that completes can be set. -/
theorem reserve_none {ranges : List PoolCIDRConfig}
    (indexable : Indexable configs maskSize) (same : ranges = configs.of family)
    (inside : ∀ config ∈ configs.of family, ∀ range ∈ config.reservedRanges,
      config.cidr.bits ≤ maskSize.of family ∧ config.cidr.contains range.1 = true ∧
        config.cidr.contains range.2 = true) :
    (setReservedRanges ranges (keptSets.of family ++ addedSets.of family)).2 = none := by
  subst same
  refine setReservedRanges_none fun set member => ?_
  obtain ⟨_, addressable, _, sameMask⟩ := prepared.sound indexable member
  refine exists_setReservedRanges addressable fun range listed => ?_
  obtain ⟨config, inConfigs, sameCidr, inRanges⟩ := mem_rangesOf listed
  rw [← sameCidr, sameMask]
  exact inside config inConfigs range inRanges

/-- Only the sets of the updated pool overlap orphans. -/
theorem only_own
    {orphanPool setPool : String} (orphaned : updated.orphans.Holds node orphanPool family cidr)
    (member : set ∈ putPool allocator.sets name newSets setPool family)
    (longer : set.clusterPrefix.bits ≤ set.nodeMaskSize)
    (overlap : set.clusterPrefix.overlaps cidr = true) : setPool = name := by
  rcases mem_putPool member with ⟨same, _⟩ | ⟨_, others⟩
  · exact same
  · rw [prepared.clear orphaned (others _) longer] at overlap
    cases overlap

section Installing

variable (reserves : ∀ family,
  Reserves (keptSets.of family ++ addedSets.of family) (newSets.of family))
include reserves

theorem of_mem_newSets (member : next ∈ newSets.of family) :
    ∃ set, set.Becomes next set.used ∧ (set ∈ keptSets.of family ∨
        ∃ config, Added allocator name configs maskSize family set config) := by
  obtain ⟨set, before, becomes⟩ := (reserves family).origin next member
  refine ⟨set, becomes, ?_⟩
  exact (List.mem_append.mp before).imp_right prepared.exists_added

variable (disjoint : ListsDisjoint allocator name configs)
  (reclaimable : OrphansReclaimable allocator name configs maskSize)
  (indexable : Indexable configs maskSize)
include disjoint reclaimable indexable

theorem separate_install :
    Separate (putPool allocator.sets name newSets) updated.nodes updated.orphans := by
  have separate := prepared.separate
  have keptMember : ∀ {family set}, set ∈ keptSets.of family →
      set ∈ putPool allocator.sets name keptSets name family := by
    intro family set member
    rwa [putPool_self]
  have awayFromOthers : ∀ {pool family set otherSet}, pool ≠ name → set ∈ newSets.of family →
      (∀ sets, otherSet ∈ putPool allocator.sets name sets pool family) →
        otherSet.Apart set := by
    intro pool family set otherSet differ member others
    obtain ⟨before, becomes, kept | ⟨config, added⟩⟩ := prepared.of_mem_newSets reserves member
    · unfold CidrSet.Apart
      rw [becomes.clusterPrefix]
      exact separate.poolsApart differ (others _) (keptMember kept)
    · unfold CidrSet.Apart
      rw [becomes.clusterPrefix, (newCIDRSet_spec added.made).1, CIDR.overlaps_comm,
        CIDR.overlaps_masked, CIDR.overlaps_comm]
      have other := others keptSets
      rw [putPool, if_neg differ] at other
      obtain ⟨cidrPool, found⟩ := exists_of_mem_sets other
      exact disjoint.2 pool ((GoMap.mem_of_lookup found)) differ family
        (mem_families family) otherSet other config added.listed
  refine separate.restock ?_ ?_ ?_ ?_ ?_
  · intro pool family set member
    rcases mem_putPool member with ⟨_, own⟩ | ⟨_, others⟩
    · obtain ⟨before, there, becomes⟩ := (reserves family).origin set own
      obtain ⟨_, addressable, sameFamily, _⟩ := prepared.sound indexable there
      exact ⟨becomes.accounted, becomes.addressable addressable,
        becomes.clusterPrefix ▸ sameFamily⟩
    · exact ⟨separate.accounted (others _), separate.addressable (others _),
        separate.family_eq (others _)⟩
  · intro pool family
    by_cases same : pool = name
    · subst same
      rw [putPool_self]
      exact (reserves family).pairwise (prepared.apart disjoint family)
    · have apart := separate.apart pool family
      rwa [putPool, if_neg same] at apart ⊢
  · intro pool other family set otherSet differ member otherSetMember
    rcases mem_putPool member with ⟨rfl, own⟩ | ⟨away, others⟩
    · rcases mem_putPool otherSetMember with ⟨rfl, _⟩ | ⟨away, others⟩
      · exact absurd rfl differ
      · exact symm (awayFromOthers away own others)
    · rcases mem_putPool otherSetMember with ⟨rfl, own⟩ | ⟨_, othersToo⟩
      · exact awayFromOthers away own others
      · exact separate.poolsApart differ (others _) (othersToo _)
  · intro pool family set member
    rcases mem_putPool member with ⟨rfl, own⟩ | ⟨_, others⟩
    · rw [putPool_self]
      exact (reserves family).still set (List.mem_append_left _ own)
    · exact ⟨set, others _, rfl, rfl, rfl, separate.accounted member⟩
  · intro pool family next member
    rcases mem_putPool member with ⟨rfl, own⟩ | ⟨_, others⟩
    · obtain ⟨before, becomes, kept | ⟨config, added⟩⟩ := prepared.of_mem_newSets reserves own
      · exact .inl ⟨before, keptMember kept, becomes⟩
      · obtain ⟨samePrefix, sameMask, unused, _⟩ := newCIDRSet_spec added.made
        refine .inr ⟨by rw [becomes.used, unused], ?_⟩
        intro node orphanPool cidr orphaned longer overlap
        rw [becomes.clusterPrefix, samePrefix] at longer overlap
        rw [becomes.nodeMaskSize, sameMask] at longer ⊢
        rw [CIDR.overlaps_masked] at overlap
        rcases prepared.orphans orphaned with already | ⟨own, set, there, block⟩
        · obtain ⟨samePool, bits⟩ := reclaimable _ (mem_entries already) config added.listed
            longer overlap
          exact ⟨samePool.symm, bits⟩
        · exact ⟨own.symm, block.bits_eq.trans (prepared.masks there)⟩
    · exact .inl ⟨next, others _, rfl, rfl, rfl, separate.accounted (others _)⟩

/-- Installing the sets and reconciling the orphans keeps what the allocator keeps. -/
theorem installPool_kept {result : Collecting} (kept : allocator.Kept)
    (own : ∀ family, (cidrPool.allocators.of family).allocators = (newSets.of family).map some)
    (ownMask : cidrPool.maskSize = maskSize)
    (installed : installPool runtime updated name cidrPool newSets = some result) :
    result.1.Kept := by
  have sameSets : ({ updated with pools := updated.pools.insert name cidrPool } :
      PoolAllocator).sets = putPool allocator.sets name newSets := by
    funext pool family
    rw [sets_insert, sets_congr prepared.pools]
    unfold putPool
    split
    · rw [own]
      simp
    · rfl
  refine @reconcileOrphanCIDRs_kept _ _ _ _ _ ?_ ?_ ?_ ?_ installed
  · intro family
    rw [sameSets, putPool_self]
  · intro node pool family cidr orphaned setPool set member longer overlap
    rw [sameSets] at member
    exact prepared.only_own orphaned member longer overlap
  · rw [sameSets]
    exact prepared.separate_install reserves disjoint reclaimable indexable
  · intro pool family set member
    rw [sameSets] at member
    unfold maskOf
    rw [GoMap.lookup_insert_if]
    by_cases same : pool = name
    · subst same
      rw [putPool_self] at member
      rw [if_pos rfl, map_some, ownMask]
      obtain ⟨before, becomes, stays | ⟨config, added⟩⟩ := prepared.of_mem_newSets reserves member
      · rw [becomes.nodeMaskSize, prepared.masks (prepared.exists_kept stays).1]
      · rw [becomes.nodeMaskSize, (newCIDRSet_spec added.made).2.1]
    · rw [if_neg same, prepared.pools]
      rw [putPool, if_neg same] at member
      exact kept.uniform member

end Installing

end Prepared

/-- An update that is not refused leaves the sizes of the blocks as they are. -/
theorem maskSize_of_refusal {maskSize : Dual Nat} {allowFirstIP allowLastIP : Bool}
    (accepted : refusal name cidrPool maskSize allowFirstIP allowLastIP = none) :
    maskSize = cidrPool.maskSize := by
  unfold refusal at accepted
  split at accepted
  · cases accepted
  case isFalse sameV4 =>
    split at accepted
    · cases accepted
    case isFalse sameV6 =>
      rw [ne_eq, not_not] at sameV4 sameV6
      exact Dual.ext sameV4 sameV6

theorem abandon_of_lookup {kept : Nat} {changed : List CidrSet}
    (missing : allocator.pools.lookup name = none) :
    allocator.abandon name family kept changed = allocator := by
  unfold abandon
  rw [missing]

section Upserting

variable {configs : Dual (List PoolCIDRConfig)} {maskSize : Dual Nat}
  {allowFirstIP allowLastIP : Bool} {previous : Dual Slice} {v4 v6 : Update} {result : Collecting}

/-- What the sets of a pool were before an update, and what both updates come to. -/
structure Updated (runtime : Runtime) (allocator : PoolAllocator) (name : String)
    (configs : Dual (List PoolCIDRConfig)) (maskSize : Dual Nat) (previous : Dual Slice)
    (v4 v6 : Update) : Prop where
  same : ∀ family, allocator.sets name family = (previous.of family).allocators.filterMap id
  masks : ∀ {family set}, set ∈ allocator.sets name family → set.nodeMaskSize = maskSize.of family
  first : Updates runtime allocator name .ipv4 (previous.v4.allocators.filterMap id)
    (configs.v4.map (·.cidr)) maskSize.v4 allocator.sets v4
  second : Updates runtime v4.allocator name .ipv6 (previous.v6.allocators.filterMap id)
    (configs.v6.map (·.cidr)) maskSize.v6 (putSets allocator.sets name .ipv4 v4.kept) v6

theorem Updated.prepared
    (updated : Updated runtime allocator name configs maskSize previous v4 v6) :
    Prepared allocator v6.allocator name configs maskSize ⟨v4.kept, v6.kept⟩
      ⟨v4.added, v6.added⟩ := by
  obtain ⟨same, masks, first, second⟩ := updated
  have sets := putSets_putSets allocator.sets name v4.kept v6.kept
  refine ⟨second.pools.trans first.pools, ?_, ?_, ?_, ?_, ?_, masks⟩
  · intro family
    rw [same]
    cases family
    · exact first.kept
    · exact second.kept
  · intro family
    rw [same]
    cases family
    · exact first.added
    · exact second.added
  · intro node pool family cidr orphaned
    rcases second.orphans orphaned with before | ⟨own, set, member, block⟩
    · exact first.orphans before
    · refine .inr ⟨own, set, ?_, block⟩
      unfold putSets at member
      split at member
      case isTrue here =>
        rw [here.2, same]
        rw [first.kept] at member
        exact (List.mem_filter.mp member).1
      · exact member
  · rw [← sets]
    exact second.separate
  · intro node pool family cidr
    rw [← sets]
    exact second.clear

/-- An update of the sets of a pool that is new changes nothing before the pool is installed. -/
theorem updateCIDRSets_nil {size : Nat}
    (updated : updateCIDRSets runtime allocator family Slice.nil newCIDRs size =
      some (.ok update)) : update.allocator = allocator ∧ update.errors = [] := by
  obtain ⟨missing, _, updated⟩ := bind_eq_some_iff.mp updated
  split at updated
  · cases updated
  · cases updated
    exact ⟨rfl, rfl⟩

/-- An update whose IPv6 sets can be made does not fail to make them. -/
theorem updateCIDRSets_ne_error (completes : Completes allocator name configs maskSize)
    (found : allocator.pools.lookup name = some cidrPool) :
    updateCIDRSets runtime start .ipv6 cidrPool.allocators.v6 (configs.v6.map (·.cidr))
      maskSize.v6 ≠ some (.error error) := by
  intro failed
  obtain ⟨missing, missingFound, failed⟩ := bind_eq_some_iff.mp failed
  have made := (completes cidrPool (by rw [found]; exact List.mem_singleton_self _)).1 missing
    (by rw [missingFound]; exact List.mem_singleton_self _)
  split at failed
  case h_1 reason notMade =>
    rw [notMade] at made
    cases made
  · obtain ⟨_, _, failed⟩ := bind_eq_some_iff.mp failed
    cases failed

variable (kept : allocator.Kept) (disjoint : ListsDisjoint allocator name configs)
  (reclaimable : OrphansReclaimable allocator name configs maskSize)
  (indexable : Indexable configs maskSize) (completes : Completes allocator name configs maskSize)
include kept disjoint reclaimable indexable completes

/-- The last part of an update keeps what the allocator keeps, if it completes. -/
theorem reservePool_kept
    (updated : Updated runtime allocator name configs maskSize previous v4 v6)
    (new : allocator.pools.lookup name = none → v6.allocator = allocator)
    (called : reservePool runtime name previous configs maskSize allowFirstIP allowLastIP v4 v6 =
      some result) : result.1.Kept := by
  have prepared := updated.prepared
  have accounted : ∀ family, ∀ set ∈ (⟨v4.kept, v6.kept⟩ : Dual _).of family ++
      (⟨v4.added, v6.added⟩ : Dual _).of family, set.Accounted :=
    fun family set member => (prepared.sound indexable member).1
  have install : (setReservedRanges configs.v4 v4.sets).2 = none →
      (setReservedRanges configs.v6 v6.sets).2 = none → result.1.Kept := by
    intro v4Error v6Error
    unfold reservePool at called
    dsimp only at called
    rw [v4Error, v6Error] at called
    refine prepared.installPool_kept ?_ disjoint reclaimable indexable kept ?_ rfl called
    · intro family
      cases family
      · exact setReservedRanges_reserves (accounted .ipv4) (Prod.ext rfl v4Error)
      · exact setReservedRanges_reserves (accounted .ipv6) (Prod.ext rfl v6Error)
    · intro family
      cases family <;> rfl
  cases found : allocator.pools.lookup name with
  | some cidrPool =>
    have inside := (completes cidrPool (by rw [found]; exact List.mem_singleton_self _)).2
    have reserved := fun family ranges same =>
      @Prepared.reserve_none _ family _ _ _ _ _ _ prepared ranges indexable same
        (inside family (mem_families family))
    exact install (reserved .ipv4 configs.v4 rfl) (reserved .ipv6 configs.v6 rfl)
  | none =>
    unfold reservePool at called
    simp only [new found, abandon_of_lookup found] at called
    split at called
    · cases called
      exact kept
    · cases called
      exact kept
    case h_3 v4Error v6Error => exact install v4Error v6Error

/-- An update keeps what the allocator keeps, if its CIDRs are disjoint, the orphans in its range
can be reclaimed, and it completes. -/
theorem upsertPool_kept
    (called : allocator.upsertPool runtime name configs maskSize allowFirstIP allowLastIP =
      some result) : result.1.Kept := by
  unfold upsertPool at called
  dsimp only at called
  split at called
  · cases called
    exact kept
  case h_2 accepted =>
    generalize previousEq : (Option.map (fun pool : CidrPool => pool.allocators)
      (allocator.pools.lookup name)).getD ⟨Slice.nil, Slice.nil⟩ = previous at called
    have same : ∀ family, allocator.sets name family =
        (previous.of family).allocators.filterMap id := by
      intro family
      rw [← previousEq]
      unfold sets
      cases allocator.pools.lookup name with
      | none => cases family <;> rfl
      | some cidrPool => rfl
    have masks : ∀ {family set}, set ∈ allocator.sets name family →
        set.nodeMaskSize = maskSize.of family := by
      intro family set member
      obtain ⟨cidrPool, found⟩ := exists_of_mem_sets member
      rw [found, bind_some] at accepted
      have mask := kept.uniform member
      rw [maskOf, found, map_some] at mask
      rw [maskSize_of_refusal accepted]
      exact (Option.some.inj mask).symm
    split at called
    · cases called
    · cases called
      exact kept
    case h_3 v4 updatedV4 =>
      have first := updateCIDRSets_updates kept.separate kept.clear (same .ipv4) updatedV4
      rw [first.errors] at called
      simp only [ne_eq, not_true_eq_false, if_false] at called
      have sameV6 : putSets allocator.sets name .ipv4 v4.kept name .ipv6 =
          previous.v6.allocators.filterMap id := by
        rw [← show (previous.of .ipv6) = previous.v6 from rfl, ← same]
        exact if_neg fun here => Family.noConfusion here.2
      split at called
      · cases called
      case h_2 error failed =>
        cases found : allocator.pools.lookup name with
        | some cidrPool =>
          rw [found] at previousEq
          obtain rfl : cidrPool.allocators = previous := previousEq
          exact absurd failed (updateCIDRSets_ne_error completes found)
        | none =>
          rw [found] at previousEq
          obtain rfl := previousEq
          rw [(updateCIDRSets_nil updatedV4).1, abandon_of_lookup found] at called
          cases called
          exact kept
      case h_3 v6 updatedV6 =>
        have second := updateCIDRSets_updates first.separate first.clear sameV6 updatedV6
        rw [second.errors] at called
        refine reservePool_kept kept disjoint reclaimable indexable completes
          ⟨same, masks, first, second⟩ (fun missing => ?_) called
        rw [missing] at previousEq
        obtain rfl := previousEq
        rw [(updateCIDRSets_nil updatedV6).1, (updateCIDRSets_nil updatedV4).1]

end Upserting

end PoolAllocator

end Constellation.Multipool
