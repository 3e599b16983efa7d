/-
This file proves what the multi-pool allocator keeps: the CIDRs that the nodes hold are kept apart
by the sets of the pools, and no orphan overlaps a set that has blocks.
-/

import Constellation.Lib.FallibleLoop
import Constellation.Multipool.Separate

namespace Constellation.Multipool

open Ipam (Addr CIDR Family)
open Lib List Option Bool Table CidrSet PoolAllocator

/-! ### One set of a slice -/

variable {allocators later : List (Option CidrSet)} {cidr : CIDR} {set next : CidrSet}

def ChangesOne (allocators later : List (Option CidrSet)) (set next : CidrSet) : Prop :=
  ∃ before after, allocators = before ++ some set :: after ∧ later = before ++ some next :: after

theorem ChangesOne.head (rest : List (Option CidrSet)) (set next : CidrSet) :
    ChangesOne (some set :: rest) (some next :: rest) set next :=
  ⟨[], rest, rfl, rfl⟩

theorem ChangesOne.cons (first : Option CidrSet)
    (changes : ChangesOne allocators later set next) :
    ChangesOne (first :: allocators) (first :: later) set next := by
  obtain ⟨before, after, rfl, rfl⟩ := changes
  exact ⟨first :: before, after, rfl, rfl⟩

theorem occupyCIDR_ok (occupied : occupyCIDR cidr allocators = some (.ok later)) :
    ∃ set next, ChangesOne allocators later set next ∧ set.inRange cidr = true ∧
      set.isAllocated cidr = some false ∧ set.occupy cidr = some next := by
  induction allocators generalizing later with
  | nil => cases occupied
  | cons first rest inductionHypothesis =>
    cases first with
    | none => cases occupied
    | some set =>
      unfold occupyCIDR at occupied
      split at occupied
      case isTrue near =>
        split at occupied
        · cases occupied
        · cases occupied
        case h_3 free =>
          split at occupied
          · cases occupied
          case h_2 next taken =>
            cases occupied
            exact ⟨set, next, ChangesOne.head rest set next, near, free, taken⟩
      · obtain ⟨result, found, mapped⟩ := map_eq_some_iff.mp occupied
        cases result with
        | error error => cases mapped
        | ok restLater =>
          cases mapped
          obtain ⟨other, next, changes, facts⟩ := inductionHypothesis found
          exact ⟨other, next, changes.cons _, facts⟩

/-- A CIDR is refused only if it is out of the range of all sets, or if a set that it is in the
range of refuses it. -/
theorem occupyCIDR_error {error : PoolError}
    (refused : occupyCIDR cidr allocators = some (.error error)) (member : some set ∈ allocators)
    (near : set.inRange cidr = true)
    (alone : ∀ other, some other ∈ allocators → other.inRange cidr = true → other = set)
    (free : set.isAllocated cidr = some false) : set.occupy cidr = none := by
  induction allocators generalizing error with
  | nil => exact nomatch member
  | cons first rest inductionHypothesis =>
    cases first with
    | none => cases refused
    | some other =>
      unfold occupyCIDR at refused
      split at refused
      case isTrue otherNear =>
        obtain rfl := alone other (.head _) otherNear
        rw [free] at refused
        dsimp only at refused
        split at refused
        case h_1 none => exact none
        · cases refused
      case isFalse far =>
        obtain ⟨result, found, mapped⟩ := map_eq_some_iff.mp refused
        cases result with
        | ok restLater => cases mapped
        | error restError =>
          refine inductionHypothesis found ?_ fun another there =>
            alone another (.tail _ there)
          rcases mem_cons.mp member with same | inRest
          · cases same
            exact absurd near far
          · exact inRest

theorem releaseCIDR_ok (released : releaseCIDR cidr allocators = some (.ok later)) :
    later = allocators ∨ ∃ set next, ChangesOne allocators later set next ∧
      set.inRange cidr = true ∧ set.isAllocated cidr = some true ∧
      set.release cidr = some next := by
  induction allocators generalizing later with
  | nil => cases released
  | cons first rest inductionHypothesis =>
    cases first with
    | none => cases released
    | some set =>
      unfold releaseCIDR at released
      split at released
      case isTrue near =>
        split at released
        · cases released
        · cases released
          exact .inl rfl
        case h_3 used =>
          split at released
          · cases released
          case h_2 next taken =>
            cases released
            exact .inr ⟨set, next, ChangesOne.head rest set next, near, used, taken⟩
      · obtain ⟨result, found, mapped⟩ := map_eq_some_iff.mp released
        cases result with
        | error error => cases mapped
        | ok restLater =>
          cases mapped
          rcases inductionHypothesis found with rfl | ⟨other, next, changes, facts⟩
          · exact .inl rfl
          · exact .inr ⟨other, next, changes.cons _, facts⟩

theorem allocFirstFreeCIDR_ok
    (allocated : allocFirstFreeCIDR allocators = some (.ok (cidr, later))) :
    ∃ set next, ChangesOne allocators later set next ∧ set.isFull = false ∧
      set.allocateNext = .ok (cidr, next) := by
  induction allocators generalizing later with
  | nil => cases allocated
  | cons first rest inductionHypothesis =>
    cases first with
    | none => cases allocated
    | some set =>
      unfold allocFirstFreeCIDR at allocated
      split at allocated
      · obtain ⟨result, found, mapped⟩ := map_eq_some_iff.mp allocated
        cases result with
        | error error => cases mapped
        | ok pair =>
          cases mapped
          obtain ⟨other, next, changes, facts⟩ := inductionHypothesis found
          exact ⟨other, next, changes.cons _, facts⟩
      case isFalse room =>
        rw [not_eq_true] at room
        split at allocated
        · cases allocated
        case h_2 given next taken =>
          cases allocated
          exact ⟨set, next, ChangesOne.head rest set next, room, taken⟩

/-- A set without blocks never has a CIDR that is not allocated. -/
theorem CidrSet.longer_of_isAllocated (free : set.isAllocated cidr = some false) :
    set.clusterPrefix.bits ≤ set.nodeMaskSize := by
  by_contra shorter
  have empty : set.maxCIDRs = 0 := if_neg shorter
  obtain ⟨bounds, found, used⟩ := map_eq_some_iff.mp free
  unfold getBeginningAndEndIndices at found
  split at found
  · cases found
  · split at found
    · split at found
      case h_1 first last firstFound _ =>
        have bound := getIndexForAddr_lt firstFound
        rw [empty] at bound
        exact Nat.not_lt_zero _ bound
      · cases found
    · cases found
      rw [empty] at used
      cases used

namespace PoolAllocator

/-! ### The sets of the pools -/

def sets (allocator : PoolAllocator) : Sets := fun pool family =>
  match allocator.pools.lookup pool with
  | none => []
  | some cidrPool => (cidrPool.allocators.of family).allocators.filterMap id

def maskOf (allocator : PoolAllocator) (pool : String) (family : Family) : Option Nat :=
  (allocator.pools.lookup pool).map (·.maskSize.of family)

variable {allocator later : PoolAllocator} {node pool otherPool : String}
  {family otherFamily : Family} {other : CIDR} {cidrPool : CidrPool}
  (found : allocator.pools.lookup pool = some cidrPool)

include found in
theorem sets_of_lookup :
    allocator.sets pool family = (cidrPool.allocators.of family).allocators.filterMap id := by
  unfold sets
  rw [found]

include found in
theorem mem_sets :
    set ∈ allocator.sets pool family ↔ some set ∈ (cidrPool.allocators.of family).allocators := by
  rw [sets_of_lookup found]
  simp

theorem exists_of_mem_sets (member : set ∈ allocator.sets pool family) :
    ∃ cidrPool, allocator.pools.lookup pool = some cidrPool := by
  unfold sets at member
  split at member
  · exact nomatch member
  case h_2 cidrPool found => exact ⟨cidrPool, found⟩

theorem sets_insert (cidrPool : CidrPool) :
    ({ allocator with pools := allocator.pools.insert pool cidrPool } : PoolAllocator).sets
        otherPool otherFamily =
      if otherPool = pool then (cidrPool.allocators.of otherFamily).allocators.filterMap id
      else allocator.sets otherPool otherFamily := by
  unfold sets
  rw [GoMap.lookup_insert_if]
  by_cases same : otherPool = pool
  · rw [if_pos same, if_pos same]
  · rw [if_neg same, if_neg same]

theorem sets_congr (pools : later.pools = allocator.pools) : later.sets = allocator.sets := by
  unfold sets
  rw [pools]

theorem maskOf_congr (pools : later.pools = allocator.pools) :
    later.maskOf = allocator.maskOf := by
  unfold maskOf
  rw [pools]

abbrev withSets (allocator : PoolAllocator) (pool : String) (cidrPool : CidrPool) (family : Family)
    (changed : List (Option CidrSet)) : PoolAllocator :=
  { allocator with
    pools := allocator.pools.insert pool (cidrPool.withAllocators family changed) }

variable {changed : List (Option CidrSet)}

include found in
theorem mem_sets_of_changes
    (changes : ChangesOne (cidrPool.allocators.of family).allocators changed set next) :
    set ∈ allocator.sets pool family := by
  obtain ⟨before, after, same, _⟩ := changes
  rw [mem_sets found, same]
  exact mem_append_right _ (.head _)

include found in
theorem replaced_withAllocators {used : Finset Nat}
    (changes : ChangesOne (cidrPool.allocators.of family).allocators changed set next)
    (becomes : set.Becomes next used) :
    Replaced allocator.sets (allocator.withSets pool cidrPool family changed).sets pool family set
      next used := by
  obtain ⟨before, after, same, rfl⟩ := changes
  refine ⟨⟨before.filterMap id, after.filterMap id, ?_, ?_⟩, ?_, becomes⟩
  · rw [sets_of_lookup found, same]
    simp
  · rw [sets_insert, if_pos rfl, CidrPool.withAllocators, Dual.of_set_self]
    simp
  · intro otherPool otherFamily elsewhere
    rw [sets_insert]
    split
    case isFalse _ => rfl
    case isTrue here =>
      subst here
      rw [CidrPool.withAllocators, Dual.of_set,
        if_neg fun same => elsewhere ⟨rfl, same⟩, sets_of_lookup found]

theorem maskOf_withAllocators (changed : List (Option CidrSet))
    (found : allocator.pools.lookup pool = some cidrPool) :
    (allocator.withSets pool cidrPool family changed).maskOf = allocator.maskOf := by
  funext otherPool otherFamily
  unfold maskOf
  rw [GoMap.lookup_insert_if]
  split
  case isTrue same =>
    subst same
    rw [found]
    rfl
  · rfl

/-! ### What the allocator keeps -/

/-- The CIDRs of the nodes are kept apart by the sets of the pools, no orphan overlaps a set, and
all sets of a pool have blocks of one size. -/
structure Kept (allocator : PoolAllocator) : Prop where
  separate : Separate allocator.sets allocator.nodes allocator.orphans
  clear : Clear allocator.sets allocator.orphans
  uniform : ∀ {pool family set}, set ∈ allocator.sets pool family →
    allocator.maskOf pool family = some set.nodeMaskSize

variable (separate : Separate allocator.sets allocator.nodes allocator.orphans)

include separate in
theorem uniform_of_replaced {used : Finset Nat}
    (uniform : ∀ {pool family set}, set ∈ allocator.sets pool family →
      allocator.maskOf pool family = some set.nodeMaskSize)
    (replaced : Replaced allocator.sets later.sets pool family set next used)
    (masks : later.maskOf = allocator.maskOf) :
    ∀ {pool family set}, set ∈ later.sets pool family →
      later.maskOf pool family = some set.nodeMaskSize := by
  intro otherPool otherFamily other member
  obtain ⟨earlier, before, _, sameMask⟩ := replaced.origin (separate.apart _ _) member
  rw [masks, sameMask]
  exact uniform before

/-- A block that was not in use is taken and given to a node. -/
structure Takes (allocator later : PoolAllocator) (node pool : String) (cidr : CIDR)
    (set next : CidrSet) : Prop where
  replaced : Replaced allocator.sets later.sets pool cidr.addr.family set next
    (insert (set.blockIndex cidr.addr) set.used)
  block : set.IsBlock cidr
  unused : set.blockIndex cidr.addr ∉ set.used
  given : ∀ {otherNode otherPool otherFamily other},
    later.nodes.Holds otherNode otherPool otherFamily other ↔
      (otherNode = node ∧ otherPool = pool ∧ otherFamily = cidr.addr.family ∧ other = cidr) ∨
        allocator.nodes.Holds otherNode otherPool otherFamily other
  orphans : later.orphans = allocator.orphans
  masks : later.maskOf = allocator.maskOf

variable (kept : allocator.Kept)

include kept in
theorem Kept.takes (takes : allocator.Takes later node pool cidr set next) : later.Kept := by
  have separate : Separate later.sets later.nodes later.orphans := by
    rw [takes.orphans]
    refine kept.separate.take takes.replaced takes.block takes.unused takes.given ?_
    intro otherNode otherPool otherFamily other orphaned
    refine ⟨orphaned, ?_⟩
    refine Bool.eq_false_iff.mpr fun overlap => ?_
    have sameFamily : otherFamily = cidr.addr.family := by
      rw [← kept.separate.orphan_family orphaned, CIDR.family_eq_of_overlaps overlap]
    subst sameFamily
    have around := takes.block.overlaps overlap
    rw [kept.clear orphaned takes.replaced.member takes.block.longer] at around
    cases around
  refine ⟨separate, ?_, uniform_of_replaced kept.separate kept.uniform takes.replaced takes.masks⟩
  rw [takes.orphans]
  exact takes.replaced.clear (kept.separate.apart _ _) kept.clear

theorem markAllocated_spec (marked : allocator.markAllocated node pool cidr = some later) :
    later.pools = allocator.pools ∧ later.orphans = allocator.orphans ∧
      allocator.nodes.Gains later.nodes node pool cidr := by
  obtain ⟨nodes, given, rfl⟩ := map_eq_some_iff.mp marked
  exact ⟨rfl, rfl, gains_of_mark given⟩

include found in
/-- Changing one set and marking the block that it gives as allocated. -/
theorem takes_of_markAllocated
    (changes : ChangesOne (cidrPool.allocators.of cidr.addr.family).allocators changed set next)
    (becomes : set.Becomes next (insert (set.blockIndex cidr.addr) set.used))
    (block : set.IsBlock cidr) (unused : set.blockIndex cidr.addr ∉ set.used)
    (marked : (allocator.withSets pool cidrPool cidr.addr.family changed).markAllocated node pool
      cidr = some later) : allocator.Takes later node pool cidr set next := by
  obtain ⟨pools, orphans, given⟩ := markAllocated_spec marked
  refine ⟨?_, block, unused, given, orphans, ?_⟩
  · rw [sets_congr pools]
    exact replaced_withAllocators found changes becomes
  · rw [maskOf_congr pools]
    exact maskOf_withAllocators _ found

variable {error : Option PoolError}

include separate in
/-- What occupying a CIDR comes to: nothing changes, or a block that was not in use is taken. -/
theorem occupyCIDR_cases (blocks : ∀ set ∈ allocator.sets pool cidr.addr.family,
      set.clusterPrefix.bits ≤ set.nodeMaskSize → set.clusterPrefix.overlaps cidr = true →
        cidr.bits = set.nodeMaskSize)
    (occupied : allocator.occupyCIDR node pool cidr = some (later, error)) :
    later = allocator ∨ error = none ∧
      ∃ set next, allocator.Takes later node pool cidr set next := by
  unfold occupyCIDR at occupied
  dsimp only at occupied
  split at occupied
  · cases occupied
    exact .inl rfl
  · split at occupied
    · cases occupied
      exact .inl rfl
    case h_2 cidrPool found =>
      split at occupied
      · cases occupied
      · cases occupied
        exact .inl rfl
      case h_3 changed taken =>
        obtain ⟨result, marked, mapped⟩ := map_eq_some_iff.mp occupied
        cases mapped
        obtain ⟨set, next, changes, near, free, occupiedSet⟩ := occupyCIDR_ok taken
        have member := mem_sets_of_changes found changes
        have longer := longer_of_isAllocated free
        have block := isBlock_of_overlaps longer (blocks set member longer near) near
        have addressable := separate.addressable member
        rw [isAllocated_block block addressable] at free
        rw [occupy_block block addressable] at occupiedSet
        cases occupiedSet
        have unused := of_decide_eq_false (Option.some.inj free)
        have becomes := occupyIndex_becomes (separate.accounted member) block.lt unused
        exact .inr ⟨rfl, set, _, takes_of_markAllocated found changes becomes block unused marked⟩

include kept in
theorem Kept.fewer (sameSets : later.sets = allocator.sets)
    (sameMasks : later.maskOf = allocator.maskOf)
    (nodes : later.nodes.Holds ≤ allocator.nodes.Holds)
    (orphans : later.orphans.Holds ≤ allocator.orphans.Holds) : later.Kept := by
  refine ⟨?_, ?_, ?_⟩
  · rw [sameSets]
    exact kept.separate.mono nodes orphans
  · intro node pool family cidr orphaned setPool set member longer
    rw [sameSets] at member
    exact kept.clear (orphans _ _ _ _ orphaned) member longer
  · intro pool family set member
    rw [sameSets] at member
    rw [sameMasks]
    exact kept.uniform member

/-! ### Allocating -/

theorem allocateLoop_kept (rounds : Nat) (toAllocate : Int) (kept : allocator.Kept)
    (allocated : allocateLoop node pool family rounds allocator toAllocate = some (later, error)) :
    later.Kept := by
  induction rounds generalizing allocator toAllocate with
  | zero =>
    cases allocated
    exact kept
  | succ rounds inductionHypothesis =>
    unfold allocateLoop at allocated
    split at allocated
    · cases allocated
      exact kept
    · split at allocated
      · cases allocated
        exact kept
      case h_2 cidrPool found =>
        split at allocated
        · cases allocated
        · cases allocated
          exact kept
        case h_3 cidr changed taken =>
          split at allocated
          · cases allocated
          case h_2 given marked =>
            obtain ⟨set, next, changes, room, nextBlock⟩ := allocFirstFreeCIDR_ok taken
            have member := mem_sets_of_changes found changes
            obtain ⟨index, changedSet, allocatedSet, inside, unused, _, becomes⟩ :=
              allocateNext_spec (kept.separate.accounted member) room
            obtain ⟨rfl, rfl⟩ := Prod.mk.inj (Except.ok.inj (nextBlock.symm.trans allocatedSet))
            obtain ⟨block, position⟩ := isBlock_indexToCIDRBlock inside
            have sameFamily : (set.indexToCIDRBlock index).addr.family = family :=
              kept.separate.family_eq member
            rw [← position] at unused becomes
            rw [← sameFamily] at changes marked
            exact inductionHypothesis _
              (kept.takes (takes_of_markAllocated found changes becomes block unused marked))
              allocated

/-! ### Taking over what nodes report -/

/-- A node may report a CIDR that it holds, or one of the size of the blocks of its pool. -/
def Reportable (allocator : PoolAllocator) (node pool : String) (cidr : CIDR) : Prop :=
  allocator.isAllocated node pool cidr = true ∨ allocator.isOrphan node pool cidr = true ∨
    allocator.maskOf pool cidr.addr.family = some cidr.bits
  deriving Decidable

theorem isAllocated_iff : allocator.isAllocated node pool cidr = true ↔
    allocator.nodes.Holds node pool cidr.addr.family cidr :=
  decide_eq_true_iff

theorem isOrphan_iff : allocator.isOrphan node pool cidr = true ↔
    allocator.orphans.Holds node pool cidr.addr.family cidr :=
  decide_eq_true_iff

include kept in
/-- A reported CIDR has the size of the blocks of every set of its pool that it overlaps. -/
theorem Reportable.bits_eq (reportable : allocator.Reportable node pool cidr)
    (member : set ∈ allocator.sets pool cidr.addr.family)
    (longer : set.clusterPrefix.bits ≤ set.nodeMaskSize)
    (overlap : set.clusterPrefix.overlaps cidr = true) : cidr.bits = set.nodeMaskSize := by
  rcases reportable with held | orphaned | size
  · obtain ⟨own, ownMember, block, _⟩ := kept.separate.regular (isAllocated_iff.mp held)
    rw [(kept.separate.eq_of_overlaps ownMember member block overlap).2]
    exact block.bits_eq
  · rw [kept.clear (isOrphan_iff.mp orphaned) member longer] at overlap
    cases overlap
  · exact Option.some.inj (size.symm.trans (kept.uniform member))

/-- What is reportable stays so while more CIDRs are held. -/
theorem Reportable.mono {otherNode : String}
    (reportable : allocator.Reportable otherNode otherPool other)
    (nodes : allocator.nodes.Holds ≤ later.nodes.Holds)
    (orphans : allocator.orphans.Holds ≤ later.orphans.Holds)
    (masks : later.maskOf = allocator.maskOf) : later.Reportable otherNode otherPool other := by
  rcases reportable with held | orphaned | size
  · exact .inl (isAllocated_iff.mpr (nodes _ _ _ _ (isAllocated_iff.mp held)))
  · exact .inr (.inl (isOrphan_iff.mpr (orphans _ _ _ _ (isOrphan_iff.mp orphaned))))
  · exact .inr (.inr (by rwa [masks]))

theorem markOrphan_spec {allowFirstIP allowLastIP : Bool}
    (marked : allocator.markOrphan node pool cidr allowFirstIP allowLastIP = some later) :
    later.pools = allocator.pools ∧ later.nodes = allocator.nodes ∧
      allocator.orphans.Gains later.orphans node pool cidr := by
  obtain ⟨orphans, given, rfl⟩ := map_eq_some_iff.mp marked
  exact ⟨rfl, rfl, gains_of_mark given⟩

variable {result : Collecting}

include kept in
/-- Taking over one reportable CIDR keeps what the allocator keeps, and what is reportable. -/
theorem restoreCIDR_kept {allocation : IPAMPoolAllocation} {errors : List PoolError}
    (reportable : allocator.Reportable node allocation.pool cidr)
    (restored : restoreCIDR node allocation (allocator, errors) (some cidr) = some result) :
    result.1.Kept ∧ ∀ {otherNode otherPool other}, allocator.Reportable otherNode otherPool other →
      result.1.Reportable otherNode otherPool other := by
  unfold restoreCIDR at restored
  dsimp only at restored
  split at restored
  · obtain ⟨⟨next, error⟩, occupied, rfl⟩ := map_eq_some_iff.mp restored
    rcases occupyCIDR_cases kept.separate
        (fun set member longer => reportable.bits_eq kept member longer) occupied with
      rfl | ⟨_, set, changed, takes⟩
    · exact ⟨kept, fun before => before⟩
    · exact ⟨kept.takes takes, fun before => before.mono
        (fun _ _ _ _ held => takes.given.mpr (.inr held)) (takes.orphans ▸ le_rfl) takes.masks⟩
  case isFalse missing =>
    obtain ⟨next, marked, rfl⟩ := map_eq_some_iff.mp restored
    obtain ⟨pools, nodes, given⟩ := markOrphan_spec marked
    have absent : allocator.pools.lookup allocation.pool = none := by
      rwa [← not_isSome_iff_eq_none]
    have orphaned : allocator.orphans.Holds node allocation.pool cidr.addr.family cidr := by
      rcases reportable with held | orphaned | size
      · obtain ⟨set, member, _⟩ := kept.separate.regular (isAllocated_iff.mp held)
        obtain ⟨cidrPool, found⟩ := exists_of_mem_sets member
        rw [absent] at found
        cases found
      · exact isOrphan_iff.mp orphaned
      · rw [maskOf, absent] at size
        cases size
    have sameOrphans : next.orphans.Holds ≤ allocator.orphans.Holds := by
      intro otherNode otherPool otherFamily other held
      rcases given.mp held with ⟨rfl, rfl, rfl, rfl⟩ | before
      · exact orphaned
      · exact before
    exact ⟨kept.fewer (sets_congr pools) (maskOf_congr pools) (nodes ▸ le_rfl) sameOrphans,
      fun before => before.mono (nodes ▸ le_rfl) (fun _ _ _ _ held => given.mpr (.inr held))
        (maskOf_congr pools)⟩

theorem restoreCIDRs_kept {allocated : List IPAMPoolAllocation} {start : Collecting}
    (restored : restoreCIDRs node allocated start = some result) (kept : start.1.Kept)
    (reportable : ∀ allocation ∈ allocated, ∀ cidr, some cidr ∈ allocation.cidrs →
      start.1.Reportable node allocation.pool cidr) : result.1.Kept := by
  refine (foldlM_invariant
    (fun state : Collecting => state.1.Kept ∧ ∀ allocation ∈ allocated, ∀ cidr,
      some cidr ∈ allocation.cidrs → state.1.Reportable node allocation.pool cidr)
    ?_ restored ⟨kept, reportable⟩).1
  intro state allocation member next before taken
  refine foldlM_invariant
    (fun state : Collecting => state.1.Kept ∧ ∀ allocation ∈ allocated, ∀ cidr,
      some cidr ∈ allocation.cidrs → state.1.Reportable node allocation.pool cidr)
    ?_ taken before
  rintro ⟨allocator, errors⟩ reported reportedMember afterwards ⟨kept, reportable⟩ round
  cases reported with
  | none =>
    cases round
    exact ⟨kept, reportable⟩
  | some cidr =>
    obtain ⟨keptLater, mono⟩ :=
      restoreCIDR_kept kept (reportable allocation member cidr reportedMember) round
    exact ⟨keptLater, fun other there cidr listed => mono (reportable other there cidr listed)⟩

/-! ### Releasing -/

theorem markReleased_spec :
    (allocator.markReleased node pool cidr).pools = allocator.pools ∧
      (allocator.markReleased node pool cidr).orphans = allocator.orphans ∧
      ∀ {otherNode otherPool otherFamily other},
        (allocator.markReleased node pool cidr).nodes.Holds otherNode otherPool otherFamily other ↔
          ¬(otherNode = node ∧ otherPool = pool ∧ otherFamily = cidr.addr.family ∧ other = cidr) ∧
            allocator.nodes.Holds otherNode otherPool otherFamily other := by
  refine ⟨rfl, rfl, ?_⟩
  intro otherNode otherPool otherFamily other
  unfold markReleased
  dsimp only
  split
  case isFalse _ => exact holds_delete
  case isTrue empty =>
    rw [holds_deletePool, holds_delete, and_iff_right_of_imp]
    rintro held ⟨rfl, rfl⟩
    have listed := holds_delete.mpr held
    unfold Table.Holds at listed
    cases otherFamily
    · rw [empty.1] at listed
      exact not_mem_nil listed
    · rw [empty.2] at listed
      exact not_mem_nil listed

include separate in
/-- The block of an allocation is freed in its set, and no other block. -/
theorem release_cases (found : allocator.pools.lookup pool = some cidrPool)
    (own : ∃ set ∈ allocator.sets pool family, set.IsBlock cidr)
    (released : Multipool.releaseCIDR cidr (cidrPool.allocators.of family).allocators =
      some (.ok changed)) :
    changed = (cidrPool.allocators.of family).allocators ∨ ∃ set next, set.IsBlock cidr ∧
        Replaced allocator.sets (allocator.withSets pool cidrPool family changed).sets pool family
          set next (set.used.erase (set.blockIndex cidr.addr)) := by
  refine (releaseCIDR_ok released).imp_right ?_
  rintro ⟨set, next, changes, near, used, releasedSet⟩
  have member := mem_sets_of_changes found changes
  obtain ⟨ownSet, ownMember, ownBlock⟩ := own
  obtain ⟨_, rfl⟩ := separate.eq_of_overlaps ownMember member ownBlock near
  have addressable := separate.addressable member
  rw [isAllocated_block ownBlock addressable] at used
  rw [release_block ownBlock addressable] at releasedSet
  cases releasedSet
  refine ⟨set, _, ownBlock, replaced_withAllocators found changes ?_⟩
  exact releaseIndex_becomes (separate.accounted member) (of_decide_eq_true (Option.some.inj used))

include found in
theorem sets_withAllocators_self : (allocator.withSets pool cidrPool family
    (cidrPool.allocators.of family).allocators).sets = allocator.sets := by
  funext otherPool otherFamily
  rw [sets_insert]
  split
  case isFalse _ => rfl
  case isTrue same =>
    subst same
    rw [sets_of_lookup found, CidrPool.withAllocators, Dual.of_set]
    split
    case isTrue same => rw [same]
    · rfl

include kept in
/-- Freeing a block that no allocation overlaps keeps what the allocator keeps. -/
theorem Kept.release (found : allocator.pools.lookup pool = some cidrPool)
    (own : ∃ set ∈ allocator.sets pool family, set.IsBlock cidr)
    (disjoint : ∀ {node pool family other}, allocator.nodes.Holds node pool family other →
      cidr.overlaps other = false)
    (released : Multipool.releaseCIDR cidr (cidrPool.allocators.of family).allocators =
      some (.ok changed)) : (allocator.withSets pool cidrPool family changed).Kept := by
  rcases release_cases kept.separate found own released with rfl | ⟨set, next, block, replaced⟩
  · exact kept.fewer (sets_withAllocators_self found) (maskOf_withAllocators _ found) le_rfl le_rfl
  · refine ⟨kept.separate.release replaced block disjoint,
      replaced.clear (kept.separate.apart _ _) kept.clear, ?_⟩
    exact uniform_of_replaced kept.separate kept.uniform replaced (maskOf_withAllocators _ found)

include kept in
theorem releaseCIDR_kept
    (released : allocator.releaseCIDR node pool cidr = some (later, error)) : later.Kept := by
  unfold releaseCIDR at released
  dsimp only at released
  split at released
  case isTrue _ =>
    cases released
    exact kept
  case isFalse allocated =>
    rw [not_eq_true, not_eq_false'] at allocated
    have held := isAllocated_iff.mp allocated
    split at released
    case h_1 =>
      cases released
      exact kept
    case h_2 cidrPool found =>
      split at released
      case h_1 => cases released
      case h_2 =>
        cases released
        exact kept
      case h_3 changed freed =>
        cases released
        obtain ⟨set, member, block, _⟩ := kept.separate.regular held
        obtain ⟨pools, orphans, nodes⟩ := @markReleased_spec cidr allocator node pool
        have without : (allocator.markReleased node pool cidr).Kept := by
          exact kept.fewer (sets_congr pools) (maskOf_congr pools)
            (fun _ _ _ _ held => (nodes.mp held).2) (orphans ▸ le_rfl)
        refine without.release found ⟨set, member, block⟩ ?_ freed
        intro otherNode otherPool otherFamily other stays
        obtain ⟨differ, before⟩ := nodes.mp stays
        refine Bool.eq_false_iff.mpr fun overlap => ?_
        obtain ⟨rfl, rfl, rfl⟩ := kept.separate.regular_unique held before overlap
        exact differ ⟨rfl, rfl, (kept.separate.regular_family before).symm, rfl⟩

variable {runtime : Runtime} {start : PoolAllocator}

theorem retainCIDRs_kept {retain : String → List CIDR} {start : Collecting} (kept : start.1.Kept)
    (retained : retainCIDRs runtime node retain start pool = some result) : result.1.Kept := by
  refine foldlM_invariant (fun state : Collecting => state.1.Kept) ?_ retained kept
  rintro ⟨allocator, errors⟩ ⟨family, cidr⟩ _ next before round
  dsimp only at round
  split at round
  · cases round
    exact before
  · obtain ⟨⟨freed, error⟩, released, rfl⟩ := map_eq_some_iff.mp round
    exact releaseCIDR_kept before released

include kept in
theorem releaseOrphanCIDR_kept : (allocator.releaseOrphanCIDR node pool cidr).Kept := by
  unfold releaseOrphanCIDR
  split
  · exact kept
  · unfold markReleasedOrphan
    dsimp only
    split
    · exact kept
    · refine kept.fewer rfl rfl le_rfl ?_
      intro otherNode otherPool otherFamily other held
      exact (holds_delete.mp (holds_cleanup.mp held)).2

theorem retainOrphanCIDRs_kept (runtime : Runtime) (retain : String → List CIDR)
    (kept : allocator.Kept) : (retainOrphanCIDRs runtime node retain allocator pool).Kept := by
  refine List.foldlRecOn _ _ kept fun allocator before visit _ => ?_
  dsimp only
  split
  · exact before
  · exact releaseOrphanCIDR_kept before

include kept in
/-- A call for a node whose report is reportable keeps what the allocator keeps. -/
theorem allocateToNode_kept {spec : IPAMPoolSpec}
    (reportable : ∀ allocation ∈ spec.allocated, ∀ cidr, some cidr ∈ allocation.cidrs →
      allocator.Reportable node allocation.pool cidr)
    (called : allocator.allocateToNode runtime node spec = some result) : result.1.Kept := by
  obtain ⟨restored, restoring, called⟩ := bind_eq_some_iff.mp called
  have keptRestored : restored.1.Kept := restoreCIDRs_kept restoring kept reportable
  obtain ⟨retained, retaining, called⟩ := bind_eq_some_iff.mp called
  have keptRetained : retained.1.Kept := by
    refine foldlM_invariant (fun state : Collecting => state.1.Kept) ?_ retaining keptRestored
    exact fun state pool _ next before round => retainCIDRs_kept before round
  have keptOrphans : ((retained.1.orphans.visitPools runtime.order node).foldl
      (retainOrphanCIDRs runtime node (allocatedSet spec.allocated)) retained.1).Kept :=
    List.foldlRecOn _ _ keptRetained fun allocator before pool _ =>
      retainOrphanCIDRs_kept runtime _ before
  dsimp only at called
  split at called
  · cases called
    exact keptOrphans
  · refine foldlM_invariant (fun state : Collecting => state.1.Kept) ?_ called keptOrphans
    intro state request _ next before round
    refine foldlM_invariant (fun state : Collecting => state.1.Kept) ?_ round before
    rintro ⟨allocator, errors⟩ family _ next before round
    unfold allocateFamily at round
    split at round
    · obtain ⟨⟨given, error⟩, allocated, rfl⟩ := map_eq_some_iff.mp round
      exact allocateLoop_kept _ _ before allocated
    · cases round
      exact before

include kept in
theorem Kept.erase (node : String) :
    ({ allocator with nodes := allocator.nodes.erase node } : PoolAllocator).Kept :=
  kept.fewer rfl rfl (fun _ _ _ _ held => (holds_erase.mp held).2) le_rfl

/-- The other nodes are kept apart, and the blocks of the node are still there. -/
structure Releases (start state : PoolAllocator) (node : String) : Prop where
  nodes : state.nodes = start.nodes
  kept : ({ state with nodes := state.nodes.erase node } : PoolAllocator).Kept
  own : ∀ {pool family cidr}, start.nodes.Holds node pool family cidr →
    ∃ set ∈ state.sets pool family, set.IsBlock cidr

theorem releasePool_releases {state : Collecting} (kept : start.Kept)
    (releases : Releases start state.1 node)
    (released : releasePool runtime node state pool = some result) :
    Releases start result.1 node := by
  unfold releasePool at released
  split at released
  · cases released
    exact releases
  · refine foldlM_invariant (fun state : Collecting => Releases start state.1 node) ?_ released
      releases
    rintro ⟨allocator, errors⟩ ⟨family, cidr⟩ visited next before round
    dsimp only at round before
    have held : start.nodes.Holds node pool family cidr := by
      rw [CidrSets.mem_visits, releases.nodes] at visited
      exact visited
    split at round
    · cases round
      exact before
    case h_2 cidrPool found =>
      split at round
      · cases round
      · cases round
        exact before
      case h_3 changed freed =>
        cases round
        have disjoint : ∀ {otherNode otherPool otherFamily other},
            Table.Holds (allocator.nodes.erase node) otherNode otherPool otherFamily other →
              cidr.overlaps other = false := by
          intro otherNode otherPool otherFamily other stays
          obtain ⟨differ, otherHeld⟩ := holds_erase.mp stays
          rw [before.nodes] at otherHeld
          refine Bool.eq_false_iff.mpr fun overlap => ?_
          exact differ (kept.separate.regular_unique held otherHeld overlap).1
        refine ⟨before.nodes, before.kept.release found (before.own held) disjoint freed, ?_⟩
        intro otherPool otherFamily other otherHeld
        obtain ⟨own, member, block⟩ := before.own otherHeld
        rcases release_cases before.kept.separate found (before.own held) freed with
          rfl | ⟨set, changedSet, _, replaced⟩
        · refine ⟨own, ?_, block⟩
          rw [sets_withAllocators_self found]
          exact member
        · by_cases same : otherPool = pool ∧ otherFamily = family ∧ own = set
          · obtain ⟨rfl, rfl, rfl⟩ := same
            exact ⟨changedSet, replaced.next_member, replaced.becomes.isBlock block⟩
          · exact ⟨own, replaced.mem_later member same, block⟩

include kept in
theorem releaseNode_kept
    (released : allocator.releaseNode runtime node = some result) : result.1.Kept := by
  obtain ⟨last, folded, rfl⟩ := map_eq_some_iff.mp released
  have start : Releases allocator allocator node := by
    refine ⟨rfl, kept.erase node, fun held => ?_⟩
    obtain ⟨set, member, block, _⟩ := kept.separate.regular held
    exact ⟨set, member, block⟩
  have releases := foldlM_invariant (fun state : Collecting => Releases allocator state.1 node)
    (fun state pool _ next before round => releasePool_releases kept before round) folded start
  exact releases.kept

/-! ### Deleting a pool -/

structure Orphans (start state : PoolAllocator) (name : String) : Prop where
  pools : state.pools = start.pools
  nodes : ∀ {node pool family cidr}, state.nodes.Holds node pool family cidr →
    start.nodes.Holds node pool family cidr
  orphans : ∀ {node pool family cidr}, state.orphans.Holds node pool family cidr →
    start.orphans.Holds node pool family cidr ∨
      start.nodes.Holds node pool family cidr ∧ pool = name

theorem orphanPool_orphans {name : String}
    (separate : Separate start.sets start.nodes start.orphans)
    (orphans : Orphans start allocator name)
    (moved : orphanPool runtime name allocator node = some later) :
    Orphans start later name ∧ (∀ family cidr, ¬later.nodes.Holds node name family cidr) ∧
      later.nodes.Holds ≤ allocator.nodes.Holds := by
  unfold orphanPool at moved
  split at moved
  case h_1 missing =>
    cases moved
    refine ⟨orphans, fun family cidr held => ?_, le_rfl⟩
    unfold Table.Holds Table.sets at held
    cases found : allocator.nodes.lookup node with
    | none =>
      rw [found] at held
      exact CidrSets.mem_keys_zero held
    | some pools =>
      rw [found] at held missing
      rw [getD_some, show pools.lookup name = none from missing] at held
      exact CidrSets.mem_keys_zero held
  case h_2 sets found =>
    have own : ∀ {family cidr}, cidr ∈ sets.keys family →
        allocator.nodes.Holds node name family cidr := by
      intro family cidr listed
      obtain ⟨pools, foundPools, foundSets⟩ := bind_eq_some_iff.mp found
      unfold Table.Holds
      rw [Table.sets_of_lookup foundPools, foundSets]
      exact listed
    have kept := foldlM_invariant (fun state : PoolAllocator => Orphans start state name ∧
        state.nodes = allocator.nodes.deletePool node name) ?_ moved ?_
    · refine ⟨kept.1, fun family cidr held => ?_, fun _ _ _ _ held => ?_⟩
      · rw [kept.2, holds_deletePool] at held
        exact held.1 ⟨rfl, rfl⟩
      · rw [kept.2, holds_deletePool] at held
        exact held.2
    · rintro state ⟨family, cidr⟩ visited next ⟨before, sameNodes⟩ round
      obtain ⟨pools, nodes, given⟩ := markOrphan_spec round
      have held := orphans.nodes (own (CidrSets.mem_visits.mp visited))
      refine ⟨⟨pools.trans before.pools, ?_, ?_⟩, nodes.trans sameNodes⟩
      · rw [nodes]
        exact before.nodes
      · intro otherNode otherPool otherFamily other orphaned
        rcases given.mp orphaned with ⟨rfl, rfl, rfl, rfl⟩ | earlier
        · refine .inr ⟨?_, rfl⟩
          rwa [separate.regular_family held]
        · exact before.orphans earlier
    · refine ⟨⟨orphans.pools, ?_, orphans.orphans⟩, rfl⟩
      exact fun held => orphans.nodes (holds_deletePool.mp held).2

include kept in
theorem deletePool_kept {name : String}
    (deleted : allocator.deletePool runtime name = some result) :
    result.1.Kept := by
  unfold deletePool at deleted
  split at deleted
  · cases deleted
    exact kept
  · obtain ⟨last, folded, rfl⟩ := map_eq_some_iff.mp deleted
    obtain ⟨orphans, gone, _⟩ := foldlM_each (fun state => Orphans allocator state name)
      (fun node state => ∀ family cidr, ¬state.nodes.Holds node name family cidr)
      (fun state node _ next before round => by
        obtain ⟨kept, settled, fewer⟩ := orphanPool_orphans kept.separate before round
        exact ⟨kept, settled, fun other done family cidr held =>
          done family cidr (fewer _ _ _ _ held)⟩)
      folded ⟨rfl, id, .inl⟩
    have sameSets : ∀ pool family, ({ last with pools := last.pools.erase name } :
        PoolAllocator).sets pool family =
          (allocator.sets pool family).filter fun _ => decide (pool ≠ name) := by
      intro pool family
      unfold sets
      rw [orphans.pools, GoMap.lookup_erase_if]
      by_cases same : pool = name <;> simp [same]
    have stay : ∀ {node pool family cidr}, last.nodes.Holds node pool family cidr →
        allocator.nodes.Holds node pool family cidr ∧ pool ≠ name := by
      intro node pool family cidr held
      have before := orphans.nodes held
      refine ⟨before, ?_⟩
      rintro rfl
      exact gone node (mem_visitNodes before) family cidr held
    have go : ∀ {node pool family cidr}, last.orphans.Holds node pool family cidr →
        allocator.orphans.Holds node pool family cidr ∨
          allocator.nodes.Holds node pool family cidr ∧ ∃ set ∈ allocator.sets pool family,
            set.IsBlock cidr ∧ decide (pool ≠ name) = false := by
      intro node pool family cidr orphaned
      refine (orphans.orphans orphaned).imp_right fun ⟨held, same⟩ => ⟨held, ?_⟩
      obtain ⟨set, member, block, _⟩ := kept.separate.regular held
      exact ⟨set, member, block, decide_eq_false (not_not_intro same)⟩
    obtain ⟨separate, clear⟩ := kept.separate.move (fun pool _ _ => decide (pool ≠ name)) kept.clear
      sameSets (fun held => (stay held).imp_right fun differ _ _ _ => decide_eq_true differ) go
    refine ⟨separate, clear, ?_⟩
    intro pool family set member
    rw [sameSets, mem_filter] at member
    unfold maskOf
    rw [orphans.pools, AList.lookup_erase_ne (of_decide_eq_true member.2)]
    exact kept.uniform member.1

end PoolAllocator

end Constellation.Multipool
