/-
This file states when the CIDRs that the nodes hold are kept apart by the sets they come from. The
sets of all pools are disjoint, a regular allocation is a block that is in use in a set of its
pool, and an orphan overlaps no set that has blocks, or else only a set of its own pool in which
its block is not in use: such an orphan can be reclaimed.
-/

import Constellation.Multipool.PoolAllocator

namespace Constellation.Ipam.CIDR

variable {cidr other : CIDR}

/-- CIDRs overlap exactly if they have an address in common. -/
theorem overlaps_iff_exists (cidr other : CIDR) :
    cidr.overlaps other = true ↔
      ∃ addr, cidr.contains addr = true ∧ other.contains addr = true := by
  constructor
  · intro both
    rw [overlaps, Bool.or_eq_true] at both
    rcases both with inside | inside
    · exact ⟨other.addr, inside, (contains_iff _ _).mpr ⟨rfl, rfl⟩⟩
    · exact ⟨cidr.addr, (contains_iff _ _).mpr ⟨rfl, rfl⟩, inside⟩
  · rintro ⟨addr, inside, inOther⟩
    exact overlaps_of_contains inside inOther

theorem overlaps_self (cidr : CIDR) : cidr.overlaps cidr = true :=
  (overlaps_iff_exists _ _).mpr
    ⟨cidr.addr, (contains_iff _ _).mpr ⟨rfl, rfl⟩, (contains_iff _ _).mpr ⟨rfl, rfl⟩⟩

theorem overlaps_masked (cidr other : CIDR) : cidr.masked.overlaps other = cidr.overlaps other := by
  rw [Bool.eq_iff_iff, overlaps_iff_exists, overlaps_iff_exists]
  simp only [contains_masked]

theorem family_eq_of_overlaps (both : cidr.overlaps other = true) :
    cidr.addr.family = other.addr.family := by
  obtain ⟨addr, inside, inOther⟩ := (overlaps_iff_exists _ _).mp both
  exact ((contains_iff _ _).mp inside).1.symm.trans ((contains_iff _ _).mp inOther).1

end Constellation.Ipam.CIDR

namespace Constellation.Multipool

open Ipam (Addr CIDR Family)
open Lib List Bool

abbrev Sets := String → Family → List CidrSet

namespace CidrSet

def Apart (set other : CidrSet) : Prop := set.clusterPrefix.overlaps other.clusterPrefix = false

instance : Std.Symm Apart where
  symm set other apart := by
    unfold Apart
    rwa [CIDR.overlaps_comm]

instance : Std.Irrefl Apart where
  irrefl set apart := by
    rw [Apart, CIDR.overlaps_self] at apart
    cases apart

theorem pairwise_of_clusters {before after : List CidrSet}
    (clusters : after.map (·.clusterPrefix) = before.map (·.clusterPrefix))
    (apart : before.Pairwise Apart) : after.Pairwise Apart := by
  have disjoint : (before.map (·.clusterPrefix)).Pairwise fun cidr other =>
      cidr.overlaps other = false := pairwise_map.mpr apart
  rwa [← clusters, pairwise_map] at disjoint

/-- A CIDR of the size of a block that overlaps a set with blocks is a block of it. -/
theorem isBlock_of_overlaps {set : CidrSet} (longer : set.clusterPrefix.bits ≤ set.nodeMaskSize)
    (bits : cidr.bits = set.nodeMaskSize) (both : set.clusterPrefix.overlaps cidr = true) :
    set.IsBlock cidr := by
  refine ⟨bits, longer, ?_⟩
  obtain ⟨addr, inside, inCidr⟩ := (CIDR.overlaps_iff_exists _ _).mp both
  refine (CIDR.contains_addr inCidr ?_).trans inside
  unfold CIDR.hostBits
  rw [CIDR.family_eq_of_overlaps both, bits]
  exact Nat.sub_le_sub_left longer _

end CidrSet

/-- It belongs to the pool of the orphan, which is a block of it that is not in use. -/
structure Reclaimable (set : CidrSet) (setPool orphanPool : String) (cidr : CIDR) : Prop where
  pool_eq : setPool = orphanPool
  block : set.IsBlock cidr
  unused : set.blockIndex cidr.addr ∉ set.used

/-- The CIDRs in two tables are kept apart by the sets of the pools. -/
structure Separate (sets : Sets) (nodes orphans : Table) : Prop where
  accounted : ∀ {pool family set}, set ∈ sets pool family → set.Accounted
  addressable : ∀ {pool family set}, set ∈ sets pool family → set.Addressable
  family_eq : ∀ {pool family set}, set ∈ sets pool family → set.clusterPrefix.addr.family = family
  apart : ∀ pool family, (sets pool family).Pairwise CidrSet.Apart
  poolsApart : ∀ {pool other family set otherSet}, pool ≠ other → set ∈ sets pool family →
    otherSet ∈ sets other family → set.Apart otherSet
  regular_family : ∀ {node pool family cidr}, nodes.Holds node pool family cidr →
    cidr.addr.family = family
  regular : ∀ {node pool family cidr}, nodes.Holds node pool family cidr →
    ∃ set ∈ sets pool family, set.IsBlock cidr ∧ set.blockIndex cidr.addr ∈ set.used
  regular_unique : ∀ {node pool family cidr otherNode otherPool otherFamily other},
    nodes.Holds node pool family cidr → nodes.Holds otherNode otherPool otherFamily other →
    cidr.overlaps other = true → otherNode = node ∧ otherPool = pool ∧ other = cidr
  orphan_family : ∀ {node pool family cidr}, orphans.Holds node pool family cidr →
    cidr.addr.family = family
  orphan : ∀ {node pool family cidr}, orphans.Holds node pool family cidr →
    ∀ {setPool set}, set ∈ sets setPool family → set.clusterPrefix.bits ≤ set.nodeMaskSize →
      set.clusterPrefix.overlaps cidr = true → Reclaimable set setPool pool cidr
  orphan_unique : ∀ {node pool family cidr otherNode otherPool otherFamily other},
    orphans.Holds node pool family cidr → orphans.Holds otherNode otherPool otherFamily other →
    cidr.overlaps other = true → otherNode = node ∧ otherPool = pool ∧ other = cidr

/-- No orphan overlaps a set that has blocks. -/
def Clear (sets : Sets) (orphans : Table) : Prop :=
  ∀ {node pool family cidr}, orphans.Holds node pool family cidr →
    ∀ {setPool set}, set ∈ sets setPool family → set.clusterPrefix.bits ≤ set.nodeMaskSize →
      set.clusterPrefix.overlaps cidr = false

namespace Separate

variable {sets later : Sets} {nodes nodesLater orphans orphansLater : Table}

variable (separate : Separate sets nodes orphans)
include separate

theorem eq_of_overlaps {pool other : String} {family : Family} {set otherSet : CidrSet}
    (member : set ∈ sets pool family) (otherMember : otherSet ∈ sets other family)
    (block : set.IsBlock cidr) (both : otherSet.clusterPrefix.overlaps cidr = true) :
    other = pool ∧ otherSet = set := by
  have overlap : set.clusterPrefix.overlaps otherSet.clusterPrefix = true :=
    block.overlaps (by rwa [CIDR.overlaps_comm])
  have same : other = pool := by
    by_contra differ
    have apart := separate.poolsApart (Ne.symm differ) member otherMember
    rw [CidrSet.Apart, overlap] at apart
    cases apart
  subst same
  refine ⟨rfl, ?_⟩
  by_contra differ
  have apart := (separate.apart other family).forall member otherMember (Ne.symm differ)
  rw [CidrSet.Apart, overlap] at apart
  cases apart

theorem regular_orphan {node pool otherNode otherPool : String} {family otherFamily : Family}
    (held : nodes.Holds node pool family cidr)
    (orphaned : orphans.Holds otherNode otherPool otherFamily other) :
    cidr.overlaps other = false := by
  refine Bool.eq_false_iff.mpr fun overlap => ?_
  have sameFamily : otherFamily = family := by
    rw [← separate.orphan_family orphaned, ← separate.regular_family held,
      CIDR.family_eq_of_overlaps overlap]
  subst sameFamily
  obtain ⟨set, member, block, used⟩ := separate.regular held
  have reclaimable := separate.orphan orphaned member block.longer (block.overlaps overlap)
  rw [(block.overlaps_iff reclaimable.block).mp overlap] at used
  exact reclaimable.unused used

theorem mono (fewer : nodesLater.Holds ≤ nodes.Holds)
    (fewerOrphans : orphansLater.Holds ≤ orphans.Holds) :
    Separate sets nodesLater orphansLater :=
  { separate with
    regular_family := fun held => separate.regular_family (fewer _ _ _ _ held)
    regular := fun held => separate.regular (fewer _ _ _ _ held)
    regular_unique := fun held other =>
      separate.regular_unique (fewer _ _ _ _ held) (fewer _ _ _ _ other)
    orphan_family := fun held => separate.orphan_family (fewerOrphans _ _ _ _ held)
    orphan := fun held => separate.orphan (fewerOrphans _ _ _ _ held)
    orphan_unique := fun held other =>
      separate.orphan_unique (fewerOrphans _ _ _ _ held) (fewerOrphans _ _ _ _ other) }

end Separate

/-! ### Changing one set -/

/-- One set of a pool is replaced by another with the same blocks. -/
structure Replaced (sets later : Sets) (pool : String) (family : Family) (set next : CidrSet)
    (used : Finset Nat) : Prop where
  split : ∃ before after, sets pool family = before ++ set :: after ∧
    later pool family = before ++ next :: after
  elsewhere : ∀ otherPool otherFamily, ¬(otherPool = pool ∧ otherFamily = family) →
    later otherPool otherFamily = sets otherPool otherFamily
  becomes : set.Becomes next used

namespace Replaced

variable {sets later : Sets} {nodes nodesLater orphans orphansLater : Table}
  {pool otherPool : String} {family otherFamily : Family} {set next other : CidrSet}
  {used : Finset Nat} {node : String} {cidr : CIDR}

section

variable (replaced : Replaced sets later pool family set next used)
include replaced

theorem member :
    set ∈ sets pool family := by
  obtain ⟨before, after, same, _⟩ := replaced.split
  rw [same]
  exact mem_append_right _ (.head _)

theorem next_member :
    next ∈ later pool family := by
  obtain ⟨before, after, _, same⟩ := replaced.split
  rw [same]
  exact mem_append_right _ (.head _)

theorem cases_later (apart : (sets pool family).Pairwise CidrSet.Apart)
    (member : other ∈ later otherPool otherFamily) :
    (otherPool = pool ∧ otherFamily = family ∧ other = next) ∨ (other ∈ sets otherPool otherFamily ∧
        ¬(otherPool = pool ∧ otherFamily = family ∧ other = set)) := by
  by_cases here : otherPool = pool ∧ otherFamily = family
  · obtain ⟨rfl, rfl⟩ := here
    obtain ⟨before, after, same, sameLater⟩ := replaced.split
    rw [sameLater, perm_middle.mem_iff, mem_cons] at member
    rw [same] at apart ⊢
    refine member.imp (fun isNext => ⟨rfl, rfl, isNext⟩) fun stays => ⟨?_, fun isSet => ?_⟩
    · exact perm_middle.mem_iff.mpr (.tail _ stays)
    · exact (nodup_cons.mp (nodup_middle.mp apart.nodup)).1 (isSet.2.2 ▸ stays)
  · rw [replaced.elsewhere _ _ here] at member
    exact .inr ⟨member, fun same => here ⟨same.1, same.2.1⟩⟩

theorem mem_later (member : other ∈ sets otherPool otherFamily)
    (differ : ¬(otherPool = pool ∧ otherFamily = family ∧ other = set)) :
    other ∈ later otherPool otherFamily := by
  by_cases here : otherPool = pool ∧ otherFamily = family
  · obtain ⟨rfl, rfl⟩ := here
    obtain ⟨before, after, same, sameLater⟩ := replaced.split
    rw [same, perm_middle.mem_iff, mem_cons] at member
    rw [sameLater, perm_middle.mem_iff]
    exact .tail _ (member.resolve_left fun isSet => differ ⟨rfl, rfl, isSet⟩)
  · rwa [replaced.elsewhere _ _ here]

theorem origin (apart : (sets pool family).Pairwise CidrSet.Apart)
    (member : other ∈ later otherPool otherFamily) :
    ∃ earlier ∈ sets otherPool otherFamily, other.clusterPrefix = earlier.clusterPrefix ∧
      other.nodeMaskSize = earlier.nodeMaskSize := by
  rcases replaced.cases_later apart member with ⟨rfl, rfl, rfl⟩ | ⟨before, _⟩
  · exact ⟨set, replaced.member, replaced.becomes.clusterPrefix, replaced.becomes.nodeMaskSize⟩
  · exact ⟨other, before, rfl, rfl⟩

theorem pairwise
    (apart : ∀ pool family, (sets pool family).Pairwise CidrSet.Apart) (otherPool : String)
    (otherFamily : Family) : (later otherPool otherFamily).Pairwise CidrSet.Apart := by
  by_cases here : otherPool = pool ∧ otherFamily = family
  · obtain ⟨rfl, rfl⟩ := here
    obtain ⟨before, after, same, sameLater⟩ := replaced.split
    refine CidrSet.pairwise_of_clusters ?_ (apart otherPool otherFamily)
    simp [same, sameLater, replaced.becomes.clusterPrefix]
  · rw [replaced.elsewhere _ _ here]
    exact apart otherPool otherFamily

/-- No orphan comes to overlap a set by a change of the blocks in use. -/
theorem clear (apart : (sets pool family).Pairwise CidrSet.Apart) (clear : Clear sets orphans) :
    Clear later orphans := by
  intro node orphanPool family cidr orphaned setPool other member longer
  obtain ⟨earlier, before, samePrefix, sameMask⟩ := replaced.origin apart member
  rw [samePrefix, sameMask] at longer
  rw [samePrefix]
  exact clear orphaned before longer

end

end Replaced

namespace Separate

variable {sets later : Sets} {nodes nodesLater orphans orphansLater : Table}
  {node pool : String} {family : Family} {set next : CidrSet} {cidr : CIDR}

section

variable (separate : Separate sets nodes orphans)
include separate

/-- A change of the blocks in use in one set keeps the CIDRs apart if the allocations keep their
blocks, different CIDRs stay disjoint, and the block of no orphan comes into use. -/
theorem replace {used : Finset Nat} (replaced : Replaced sets later pool family set next used)
    (regular_family : ∀ {node pool family cidr}, nodesLater.Holds node pool family cidr →
      cidr.addr.family = family) (regular : ∀ {node otherPool otherFamily cidr},
      nodesLater.Holds node otherPool otherFamily cidr →
      ∃ other ∈ later otherPool otherFamily, other.IsBlock cidr ∧
        other.blockIndex cidr.addr ∈ other.used)
    (unique : ∀ {node pool family cidr otherNode otherPool otherFamily other},
      nodesLater.Holds node pool family cidr →
      nodesLater.Holds otherNode otherPool otherFamily other →
      cidr.overlaps other = true → otherNode = node ∧ otherPool = pool ∧ other = cidr)
    (fewerOrphans : ∀ {node pool family cidr}, orphansLater.Holds node pool family cidr →
      orphans.Holds node pool family cidr)
    (unused : ∀ {node orphanPool cidr}, orphansLater.Holds node orphanPool family cidr →
      set.IsBlock cidr → set.blockIndex cidr.addr ∉ set.used → set.blockIndex cidr.addr ∉ used) :
    Separate later nodesLater orphansLater where
  accounted := by
    intro otherPool otherFamily other member
    rcases replaced.cases_later (separate.apart _ _) member with ⟨_, _, rfl⟩ | ⟨before, _⟩
    · exact replaced.becomes.accounted
    · exact separate.accounted before
  addressable := by
    intro otherPool otherFamily other member
    rcases replaced.cases_later (separate.apart _ _) member with ⟨_, _, rfl⟩ | ⟨before, _⟩
    · exact replaced.becomes.addressable (separate.addressable replaced.member)
    · exact separate.addressable before
  family_eq := by
    intro otherPool otherFamily other member
    obtain ⟨earlier, before, samePrefix, _⟩ := replaced.origin (separate.apart _ _) member
    rw [samePrefix]
    exact separate.family_eq before
  apart := replaced.pairwise separate.apart
  poolsApart := by
    intro first second otherFamily one two differ member otherMember
    obtain ⟨earlier, before, samePrefix, _⟩ := replaced.origin (separate.apart _ _) member
    obtain ⟨otherEarlier, otherBefore, otherSame, _⟩ :=
      replaced.origin (separate.apart _ _) otherMember
    unfold CidrSet.Apart
    rw [samePrefix, otherSame]
    exact separate.poolsApart differ before otherBefore
  regular_family := regular_family
  regular := regular
  regular_unique := unique
  orphan_family orphaned := separate.orphan_family (fewerOrphans orphaned)
  orphan := by
    intro node orphanPool otherFamily cidr orphaned setPool other member longer overlap
    rcases replaced.cases_later (separate.apart _ _) member with ⟨rfl, rfl, rfl⟩ | ⟨before, _⟩
    · have samePrefix := replaced.becomes.clusterPrefix
      rw [samePrefix, replaced.becomes.nodeMaskSize] at longer
      rw [samePrefix] at overlap
      have reclaimable := separate.orphan (fewerOrphans orphaned) replaced.member longer overlap
      refine ⟨reclaimable.pool_eq, replaced.becomes.isBlock reclaimable.block, ?_⟩
      rw [replaced.becomes.blockIndex, replaced.becomes.used]
      exact unused orphaned reclaimable.block reclaimable.unused
    · exact separate.orphan (fewerOrphans orphaned) before longer overlap
  orphan_unique held other :=
    separate.orphan_unique (fewerOrphans held) (fewerOrphans other)

/-- A block that was not in use is taken and given to a node. An orphan that it was is no longer
one. -/
theorem take (replaced : Replaced sets later pool cidr.addr.family set next
      (insert (set.blockIndex cidr.addr) set.used)) (block : set.IsBlock cidr)
    (unused : set.blockIndex cidr.addr ∉ set.used) (given : nodes.Gains nodesLater node pool cidr)
    (fewerOrphans : ∀ {node pool family other}, orphansLater.Holds node pool family other →
      orphans.Holds node pool family other ∧ cidr.overlaps other = false) :
    Separate later nodesLater orphansLater := by
  have disjoint : ∀ {otherNode otherPool otherFamily other},
      nodes.Holds otherNode otherPool otherFamily other → cidr.overlaps other = false := by
    intro otherNode otherPool otherFamily other held
    refine Bool.eq_false_iff.mpr fun overlap => ?_
    have sameFamily : otherFamily = cidr.addr.family := by
      rw [← separate.regular_family held, CIDR.family_eq_of_overlaps overlap]
    subst sameFamily
    obtain ⟨otherSet, member, otherBlock, used⟩ := separate.regular held
    have around : set.clusterPrefix.overlaps other = true := block.overlaps overlap
    obtain ⟨rfl, rfl⟩ := separate.eq_of_overlaps member replaced.member otherBlock around
    rw [← (block.overlaps_iff otherBlock).mp overlap] at used
    exact unused used
  refine separate.replace replaced ?_ ?_ ?_ (fun held => (fewerOrphans held).1) ?_
  · intro otherNode otherPool otherFamily other held
    rcases given.mp held with ⟨_, _, rfl, rfl⟩ | before
    · rfl
    · exact separate.regular_family before
  · intro otherNode otherPool otherFamily other held
    rcases given.mp held with ⟨_, rfl, rfl, rfl⟩ | before
    · refine ⟨next, replaced.next_member, replaced.becomes.isBlock block, ?_⟩
      rw [replaced.becomes.blockIndex, replaced.becomes.used]
      exact Finset.mem_insert_self _ _
    · obtain ⟨otherSet, member, otherBlock, used⟩ := separate.regular before
      by_cases same : otherPool = pool ∧ otherFamily = cidr.addr.family ∧ otherSet = set
      · obtain ⟨rfl, rfl, rfl⟩ := same
        refine ⟨next, replaced.next_member, replaced.becomes.isBlock otherBlock, ?_⟩
        rw [replaced.becomes.blockIndex, replaced.becomes.used]
        exact Finset.mem_insert_of_mem used
      · exact ⟨otherSet, replaced.mem_later member same, otherBlock, used⟩
  · intro firstNode firstPool firstFamily first secondNode secondPool secondFamily second held
      otherHeld overlap
    rcases given.mp held with ⟨rfl, rfl, rfl, rfl⟩ | before
    · rcases given.mp otherHeld with ⟨rfl, rfl, _, rfl⟩ | otherBefore
      · exact ⟨rfl, rfl, rfl⟩
      · rw [disjoint otherBefore] at overlap
        cases overlap
    · rcases given.mp otherHeld with ⟨rfl, rfl, rfl, rfl⟩ | otherBefore
      · rw [CIDR.overlaps_comm, disjoint before] at overlap
        cases overlap
      · exact separate.regular_unique before otherBefore overlap
  · intro otherNode orphanPool other orphaned otherBlock otherUnused used
    rcases Finset.mem_insert.mp used with same | before
    · have overlap := (block.overlaps_iff otherBlock).mpr same.symm
      rw [(fewerOrphans orphaned).2] at overlap
      cases overlap
    · exact otherUnused before

/-- A block is freed that no remaining allocation overlaps. -/
theorem release (replaced : Replaced sets later pool family set next
      (set.used.erase (set.blockIndex cidr.addr))) (block : set.IsBlock cidr)
    (disjoint : ∀ {node pool family other}, nodes.Holds node pool family other →
      cidr.overlaps other = false) : Separate later nodes orphans := by
  refine separate.replace replaced separate.regular_family ?_ separate.regular_unique id ?_
  · intro otherNode otherPool otherFamily other held
    obtain ⟨otherSet, member, otherBlock, used⟩ := separate.regular held
    by_cases same : otherPool = pool ∧ otherFamily = family ∧ otherSet = set
    · obtain ⟨rfl, rfl, rfl⟩ := same
      refine ⟨next, replaced.next_member, replaced.becomes.isBlock otherBlock, ?_⟩
      rw [replaced.becomes.blockIndex, replaced.becomes.used, Finset.mem_erase]
      refine ⟨fun same => ?_, used⟩
      have overlap := (block.overlaps_iff otherBlock).mpr same.symm
      rw [disjoint held] at overlap
      cases overlap
    · exact ⟨otherSet, replaced.mem_later member same, otherBlock, used⟩
  · exact fun _ _ otherUnused used => otherUnused (Finset.mem_of_mem_erase used)

end

/-! ### Removing and adding sets -/

/-- The allocations of sets that are removed become orphans. They overlap none of the sets that
stay. -/
theorem move (keep : String → Family → CidrSet → Bool) (separate : Separate sets nodes orphans)
    (clear : Clear sets orphans)
    (same : ∀ pool family, later pool family = (sets pool family).filter (keep pool family))
    (stay : ∀ {node pool family cidr}, nodesLater.Holds node pool family cidr →
      nodes.Holds node pool family cidr ∧ ∀ set ∈ sets pool family, set.IsBlock cidr →
        keep pool family set = true)
    (go : ∀ {node pool family cidr}, orphansLater.Holds node pool family cidr →
      orphans.Holds node pool family cidr ∨ nodes.Holds node pool family cidr ∧
        ∃ set ∈ sets pool family, set.IsBlock cidr ∧ keep pool family set = false) :
    Separate later nodesLater orphansLater ∧ Clear later orphansLater := by
  have mem_later : ∀ {pool family set}, set ∈ later pool family ↔
      set ∈ sets pool family ∧ keep pool family set = true := by
    intro pool family set
    rw [same, mem_filter]
  have clearLater : Clear later orphansLater := by
    intro node pool family cidr orphaned setPool set member longer
    rw [mem_later] at member
    rcases go orphaned with already | ⟨_, own, ownMember, block, gone⟩
    · exact clear already member.1 longer
    · refine Bool.eq_false_iff.mpr fun overlap => ?_
      obtain ⟨rfl, rfl⟩ := separate.eq_of_overlaps ownMember member.1 block overlap
      rw [member.2] at gone
      cases gone
  refine ⟨⟨fun member => separate.accounted (mem_later.mp member).1,
    fun member => separate.addressable (mem_later.mp member).1,
    fun member => separate.family_eq (mem_later.mp member).1, ?_,
    fun differ member other =>
      separate.poolsApart differ (mem_later.mp member).1 (mem_later.mp other).1,
    fun held => separate.regular_family (stay held).1, ?_,
    fun held other => separate.regular_unique (stay held).1 (stay other).1, ?_, ?_, ?_⟩, clearLater⟩
  · intro pool family
    rw [same]
    exact (separate.apart pool family).filter _
  · intro node pool family cidr held
    obtain ⟨set, member, block, used⟩ := separate.regular (stay held).1
    exact ⟨set, mem_later.mpr ⟨member, (stay held).2 set member block⟩, block, used⟩
  · intro node pool family cidr orphaned
    rcases go orphaned with already | ⟨held, _⟩
    · exact separate.orphan_family already
    · exact separate.regular_family held
  · intro node pool family cidr orphaned setPool set member longer overlap
    rw [clearLater orphaned member longer] at overlap
    cases overlap
  · intro node pool family cidr otherNode otherPool otherFamily other orphaned otherOrphaned overlap
    rcases go orphaned with already | ⟨held, _⟩
    · rcases go otherOrphaned with otherAlready | ⟨otherHeld, _⟩
      · exact separate.orphan_unique already otherAlready overlap
      · rw [CIDR.overlaps_comm, separate.regular_orphan otherHeld already] at overlap
        cases overlap
    · rcases go otherOrphaned with otherAlready | ⟨otherHeld, _⟩
      · rw [separate.regular_orphan held otherAlready] at overlap
        cases overlap
      · exact separate.regular_unique held otherHeld overlap

/-- The sets of the pools keep their blocks in use, and sets without a block in use are added. An
orphan that overlaps an added set has to be a block of its own pool. -/
theorem restock (separate : Separate sets nodes orphans)
    (sound : ∀ {pool family set}, set ∈ later pool family →
      set.Accounted ∧ set.Addressable ∧ set.clusterPrefix.addr.family = family)
    (apart : ∀ pool family, (later pool family).Pairwise CidrSet.Apart)
    (poolsApart : ∀ {pool other family set otherSet}, pool ≠ other → set ∈ later pool family →
      otherSet ∈ later other family → set.Apart otherSet)
    (kept : ∀ {pool family set}, set ∈ sets pool family →
      ∃ next ∈ later pool family, set.Becomes next set.used)
    (origin : ∀ {pool family next}, next ∈ later pool family →
      (∃ set ∈ sets pool family, set.Becomes next set.used) ∨
        next.used = ∅ ∧ ∀ {node orphanPool cidr}, orphans.Holds node orphanPool family cidr →
          next.clusterPrefix.bits ≤ next.nodeMaskSize → next.clusterPrefix.overlaps cidr = true →
            pool = orphanPool ∧ cidr.bits = next.nodeMaskSize) :
    Separate later nodes orphans := by
  refine { separate with
    accounted := fun member => (sound member).1
    addressable := fun member => (sound member).2.1
    family_eq := fun member => (sound member).2.2
    apart := apart
    poolsApart := poolsApart
    regular := ?_
    orphan := ?_ }
  · intro node pool family cidr held
    obtain ⟨set, member, block, used⟩ := separate.regular held
    obtain ⟨next, nextMember, becomes⟩ := kept member
    refine ⟨next, nextMember, becomes.isBlock block, ?_⟩
    rwa [becomes.blockIndex, becomes.used]
  · intro node pool family cidr orphaned setPool next member longer overlap
    rcases origin member with ⟨set, before, becomes⟩ | ⟨empty, reclaimed⟩
    · rw [becomes.clusterPrefix, becomes.nodeMaskSize] at longer
      rw [becomes.clusterPrefix] at overlap
      have reclaimable := separate.orphan orphaned before longer overlap
      refine ⟨reclaimable.pool_eq, becomes.isBlock reclaimable.block, ?_⟩
      rw [becomes.blockIndex, becomes.used]
      exact reclaimable.unused
    · obtain ⟨own, bits⟩ := reclaimed orphaned longer overlap
      refine ⟨own, CidrSet.isBlock_of_overlaps longer bits overlap, ?_⟩
      rw [empty]
      exact Finset.notMem_empty _

end Separate

end Constellation.Multipool
