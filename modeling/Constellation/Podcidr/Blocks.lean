/-
This file proves what a set makes of a CIDR that is a union of its blocks: the blocks between the
bounds computed for it are those that lie in it. A set refines the set of the blocks of its
cluster, unless there are too many of them for an index of 32 bits.
-/
import Constellation.Lib.Run
import Constellation.Podcidr.Manager

namespace Constellation.Podcidr

open Ipam (Addr CIDR Family)
open Multipool (CidrSet Dual)
open Lib List Finset

def LiesIn (block cidr : CIDR) : Prop :=
  cidr.bits ≤ block.bits ∧ cidr.contains block.addr = true
  deriving Decidable

/-- A CIDR within a cluster CIDR that is a union of blocks. -/
structure IsUnion (clusterPrefix : CIDR) (nodeMaskSize : Nat) (cidr : CIDR) : Prop where
  masked : cidr.masked = cidr
  wider : clusterPrefix.bits ≤ cidr.bits
  whole : cidr.bits ≤ nodeMaskSize
  inside : clusterPrefix.contains cidr.addr = true

instance (clusterPrefix : CIDR) (nodeMaskSize : Nat) (cidr : CIDR) :
    Decidable (IsUnion clusterPrefix nodeMaskSize cidr) :=
  decidable_of_iff (cidr.masked = cidr ∧ clusterPrefix.bits ≤ cidr.bits ∧
      cidr.bits ≤ nodeMaskSize ∧ clusterPrefix.contains cidr.addr = true)
    ⟨fun all => ⟨all.1, all.2.1, all.2.2.1, all.2.2.2⟩,
      fun union => ⟨union.masked, union.wider, union.whole, union.inside⟩⟩

/-- A CIDR is a union of blocks of a set. -/
abbrev Covers (set : CidrSet) (cidr : CIDR) : Prop :=
  IsUnion set.clusterPrefix set.nodeMaskSize cidr

variable {set : CidrSet} {cidr : CIDR} {index : Nat} {addr : Addr}

namespace Covers

section

variable (covers : Covers set cidr)
include covers

theorem longer : set.clusterPrefix.bits ≤ set.nodeMaskSize :=
  covers.wider.trans covers.whole

theorem family_eq :
    cidr.addr.family = set.clusterPrefix.addr.family :=
  ((CIDR.contains_iff _ _).mp covers.inside).1

theorem network_eq : cidr.network = cidr.addr.value :=
  congrArg (fun cidr : CIDR => cidr.addr.value) covers.masked

theorem blockBits_le : set.blockBits ≤ cidr.hostBits := by
  have whole := covers.whole
  unfold CidrSet.blockBits CIDR.hostBits
  rw [covers.family_eq]
  omega

theorem hostBits_le : cidr.hostBits ≤ set.clusterPrefix.hostBits := by
  have wider := covers.wider
  unfold CIDR.hostBits
  rw [covers.family_eq]
  omega

theorem inRange : set.inRange cidr = true := by
  rw [CidrSet.inRange, covers.inside, Bool.true_or]

/-- The number of a block of the set lies between the bounds of the CIDR exactly if the block lies
in the CIDR. -/
theorem liesIn_iff (inside : index < set.maxCIDRs) :
    LiesIn (set.indexToCIDRBlock index) cidr ↔
      cidr.addr.value ≤ set.clusterPrefix.addr.value + index * 2 ^ set.blockBits ∧
      set.clusterPrefix.addr.value + index * 2 ^ set.blockBits
        < cidr.addr.value + 2 ^ cidr.hostBits := by
  have family : (set.indexToCIDRBlock index).addr.family = cidr.addr.family :=
    covers.family_eq.symm
  rw [LiesIn, CIDR.contains_iff_between, covers.network_eq, CidrSet.value_indexToCIDRBlock inside]
  exact ⟨fun lies => lies.2.2, fun between => ⟨covers.whole, family, between⟩⟩

/-- The bounds of the CIDR in units of blocks. -/
theorem units :
    ∃ first count, 0 < count ∧ first + count ≤ set.maxCIDRs ∧
      cidr.addr.value = set.clusterPrefix.addr.value + first * 2 ^ set.blockBits ∧
      2 ^ cidr.hostBits = count * 2 ^ set.blockBits := by
  have total := CidrSet.maxCIDRs_mul covers.longer
  obtain ⟨_, above, below⟩ := CidrSet.value_between covers.inside
  obtain ⟨start, isStart⟩ := set.hostBits_dvd
  have blocks : 2 ^ cidr.hostBits = 2 ^ (cidr.hostBits - set.blockBits) * 2 ^ set.blockBits := by
    rw [← Nat.pow_add, Nat.sub_add_cancel covers.blockBits_le]
  have parts : 2 ^ set.clusterPrefix.hostBits
      = 2 ^ (set.clusterPrefix.hostBits - cidr.hostBits) * 2 ^ cidr.hostBits := by
    rw [← Nat.pow_add, Nat.sub_add_cancel covers.hostBits_le]
  generalize 2 ^ (set.clusterPrefix.hostBits - cidr.hostBits) = split at parts
  have isValue : cidr.addr.value = cidr.addr.value / 2 ^ cidr.hostBits * 2 ^ cidr.hostBits :=
    covers.network_eq.symm
  generalize cidr.addr.value / 2 ^ cidr.hostBits = part at isValue
  have isCluster : set.clusterPrefix.addr.value = split * start * 2 ^ cidr.hostBits := by
    rw [isStart, parts, Nat.mul_right_comm]
  have position : cidr.addr.value - set.clusterPrefix.addr.value
      = (part - split * start) * 2 ^ cidr.hostBits := by
    rw [isValue, isCluster, Nat.sub_mul]
  have positive := Nat.two_pow_pos cidr.hostBits
  rw [position, parts, Nat.mul_lt_mul_right positive] at below
  refine ⟨(part - split * start) * 2 ^ (cidr.hostBits - set.blockBits), _, Nat.two_pow_pos _, ?_,
    ?_, blocks⟩
  · rw [← Nat.succ_mul]
    refine Nat.le_of_mul_le_mul_right ?_ (Nat.two_pow_pos set.blockBits)
    rw [total, parts, Nat.mul_assoc, ← blocks]
    exact Nat.mul_le_mul_right _ below
  · rw [Nat.mul_assoc, ← blocks, ← position, Nat.add_sub_cancel' above]

theorem getIndexForAddr (addressable : set.Addressable) (family : addr.family = cidr.addr.family)
    (inside : index < set.maxCIDRs) {rest : Nat}
    (isValue : addr.value = set.clusterPrefix.addr.value + (index * 2 ^ set.blockBits + rest))
    (small : rest < 2 ^ set.blockBits) : set.getIndexForAddr (set.blockAddr addr) = some index := by
  have size := Nat.two_pow_pos set.blockBits
  have total := CidrSet.maxCIDRs_mul covers.longer
  have below : index * 2 ^ set.blockBits + rest < 2 ^ set.clusterPrefix.hostBits := by
    have next := Nat.mul_le_mul_right (2 ^ set.blockBits) (Nat.succ_le_of_lt inside)
    rw [Nat.succ_mul, total] at next
    exact (Nat.add_lt_add_left small _).trans_le next
  have contained : set.clusterPrefix.contains addr = true := by
    rw [CIDR.contains_iff_between, CidrSet.network_clusterPrefix, isValue]
    exact ⟨family.trans covers.family_eq, Nat.le_add_right _ _, Nat.add_lt_add_left below _⟩
  have block : set.IsBlock ⟨addr, set.nodeMaskSize, family.trans covers.family_eq ▸ set.mask_le⟩ :=
    ⟨rfl, covers.longer, contained⟩
  rw [block.getIndexForAddr addressable rfl rfl, CidrSet.blockIndex, isValue,
    Nat.add_sub_cancel_left, Nat.mul_comm, Nat.mul_add_div size, Nat.div_eq_of_lt small,
    Nat.add_zero]

/-- The blocks of a CIDR are those that lie in it. -/
theorem getBeginningAndEndIndices (addressable : set.Addressable) :
    ∃ bounds, set.getBeginningAndEndIndices cidr = some bounds ∧ ∀ index,
      index ∈ CidrSet.span bounds ↔
        index < set.maxCIDRs ∧ LiesIn (set.indexToCIDRBlock index) cidr := by
  obtain ⟨first, count, positive, within, isValue, isSize⟩ := covers.units
  have size := Nat.two_pow_pos set.blockBits
  have between : ∀ index, index < set.maxCIDRs →
      (LiesIn (set.indexToCIDRBlock index) cidr ↔ first ≤ index ∧ index < first + count) := by
    intro index inside
    rw [covers.liesIn_iff inside, isValue, isSize, Nat.add_assoc, ← Nat.add_mul,
      Nat.add_le_add_iff_left, Nat.add_lt_add_iff_left, Nat.mul_le_mul_right_iff size,
      Nat.mul_lt_mul_right size]
  refine ⟨(first, first + count), ?_, fun index => ?_⟩
  · unfold CidrSet.getBeginningAndEndIndices
    rw [covers.inRange, Bool.not_true, if_neg Bool.false_ne_true]
    split
    · have last : (CidrSet.lastIP cidr).value = set.clusterPrefix.addr.value
          + ((first + count - 1) * 2 ^ set.blockBits + (2 ^ set.blockBits - 1)) := by
        show cidr.network + (2 ^ cidr.hostBits - 1) = _
        have next : first * 2 ^ set.blockBits + count * 2 ^ set.blockBits
            = (first + count - 1) * 2 ^ set.blockBits + 2 ^ set.blockBits := by
          rw [← Nat.add_mul, ← Nat.succ_mul, Nat.succ_eq_add_one, Nat.sub_add_cancel]
          exact Nat.le_add_left_of_le positive
        have some := Nat.mul_pos positive size
        rw [covers.network_eq, isValue, isSize]
        omega
      have family : (CidrSet.lastIP cidr).family = cidr.addr.family := rfl
      rw [covers.getIndexForAddr addressable rfl (by omega) isValue size,
        covers.getIndexForAddr addressable family (by omega) last (by omega)]
      have next : first + count - 1 + 1 = first + count := by omega
      show some (first, first + count - 1 + 1) = _
      rw [next]
    case isFalse shorter =>
      have same : cidr.hostBits = set.clusterPrefix.hostBits := by
        unfold CIDR.hostBits
        rw [covers.family_eq, Nat.le_antisymm (Nat.not_lt.mp shorter) covers.wider]
      have all : count = set.maxCIDRs := by
        rw [same, ← CidrSet.maxCIDRs_mul covers.longer] at isSize
        exact (Nat.eq_of_mul_eq_mul_right size isSize).symm
      have start : first = 0 := by omega
      rw [start, all, Nat.zero_add]
  · rw [CidrSet.span, mem_range'_1]
    constructor
    · intro member
      have inside : index < set.maxCIDRs := by omega
      exact ⟨inside, (between index inside).mpr ⟨member.1, by omega⟩⟩
    · intro lies
      have bounds := (between index lies.1).mp lies.2
      omega

end

end Covers

/-! ### Blocks that come into use and are released -/

def blocksIn (set : CidrSet) (cidr : CIDR) : Finset Nat :=
  (Finset.range set.maxCIDRs).filter fun index => LiesIn (set.indexToCIDRBlock index) cidr

theorem mem_blocksIn : index ∈ blocksIn set cidr ↔
    index < set.maxCIDRs ∧ LiesIn (set.indexToCIDRBlock index) cidr := by
  rw [blocksIn, Finset.mem_filter, Finset.mem_range]

/-- The blocks between the bounds that are computed for a CIDR are blocks of the set. -/
theorem lt_of_mem_span {bounds : Nat × Nat}
    (isBounds : set.getBeginningAndEndIndices cidr = some bounds)
    (member : index ∈ CidrSet.span bounds) : index < set.maxCIDRs := by
  have within := mem_range'_1.mp member
  suffices bounds.2 ≤ set.maxCIDRs by omega
  unfold CidrSet.getBeginningAndEndIndices at isBounds
  split at isBounds
  · cases isBounds
  · split at isBounds
    · split at isBounds
      case h_1 first last _ isLast =>
        cases isBounds
        exact CidrSet.getIndexForAddr_lt isLast
      · cases isBounds
    · cases isBounds
      exact le_refl _

theorem foldl_occupyIndex (accounted : set.Accounted) (indices : List Nat)
    (inside : ∀ index ∈ indices, index < set.maxCIDRs) :
    set.Becomes (indices.foldl CidrSet.occupyIndex set) (set.used ∪ indices.toFinset) := by
  induction indices generalizing set with
  | nil =>
    rw [toFinset_nil, union_empty]
    exact CidrSet.Becomes.refl accounted
  | cons index rest inductionHypothesis =>
    have first : set.Becomes (set.occupyIndex index) (insert index set.used) := by
      by_cases used : index ∈ set.used
      · rw [insert_eq_of_mem used, CidrSet.occupyIndex, if_pos used]
        exact CidrSet.Becomes.refl accounted
      · exact CidrSet.occupyIndex_becomes accounted (inside index (.head _)) used
    have others : ∀ other ∈ rest, other < (set.occupyIndex index).maxCIDRs := by
      intro other member
      rw [first.maxCIDRs]
      exact inside other (.tail _ member)
    have later := first.trans (inductionHypothesis first.accounted others)
    rw [first.used, insert_union, ← union_insert, ← toFinset_cons] at later
    exact later

theorem foldl_releaseIndex (accounted : set.Accounted) (indices : List Nat) :
    set.Becomes (indices.foldl CidrSet.releaseIndex set) (set.used \ indices.toFinset) := by
  induction indices generalizing set with
  | nil =>
    rw [toFinset_nil, sdiff_empty]
    exact CidrSet.Becomes.refl accounted
  | cons index rest inductionHypothesis =>
    have first : set.Becomes (set.releaseIndex index) (set.used.erase index) := by
      by_cases used : index ∈ set.used
      · exact CidrSet.releaseIndex_becomes accounted used
      · rw [erase_eq_of_notMem used, CidrSet.releaseIndex, if_neg used]
        exact CidrSet.Becomes.refl accounted
    have later := first.trans (inductionHypothesis first.accounted)
    rw [first.used, erase_sdiff_comm, ← sdiff_insert, ← toFinset_cons] at later
    exact later

namespace Covers

section

variable (covers : Covers set cidr) (addressable : set.Addressable)
include covers addressable

/-- The blocks between the bounds of a CIDR are those that lie in it. -/
theorem exists_bounds :
    ∃ bounds, set.getBeginningAndEndIndices cidr = some bounds ∧
      (CidrSet.span bounds).toFinset = blocksIn set cidr := by
  obtain ⟨bounds, isBounds, member⟩ := covers.getBeginningAndEndIndices addressable
  refine ⟨bounds, isBounds, ?_⟩
  ext index
  rw [mem_toFinset, member, mem_blocksIn]

/-- A CIDR is allocated if all its blocks are in use. -/
theorem isAllocated :
    set.isAllocated cidr = some (decide (blocksIn set cidr ⊆ set.used)) := by
  obtain ⟨bounds, isBounds, blocks⟩ := covers.exists_bounds addressable
  rw [CidrSet.isAllocated, isBounds, Option.map_some, Option.some_inj, Bool.eq_iff_iff,
    all_eq_true, decide_eq_true_eq, ← blocks]
  simp only [decide_eq_true_eq, subset_iff, mem_toFinset]

theorem occupy (accounted : set.Accounted) :
    ∃ later, set.occupy cidr = some later ∧ set.Becomes later (set.used ∪ blocksIn set cidr) := by
  obtain ⟨bounds, isBounds, blocks⟩ := covers.exists_bounds addressable
  refine ⟨(CidrSet.span bounds).foldl CidrSet.occupyIndex set, ?_, ?_⟩
  · rw [CidrSet.occupy, isBounds, Option.map_some]
  · rw [← blocks]
    exact foldl_occupyIndex accounted _ fun _ => lt_of_mem_span isBounds

theorem release (accounted : set.Accounted) :
    ∃ later, set.release cidr = some later ∧ set.Becomes later (set.used \ blocksIn set cidr) := by
  obtain ⟨bounds, isBounds, blocks⟩ := covers.exists_bounds addressable
  refine ⟨(CidrSet.span bounds).foldl CidrSet.releaseIndex set, ?_, ?_⟩
  · rw [CidrSet.release, isBounds, Option.map_some]
  · rw [← blocks]
    exact foldl_releaseIndex accounted _

end

theorem ofIndex (inside : index < set.maxCIDRs) : Covers set (set.indexToCIDRBlock index) := by
  obtain ⟨block, _⟩ := CidrSet.isBlock_indexToCIDRBlock inside
  refine ⟨?_, block.longer, le_refl _, block.inside⟩
  have aligned : 2 ^ set.blockBits ∣ set.clusterPrefix.addr.value :=
    (Nat.pow_dvd_pow 2 (block.hostBits ▸ block.narrower)).trans set.hostBits_dvd
  obtain ⟨factor, isFactor⟩ := aligned
  refine CIDR.masked_eq_self ?_
  rw [CIDR.network, block.hostBits, CidrSet.value_indexToCIDRBlock inside, isFactor,
    Nat.mul_comm _ factor, ← Nat.add_mul, Nat.mul_div_cancel _ (Nat.two_pow_pos _)]

/-- A block lies in a block of its set only if they are the same. -/
theorem blocksIn_indexToCIDRBlock (inside : index < set.maxCIDRs) :
    blocksIn set (set.indexToCIDRBlock index) = {index} := by
  have size := Nat.two_pow_pos set.blockBits
  have hostBits := (CidrSet.isBlock_indexToCIDRBlock inside).1.hostBits
  have lies : ∀ other < set.maxCIDRs,
      (LiesIn (set.indexToCIDRBlock other) (set.indexToCIDRBlock index) ↔ other = index) := by
    intro other otherInside
    rw [(ofIndex inside).liesIn_iff otherInside, CidrSet.value_indexToCIDRBlock inside, hostBits,
      Nat.add_assoc, ← Nat.succ_mul, Nat.add_le_add_iff_left, Nat.add_lt_add_iff_left,
      Nat.mul_le_mul_right_iff size, Nat.mul_lt_mul_right size]
    omega
  ext other
  rw [mem_blocksIn, Finset.mem_singleton]
  constructor
  · exact fun both => (lies other both.1).mp both.2
  · rintro rfl
    exact ⟨inside, (lies other inside).mpr rfl⟩

theorem exists_first (covers : Covers set cidr) :
    ∃ index < set.maxCIDRs, (set.indexToCIDRBlock index).addr = cidr.addr := by
  obtain ⟨first, count, positive, within, isValue, _⟩ := covers.units
  have inside : first < set.maxCIDRs := by omega
  refine ⟨first, inside, Addr.ext covers.family_eq.symm ?_⟩
  rw [CidrSet.value_indexToCIDRBlock inside, isValue]

/-- A union of one block is the block at an index. -/
theorem exists_index (covers : Covers set cidr) (single : cidr.bits = set.nodeMaskSize) :
    ∃ index < set.maxCIDRs, set.indexToCIDRBlock index = cidr := by
  obtain ⟨index, inside, same⟩ := covers.exists_first
  exact ⟨index, inside, CIDR.ext same single.symm⟩

end Covers

/-! ### The set of blocks -/

/-- Reserved ranges are of the family of the cluster. -/
inductive SetCall
  | allocateNext
  | occupy (cidr : CIDR)
  | release (cidr : CIDR)
  | setReservedRanges (ranges : List (Addr × Addr))

/-- A call that fails changes nothing. -/
def setStep (set : CidrSet) : SetCall → CidrSet
  | .allocateNext => (set.allocateNext.toOption.map Prod.snd).getD set
  | .occupy cidr => (set.occupy cidr).getD set
  | .release cidr => (set.release cidr).getD set
  | .setReservedRanges ranges => (set.setReservedRanges ranges).getD set

def unavailable (set : CidrSet) : Finset Nat :=
  (Finset.range set.maxCIDRs).filter fun index => index ∈ set.used ∨ index ∈ set.reserved

/-- The counter is the number of blocks that are used or reserved, and the next block is one of the
others, if there is one. -/
structure Counts (set : CidrSet) : Prop where
  counted : set.unavailableCIDRs = (unavailable set).card
  fails_iff : (∃ error, set.allocateNext = .error error) ↔
    unavailable set = Finset.range set.maxCIDRs
  fresh : ∀ block later, set.allocateNext = .ok (block, later) →
    ∃ index < set.maxCIDRs, index ∉ unavailable set ∧ set.indexToCIDRBlock index = block

/-- The positions stand for the blocks of the cluster, and the counter is right in every run. -/
structure Refines (set : CidrSet) : Prop where
  bijOn : Set.BijOn set.indexToCIDRBlock {index | index < set.maxCIDRs}
    {block | Covers set block ∧ block.bits = set.nodeMaskSize}
  inverse : ∀ index < set.maxCIDRs, ∀ addr, (set.indexToCIDRBlock index).contains addr = true →
    set.getIndexForAddr addr = some index
  counts : ∀ calls, Counts (run setStep set calls)

theorem accounted_setStep (accounted : set.Accounted) (call : SetCall) :
    (setStep set call).Accounted := by
  cases call with
  | allocateNext =>
    cases full : set.isFull with
    | true =>
      rw [setStep, CidrSet.allocateNext, if_pos full]
      exact accounted
    | false =>
      obtain ⟨_, later, allocated, _, _, _, becomes⟩ :=
        CidrSet.allocateNext_spec accounted full
      rw [setStep, allocated]
      exact becomes.accounted
  | occupy cidr =>
    rw [setStep, CidrSet.occupy]
    cases isBounds : set.getBeginningAndEndIndices cidr with
    | none => exact accounted
    | some bounds =>
      have becomes := foldl_occupyIndex accounted _ fun _ => lt_of_mem_span isBounds
      exact becomes.accounted
  | release cidr =>
    rw [setStep, CidrSet.release]
    cases set.getBeginningAndEndIndices cidr with
    | none => exact accounted
    | some bounds => exact (foldl_releaseIndex accounted _).accounted
  | setReservedRanges ranges =>
    rw [setStep]
    cases made : set.setReservedRanges ranges with
    | none => exact accounted
    | some later => exact (CidrSet.setReservedRanges_becomes accounted made).accounted

theorem counts_of_accounted (accounted : set.Accounted) : Counts set := by
  have same : unavailable set = set.used ∪ set.reserved := by
    ext index
    rw [unavailable, Finset.mem_filter, Finset.mem_range, mem_union]
    refine and_iff_right_of_imp fun taken => ?_
    exact taken.elim (accounted.used_lt index) (accounted.reserved_lt index)
  have counted : set.unavailableCIDRs = (unavailable set).card := by
    rw [same, accounted.counted]
  cases full : set.isFull with
  | true =>
    have fails : set.allocateNext = .error .noCIDRsRemaining := if_pos full
    refine ⟨counted, iff_of_true ⟨_, fails⟩ ?_, fun block later allocated => ?_⟩
    · refine eq_of_subset_of_card_le (filter_subset _ _) ?_
      rw [card_range, ← counted]
      exact (beq_iff_eq.mp full).ge
    · rw [fails] at allocated
      cases allocated
  | false =>
    obtain ⟨index, next, isNext, inside, unused, unreserved, _⟩ :=
      CidrSet.allocateNext_spec accounted full
    have free : index ∉ unavailable set := by
      rw [same]
      exact notMem_union.mpr ⟨unused, unreserved⟩
    refine ⟨counted, iff_of_false ?_ fun all => ?_, fun block later allocated => ?_⟩
    · rintro ⟨error, fails⟩
      rw [isNext] at fails
      cases fails
    · rw [all] at free
      exact free (Finset.mem_range.mpr inside)
    · rw [isNext] at allocated
      cases allocated
      exact ⟨index, inside, free, rfl⟩

theorem bijOn_indexToCIDRBlock (set : CidrSet) :
    Set.BijOn set.indexToCIDRBlock {index | index < set.maxCIDRs}
      {block | Covers set block ∧ block.bits = set.nodeMaskSize} := by
  refine ⟨fun index inside => ⟨.ofIndex inside, rfl⟩, fun first inside second within same => ?_,
    fun block ⟨covers, single⟩ => covers.exists_index single⟩
  rw [← (CidrSet.isBlock_indexToCIDRBlock inside).2, same]
  exact (CidrSet.isBlock_indexToCIDRBlock within).2

/-- Every address of a block has the position of the block. -/
theorem blockIndex_of_contains (inside : index < set.maxCIDRs)
    (contains : (set.indexToCIDRBlock index).contains addr = true) :
    set.blockIndex addr = index := by
  obtain ⟨block, position⟩ := CidrSet.isBlock_indexToCIDRBlock inside
  have same := ((CIDR.contains_iff _ _).mp contains).2
  rw [block.hostBits] at same
  rw [CidrSet.blockIndex_eq block.longer] at position ⊢
  rw [same, position]

/-- An IPv6 cluster whose index reaches across the halves of an address. -/
def straddlingCluster : CIDR := ⟨⟨.ipv6, 2 ^ 127, by decide⟩, 56, by decide⟩

end Constellation.Podcidr
