/-
This file models the set of equally sized blocks that a cluster CIDR is divided into. Two bitmaps
tell the blocks in use and the reserved blocks, and a counter the number of blocks that are one or
the other. The index of a block and its address determine each other, also where the index of an
IPv6 block reaches across the two halves that the source computes with.
-/

import Constellation.Ipam.Range

namespace Constellation.Multipool

open Finset
open Ipam (Addr CIDR Family)

/-! ### The set -/

structure CidrSet where
  clusterPrefix : CIDR
  nodeMaskSize : Nat
  unavailableCIDRs : Nat
  nextCandidate : Nat
  used : Finset Nat
  reserved : Finset Nat
  masked : clusterPrefix.masked = clusterPrefix
  mask_le : nodeMaskSize ≤ clusterPrefix.addr.family.bitLen

inductive CidrSetError
  | subNetMaskSizeInvalid
  | subNetTooBig
  | noCIDRsRemaining
  | outOfRange
  deriving DecidableEq, Repr

namespace CidrSet

/-- A mask that is shorter than that of the cluster leaves none. -/
def maxCIDRs (set : CidrSet) : Nat :=
  if set.clusterPrefix.bits ≤ set.nodeMaskSize then
    2 ^ (set.nodeMaskSize - set.clusterPrefix.bits)
  else 0

/-- The mask sizes of an IPv6 set differ by at most 16. -/
def newCIDRSet (clusterPrefix : CIDR) (subNetMaskSize : Nat) : Except CidrSetError CidrSet :=
  if fits : subNetMaskSize ≤ clusterPrefix.addr.family.bitLen then
    if clusterPrefix.addr.family = .ipv6 ∧ subNetMaskSize > clusterPrefix.bits + 16 then
      .error .subNetTooBig
    else
      .ok
        { clusterPrefix := clusterPrefix.masked
          nodeMaskSize := subNetMaskSize
          unavailableCIDRs := 0
          nextCandidate := 0
          used := ∅
          reserved := ∅
          masked := CIDR.masked_masked clusterPrefix
          mask_le := fits }
  else .error .subNetMaskSizeInvalid

def blockBits (set : CidrSet) : Nat :=
  set.clusterPrefix.addr.family.bitLen - set.nodeMaskSize

/-- An IPv6 address is computed in two halves of 64 bits. -/
def blockValue (set : CidrSet) (index : Nat) : Nat :=
  let cluster := set.clusterPrefix.addr.value
  match set.clusterPrefix.addr.family with
  | .ipv4 => cluster ||| (index % 2 ^ 32) <<< (32 - set.nodeMaskSize) % 2 ^ 32
  | .ipv6 =>
    let left := cluster / 2 ^ 64
    let right := cluster % 2 ^ 64
    if set.nodeMaskSize ≤ 64 then
      (left ||| index <<< (64 - set.nodeMaskSize) % 2 ^ 64) * 2 ^ 64 + right
    else
      let bitsToLeft := set.nodeMaskSize - 64
      let leftIP :=
        if set.clusterPrefix.bits < 64 ∧ index.size > bitsToLeft then left ||| index >>> bitsToLeft
        else left
      leftIP * 2 ^ 64 + (right ||| index <<< (128 - set.nodeMaskSize) % 2 ^ 64)

def indexToCIDRBlock (set : CidrSet) (index : Nat) : CIDR where
  addr :=
    { family := set.clusterPrefix.addr.family
      value := set.blockValue index % 2 ^ set.clusterPrefix.addr.family.bitLen
      value_lt := Nat.mod_lt _ (Nat.two_pow_pos _) }
  bits := set.nodeMaskSize
  bits_le := set.mask_le

def isFull (set : CidrSet) : Bool := set.unavailableCIDRs == set.maxCIDRs

def isFree (set : CidrSet) (index : Nat) : Bool :=
  decide (index ∉ set.used) && decide (index ∉ set.reserved)

/-- The candidate itself if the search comes back to it. The number of steps is bounded. -/
def findFree (set : CidrSet) : Nat → Nat → Nat
  | 0, candidate => candidate
  | steps + 1, candidate =>
    if set.isFree candidate then candidate
    else findFree set steps ((candidate + 1) % set.maxCIDRs)

def allocateNext (set : CidrSet) : Except CidrSetError (CIDR × CidrSet) :=
  if set.isFull then .error .noCIDRsRemaining
  else
    let candidate := set.findFree set.maxCIDRs set.nextCandidate
    .ok (set.indexToCIDRBlock candidate, { set with
        nextCandidate := (candidate + 1) % set.maxCIDRs
        used := insert candidate set.used
        unavailableCIDRs := set.unavailableCIDRs + 1 })

def inRange (set : CidrSet) (cidr : CIDR) : Bool :=
  set.clusterPrefix.contains cidr.addr || cidr.contains set.clusterPrefix.addr

def isClusterCIDR (set : CidrSet) (cidr : CIDR) : Bool := decide (cidr = set.clusterPrefix)

/-- In the integers that the source computes with. -/
def getIndexForAddr (set : CidrSet) (addr : Addr) : Option Nat :=
  let index := (set.clusterPrefix.addr.value ^^^ addr.value) >>> set.blockBits
  match addr.family with
  | .ipv4 => if index ≥ set.maxCIDRs % 2 ^ 32 then none else some index
  | .ipv6 => if index % 2 ^ 64 ≥ set.maxCIDRs then none else some (index % 2 ^ 64)

def blockAddr (set : CidrSet) (addr : Addr) : Addr where
  family := addr.family
  value := addr.value / 2 ^ set.blockBits * 2 ^ set.blockBits
  value_lt := (Nat.div_mul_le_self _ _).trans_lt addr.value_lt

def lastIP (cidr : CIDR) : Addr where
  family := cidr.addr.family
  value := cidr.network + (2 ^ cidr.hostBits - 1)
  value_lt := by
    have bound := cidr.network_add_le
    have positive := Nat.two_pow_pos cidr.hostBits
    omega

def getBeginningAndEndIndices (set : CidrSet) (cidr : CIDR) : Option (Nat × Nat) :=
  if !set.inRange cidr then none
  else if set.clusterPrefix.bits < cidr.bits then
    match set.getIndexForAddr (set.blockAddr cidr.addr),
      set.getIndexForAddr (set.blockAddr (lastIP cidr)) with
    | some first, some last => some (first, last + 1)
    | _, _ => none
  else some (0, set.maxCIDRs)

def span (bounds : Nat × Nat) : List Nat := List.range' bounds.1 (bounds.2 - bounds.1)

def isAllocated (set : CidrSet) (cidr : CIDR) : Option Bool :=
  (set.getBeginningAndEndIndices cidr).map fun bounds =>
    (span bounds).all fun index => decide (index ∈ set.used)

def releaseIndex (set : CidrSet) (index : Nat) : CidrSet :=
  if index ∈ set.used then
    { set with
      used := set.used.erase index
      unavailableCIDRs :=
        if index ∈ set.reserved then set.unavailableCIDRs else set.unavailableCIDRs - 1 }
  else set

def occupyIndex (set : CidrSet) (index : Nat) : CidrSet :=
  if index ∈ set.used then set
  else
    { set with
      used := insert index set.used
      unavailableCIDRs :=
        if index ∈ set.reserved then set.unavailableCIDRs else set.unavailableCIDRs + 1 }

def release (set : CidrSet) (cidr : CIDR) : Option CidrSet :=
  (set.getBeginningAndEndIndices cidr).map fun bounds => (span bounds).foldl releaseIndex set

def occupy (set : CidrSet) (cidr : CIDR) : Option CidrSet :=
  (set.getBeginningAndEndIndices cidr).map fun bounds => (span bounds).foldl occupyIndex set

/-- The blocks that the given ranges of addresses reach, if they are in the set. -/
def reservedIndices (set : CidrSet) : List (Addr × Addr) → Option (Finset Nat)
  | [] => some ∅
  | (start, stop) :: rest =>
    match set.getIndexForAddr start, set.getIndexForAddr stop, set.reservedIndices rest with
    | some first, some last, some others =>
      some ((span (first, last + 1)).toFinset ∪ others)
    | _, _, _ => none

def setReservedRanges (set : CidrSet) (ranges : List (Addr × Addr)) : Option CidrSet :=
  (set.reservedIndices ranges).map fun reserved =>
    { set with
      reserved := reserved
      unavailableCIDRs := (set.used ∪ reserved).card }

/-! ### Blocks and their addresses -/

section

variable {high low position : Nat} (aligned : 2 ^ position ∣ high) (small : low < 2 ^ position)
include aligned small

/-- An or of two numbers without a common bit is their sum. -/
theorem or_eq_add : high ||| low = high + low := by
  obtain ⟨factor, rfl⟩ := aligned
  exact (Nat.two_pow_add_eq_or_of_lt small factor).symm

/-- Numbers that agree from a position on differ in what stands below it. -/
theorem xor_add_eq : high ^^^ (high + low) = low := by
  rw [← or_eq_add aligned small]
  obtain ⟨factor, rfl⟩ := aligned
  refine Nat.eq_of_testBit_eq fun bit => ?_
  rw [Nat.testBit_xor, Nat.testBit_or, Nat.testBit_two_pow_mul]
  by_cases above : position ≤ bit
  · have beyond : low < 2 ^ bit := small.trans_le (Nat.pow_le_pow_right Nat.two_pos above)
    rw [Nat.testBit_lt_two_pow beyond, Bool.or_false, Bool.xor_self]
  · simp [above]

end

/-- The bits of an index that is moved to the left of a mask stay within the cluster. -/
theorem shifted_lt {width bits mask index : Nat} (longer : bits ≤ mask) (fits : mask ≤ width)
    (inside : index < 2 ^ (mask - bits)) : index * 2 ^ (width - mask) < 2 ^ (width - bits) := by
  have split : width - bits = (mask - bits) + (width - mask) := by omega
  rw [split, Nat.pow_add]
  exact (Nat.mul_lt_mul_right (Nat.two_pow_pos _)).mpr inside

/-- A field that is moved within a word and put under the aligned high bits. -/
theorem or_shiftLeft_mod {width bits mask high index : Nat} (longer : bits ≤ mask)
    (fits : mask ≤ width) (aligned : 2 ^ (width - bits) ∣ high)
    (inside : index < 2 ^ (mask - bits)) :
    high ||| index <<< (width - mask) % 2 ^ width = high + index * 2 ^ (width - mask) := by
  have small := shifted_lt longer fits inside
  have within : 2 ^ (width - bits) ≤ 2 ^ width := Nat.pow_le_pow_right Nat.two_pos (Nat.sub_le _ _)
  rw [Nat.shiftLeft_eq, Nat.mod_eq_of_lt (small.trans_le within)]
  exact or_eq_add aligned small

/-- The low half of a number whose alignment is above it is zero, and its high half is aligned. -/
theorem halves_of_aligned {cluster bits : Nat} (short : bits ≤ 64)
    (aligned : 2 ^ (128 - bits) ∣ cluster) :
    cluster % 2 ^ 64 = 0 ∧ 2 ^ (64 - bits) ∣ cluster / 2 ^ 64 := by
  have split : 128 - bits = 64 + (64 - bits) := by omega
  rw [split, Nat.pow_add] at aligned
  obtain ⟨factor, rfl⟩ := aligned
  rw [Nat.mul_assoc]
  refine ⟨Nat.mul_mod_right _ _, ?_⟩
  rw [Nat.mul_div_cancel_left _ (Nat.two_pow_pos _)]
  exact Nat.dvd_mul_right _ _

/-- An index whose bits reach across the halves is split where its low half ends. -/
theorem shiftLeft_halves {mask index : Nat} (long : 64 < mask) (fits : mask ≤ 128) :
    (index >>> (mask - 64)) * 2 ^ 64 + index <<< (128 - mask) % 2 ^ 64 =
      index * 2 ^ (128 - mask) := by
  have split : 2 ^ 64 = 2 ^ (mask - 64) * 2 ^ (128 - mask) := by
    rw [← Nat.pow_add]
    congr 1
    omega
  rw [Nat.shiftLeft_eq, Nat.shiftRight_eq_div_pow, split, Nat.mul_mod_mul_right, ← Nat.mul_assoc,
    ← Nat.add_mul, Nat.mul_comm (index / _), Nat.div_add_mod]

/-- The high half of an address of a block whose index reaches into it. -/
theorem highHalf_eq {bits mask left index : Nat} (short : bits ≤ 64) (long : 64 < mask)
    (aligned : 2 ^ (64 - bits) ∣ left) (inside : index < 2 ^ (mask - bits)) :
    (if index.size > mask - 64 then left ||| index >>> (mask - 64) else left) =
      left + index >>> (mask - 64) := by
  split
  · refine or_eq_add aligned ?_
    rw [Nat.shiftRight_eq_div_pow, Nat.div_lt_iff_lt_mul (Nat.two_pow_pos _), ← Nat.pow_add]
    have split : 64 - bits + (mask - 64) = mask - bits := by omega
    rwa [split]
  case isFalse few =>
    rw [Nat.shiftRight_eq_div_pow, Nat.div_eq_of_lt, Nat.add_zero]
    exact (Nat.lt_size_self index).trans_le (Nat.pow_le_pow_right Nat.two_pos (not_lt.mp few))

variable {set : CidrSet} {index : Nat} {addr : Addr} {cidr : CIDR}

theorem network_clusterPrefix (set : CidrSet) :
    set.clusterPrefix.network = set.clusterPrefix.addr.value :=
  congrArg (fun cidr : CIDR => cidr.addr.value) set.masked

theorem hostBits_dvd (set : CidrSet) :
    2 ^ set.clusterPrefix.hostBits ∣ set.clusterPrefix.addr.value := by
  rw [← network_clusterPrefix]
  exact Nat.dvd_mul_left _ _

theorem bits_le_of_lt (inside : index < set.maxCIDRs) :
    set.clusterPrefix.bits ≤ set.nodeMaskSize := by
  by_contra shorter
  rw [maxCIDRs, if_neg shorter] at inside
  exact Nat.not_lt_zero _ inside

variable (longer : set.clusterPrefix.bits ≤ set.nodeMaskSize) {ranges : List (Addr × Addr)}

include longer in
theorem maxCIDRs_of_le : set.maxCIDRs = 2 ^ (set.nodeMaskSize - set.clusterPrefix.bits) :=
  if_pos longer

include longer in
/-- The blocks together have the size of the cluster. -/
theorem hostBits_eq :
    set.clusterPrefix.hostBits = (set.nodeMaskSize - set.clusterPrefix.bits) + set.blockBits := by
  have fits := set.mask_le
  unfold CIDR.hostBits blockBits
  omega

include longer in
theorem maxCIDRs_mul : set.maxCIDRs * 2 ^ set.blockBits = 2 ^ set.clusterPrefix.hostBits := by
  rw [maxCIDRs_of_le longer, hostBits_eq longer, Nat.pow_add]

theorem index_mul_lt (inside : index < set.maxCIDRs) :
    index * 2 ^ set.blockBits < 2 ^ set.clusterPrefix.hostBits := by
  rw [← maxCIDRs_mul (bits_le_of_lt inside)]
  exact (Nat.mul_lt_mul_right (Nat.two_pow_pos _)).mpr inside

/-- The address of a block as a number: the blocks follow one another from the address of the
cluster on. -/
theorem blockValue_eq (inside : index < set.maxCIDRs) :
    set.blockValue index = set.clusterPrefix.addr.value + index * 2 ^ set.blockBits := by
  have longer := bits_le_of_lt inside
  have fits := set.mask_le
  have aligned := set.hostBits_dvd
  rw [maxCIDRs_of_le longer] at inside
  unfold blockValue blockBits
  unfold CIDR.hostBits at aligned
  cases family : set.clusterPrefix.addr.family with
  | ipv4 =>
    rw [family] at fits aligned
    have word : index < 2 ^ 32 :=
      inside.trans_le (Nat.pow_le_pow_right Nat.two_pos ((Nat.sub_le _ _).trans fits))
    rw [Nat.mod_eq_of_lt word]
    exact or_shiftLeft_mod longer fits aligned inside
  | ipv6 =>
    rw [family] at fits aligned
    have whole := Nat.div_add_mod' set.clusterPrefix.addr.value (2 ^ 64)
    dsimp only
    split
    case isTrue half =>
      obtain ⟨low, high⟩ := halves_of_aligned (longer.trans half) aligned
      have wide : 128 - set.nodeMaskSize = 64 - set.nodeMaskSize + 64 := by omega
      show _ = _ + index * 2 ^ (128 - set.nodeMaskSize)
      rw [or_shiftLeft_mod longer half high inside, Nat.add_mul, Nat.add_right_comm, whole, wide,
        Nat.pow_add, Nat.mul_assoc]
    case isFalse long =>
      rw [not_le] at long
      have fits : set.nodeMaskSize ≤ 128 := fits
      have halves := @shiftLeft_halves _ index long fits
      show _ = _ + index * 2 ^ (128 - set.nodeMaskSize)
      by_cases short : set.clusterPrefix.bits < 64
      · obtain ⟨low, high⟩ := halves_of_aligned short.le aligned
        simp only [short, true_and]
        rw [highHalf_eq short.le long high inside, low, Nat.zero_or, Nat.add_mul, Nat.add_assoc,
          halves]
        rw [low, Nat.add_zero] at whole
        rw [whole]
      · have low : 2 ^ (64 - (set.clusterPrefix.bits - 64)) ∣
            set.clusterPrefix.addr.value % 2 ^ 64 := by
          have width : 64 - (set.clusterPrefix.bits - 64) = 128 - set.clusterPrefix.bits := by
            omega
          rw [width]
          refine (Nat.dvd_mod_iff (Nat.pow_dvd_pow 2 ?_)).mpr aligned
          omega
        have width : 128 - set.nodeMaskSize = 64 - (set.nodeMaskSize - 64) := by omega
        have within : set.nodeMaskSize - 64 - (set.clusterPrefix.bits - 64) =
            set.nodeMaskSize - set.clusterPrefix.bits := by omega
        simp only [short, false_and, if_false]
        rw [width, or_shiftLeft_mod (Nat.sub_le_sub_right longer 64) (by omega) low
          (by rwa [within]), ← Nat.add_assoc, whole]

def blockIndex (set : CidrSet) (addr : Addr) : Nat :=
  (addr.value - set.clusterPrefix.addr.value) / 2 ^ set.blockBits

theorem value_between (inside : set.clusterPrefix.contains addr = true) :
    addr.family = set.clusterPrefix.addr.family ∧ set.clusterPrefix.addr.value ≤ addr.value ∧
      addr.value - set.clusterPrefix.addr.value < 2 ^ set.clusterPrefix.hostBits := by
  rw [CIDR.contains_iff_between, network_clusterPrefix] at inside
  refine ⟨inside.1, inside.2.1, ?_⟩
  exact Nat.sub_lt_left_of_lt_add inside.2.1 inside.2.2

include longer in
theorem blockIndex_lt
    (inside : set.clusterPrefix.contains addr = true) : set.blockIndex addr < set.maxCIDRs := by
  obtain ⟨_, _, below⟩ := value_between inside
  rw [blockIndex, Nat.div_lt_iff_lt_mul (Nat.two_pow_pos _), maxCIDRs_mul longer]
  exact below

/-- The indices of a set fit the integers they are compared in. -/
def Addressable (set : CidrSet) : Prop := set.maxCIDRs < 2 ^ 32
  deriving Decidable

/-- The index that is computed for an address of the cluster is the position of its block. -/
theorem getIndexForAddr_eq (addressable : set.Addressable)
    (longer : set.clusterPrefix.bits ≤ set.nodeMaskSize)
    (inside : set.clusterPrefix.contains addr = true) :
    set.getIndexForAddr addr = some (set.blockIndex addr) := by
  obtain ⟨_, above, below⟩ := value_between inside
  have small := blockIndex_lt longer inside
  have position : (set.clusterPrefix.addr.value ^^^ addr.value) >>> set.blockBits =
      set.blockIndex addr := by
    have differ := xor_add_eq set.hostBits_dvd below
    rw [Nat.add_sub_cancel' above] at differ
    rw [differ, Nat.shiftRight_eq_div_pow]
    rfl
  have limit : set.maxCIDRs % 2 ^ 32 = set.maxCIDRs := Nat.mod_eq_of_lt addressable
  have word : set.blockIndex addr % 2 ^ 64 = set.blockIndex addr :=
    Nat.mod_eq_of_lt (small.trans (addressable.trans (by decide)))
  unfold getIndexForAddr
  simp only [position, limit, word, ge_iff_le, not_le.mpr small, if_false]
  cases addr.family <;> rfl

theorem getIndexForAddr_lt (found : set.getIndexForAddr addr = some index) :
    index < set.maxCIDRs := by
  unfold getIndexForAddr at found
  dsimp only at found
  split at found
  · split at found
    · cases found
    case isFalse small =>
      cases found
      exact (not_le.mp small).trans_le (Nat.mod_le _ _)
  · split at found
    · cases found
    case isFalse small =>
      cases found
      exact not_le.mp small

/-- A CIDR of the size of a block, within the cluster. -/
structure IsBlock (set : CidrSet) (cidr : CIDR) : Prop where
  bits_eq : cidr.bits = set.nodeMaskSize
  longer : set.clusterPrefix.bits ≤ set.nodeMaskSize
  inside : set.clusterPrefix.contains cidr.addr = true

theorem blockIndex_eq (longer : set.clusterPrefix.bits ≤ set.nodeMaskSize) (addr : Addr) :
    set.blockIndex addr =
      addr.value / 2 ^ set.blockBits - set.clusterPrefix.addr.value / 2 ^ set.blockBits := by
  have aligned : 2 ^ set.blockBits ∣ set.clusterPrefix.addr.value := by
    refine (Nat.pow_dvd_pow 2 ?_).trans set.hostBits_dvd
    rw [hostBits_eq longer]
    exact Nat.le_add_left _ _
  obtain ⟨factor, start⟩ := aligned
  rw [blockIndex, start, Nat.mul_div_cancel_left _ (Nat.two_pow_pos _), Nat.sub_mul_div]

namespace IsBlock

variable (block : set.IsBlock cidr)
include block

theorem hostBits : cidr.hostBits = set.blockBits := by
  unfold CIDR.hostBits blockBits
  rw [block.bits_eq, (value_between block.inside).1]

theorem narrower : cidr.hostBits ≤ set.clusterPrefix.hostBits := by
  rw [block.hostBits, hostBits_eq block.longer]
  exact Nat.le_add_left _ _

theorem contains (within : cidr.contains addr = true) : set.clusterPrefix.contains addr = true :=
  (CIDR.contains_addr within block.narrower).symm.trans block.inside

theorem overlaps {other : CIDR} (both : cidr.overlaps other = true) :
    set.clusterPrefix.overlaps other = true := by
  rw [CIDR.overlaps, Bool.or_eq_true] at both
  rcases both with within | around
  · rw [CIDR.overlaps, Bool.or_eq_true]
    exact .inl (block.contains within)
  · exact CIDR.overlaps_of_contains block.inside around

theorem lt : set.blockIndex cidr.addr < set.maxCIDRs :=
  blockIndex_lt block.longer block.inside

/-- Blocks overlap exactly if they have the same position. -/
theorem overlaps_iff {other : CIDR} (otherBlock : set.IsBlock other) :
    cidr.overlaps other = true ↔ set.blockIndex cidr.addr = set.blockIndex other.addr := by
  have family := (value_between block.inside).1
  have otherFamily := (value_between otherBlock.inside).1
  have above := Nat.div_le_div_right (c := 2 ^ set.blockBits) (value_between block.inside).2.1
  have otherAbove :=
    Nat.div_le_div_right (c := 2 ^ set.blockBits) (value_between otherBlock.inside).2.1
  rw [CIDR.overlaps, Bool.or_eq_true, CIDR.contains_iff, CIDR.contains_iff, block.hostBits,
    otherBlock.hostBits, blockIndex_eq block.longer, blockIndex_eq block.longer, family,
    otherFamily]
  simp only [true_and, eq_comm (a := other.addr.value / _), or_self]
  refine ⟨fun same => by rw [same], fun same => ?_⟩
  rw [← Nat.sub_add_cancel above, same, Nat.sub_add_cancel otherAbove]

theorem lastIP_div :
    (lastIP cidr).value / 2 ^ set.blockBits = cidr.addr.value / 2 ^ set.blockBits := by
  have positive := Nat.two_pow_pos set.blockBits
  show (cidr.network + (2 ^ cidr.hostBits - 1)) / 2 ^ set.blockBits = _
  rw [CIDR.network, block.hostBits, Nat.mul_comm, Nat.mul_add_div positive,
    Nat.div_eq_of_lt (Nat.sub_one_lt positive.ne'), Nat.add_zero]

/-- An address with the quotient of a block is at the position of the block. -/
theorem getIndexForAddr (addressable : set.Addressable) (family : addr.family = cidr.addr.family)
    (quotient : addr.value / 2 ^ set.blockBits = cidr.addr.value / 2 ^ set.blockBits) :
    set.getIndexForAddr (set.blockAddr addr) = some (set.blockIndex cidr.addr) := by
  have start : (set.blockAddr addr).value / 2 ^ set.blockBits =
      cidr.addr.value / 2 ^ set.blockBits :=
    (Nat.mul_div_cancel _ (Nat.two_pow_pos _)).trans quotient
  have inside : set.clusterPrefix.contains (set.blockAddr addr) = true := by
    refine block.contains ((CIDR.contains_iff _ _).mpr ⟨family, ?_⟩)
    rwa [block.hostBits]
  rw [getIndexForAddr_eq addressable block.longer inside, blockIndex_eq block.longer,
    blockIndex_eq block.longer, start]

/-- The first and the last address of a block are in the block of one position. -/
theorem getBeginningAndEndIndices (addressable : set.Addressable) :
    set.getBeginningAndEndIndices cidr =
      some (set.blockIndex cidr.addr, set.blockIndex cidr.addr + 1) := by
  have near : set.inRange cidr = true := by
    rw [inRange, block.inside, Bool.true_or]
  have small := block.lt
  unfold CidrSet.getBeginningAndEndIndices
  rw [near, Bool.not_true, if_neg Bool.false_ne_true]
  split
  · have last := @IsBlock.getIndexForAddr _ (lastIP cidr) _ block addressable rfl block.lastIP_div
    rw [block.getIndexForAddr addressable rfl rfl, last]
  case isFalse whole =>
    have single : set.maxCIDRs = 1 := by
      rw [maxCIDRs_of_le block.longer, ← block.bits_eq, Nat.sub_eq_zero_of_le (not_lt.mp whole)]
      rfl
    rw [single] at small ⊢
    rw [Nat.lt_one_iff.mp small]

end IsBlock

theorem value_indexToCIDRBlock (inside : index < set.maxCIDRs) :
    (set.indexToCIDRBlock index).addr.value =
      set.clusterPrefix.addr.value + index * 2 ^ set.blockBits := by
  have small := index_mul_lt inside
  have top := set.clusterPrefix.network_add_le
  rw [network_clusterPrefix] at top
  show set.blockValue index % _ = _
  rw [blockValue_eq inside, Nat.mod_eq_of_lt]
  exact (Nat.add_lt_add_left small _).trans_le top

theorem isBlock_indexToCIDRBlock (inside : index < set.maxCIDRs) :
    set.IsBlock (set.indexToCIDRBlock index) ∧
      set.blockIndex (set.indexToCIDRBlock index).addr = index := by
  have longer := bits_le_of_lt inside
  have small := index_mul_lt inside
  have value := value_indexToCIDRBlock inside
  refine ⟨⟨rfl, longer, ?_⟩, ?_⟩
  · rw [CIDR.contains_iff_between, network_clusterPrefix, value]
    exact ⟨rfl, Nat.le_add_right _ _, Nat.add_lt_add_left small _⟩
  · rw [blockIndex, value, Nat.add_sub_cancel_left, Nat.mul_div_cancel _ (Nat.two_pow_pos _)]

/-! ### What the operations make of the blocks in use -/

/-- The bitmaps hold blocks of the set, and the counter tells how many. -/
structure Accounted (set : CidrSet) : Prop where
  used_lt : ∀ index ∈ set.used, index < set.maxCIDRs
  reserved_lt : ∀ index ∈ set.reserved, index < set.maxCIDRs
  candidate_lt : 0 < set.maxCIDRs → set.nextCandidate < set.maxCIDRs
  counted : set.unavailableCIDRs = (set.used ∪ set.reserved).card

/-- An operation keeps the blocks and the accounts of a set, and leaves the given blocks in use. -/
structure Becomes (set later : CidrSet) (used : Finset Nat) : Prop where
  clusterPrefix : later.clusterPrefix = set.clusterPrefix
  nodeMaskSize : later.nodeMaskSize = set.nodeMaskSize
  used : later.used = used
  accounted : later.Accounted

namespace Becomes

variable {later : CidrSet} {used : Finset Nat}

theorem refl (accounted : set.Accounted) : set.Becomes set set.used :=
  ⟨rfl, rfl, rfl, accounted⟩

section

variable (becomes : set.Becomes later used)
include becomes

theorem trans {next : CidrSet} {usedNext : Finset Nat}
    (further : later.Becomes next usedNext) : set.Becomes next usedNext :=
  ⟨further.clusterPrefix.trans becomes.clusterPrefix,
    further.nodeMaskSize.trans becomes.nodeMaskSize, further.used, further.accounted⟩

theorem maxCIDRs : later.maxCIDRs = set.maxCIDRs := by
  unfold CidrSet.maxCIDRs
  rw [becomes.clusterPrefix, becomes.nodeMaskSize]

theorem addressable (before : set.Addressable) :
    later.Addressable := by
  unfold Addressable
  rwa [becomes.maxCIDRs]

theorem isBlock (block : set.IsBlock cidr) :
    later.IsBlock cidr := by
  refine ⟨?_, ?_, ?_⟩
  · rw [becomes.nodeMaskSize, block.bits_eq]
  · rw [becomes.clusterPrefix, becomes.nodeMaskSize]
    exact block.longer
  · rw [becomes.clusterPrefix]
    exact block.inside

theorem blockIndex (addr : Addr) :
    later.blockIndex addr = set.blockIndex addr := by
  unfold CidrSet.blockIndex CidrSet.blockBits
  rw [becomes.clusterPrefix, becomes.nodeMaskSize]

theorem indexToCIDRBlock :
    later.indexToCIDRBlock = set.indexToCIDRBlock := by
  obtain ⟨clusterPrefix, nodeMaskSize, _, _⟩ := becomes
  cases later
  subst clusterPrefix nodeMaskSize
  rfl

end

end Becomes

theorem isFree_iff : set.isFree index = true ↔ index ∉ set.used ∪ set.reserved := by
  rw [isFree, Bool.and_eq_true, decide_eq_true_eq, decide_eq_true_eq, notMem_union]

theorem Accounted.exists_free (accounted : set.Accounted) (room : set.isFull = false) :
    ∃ index < set.maxCIDRs, set.isFree index = true := by
  have within : set.used ∪ set.reserved ⊆ Finset.range set.maxCIDRs := by
    intro index member
    rw [mem_range]
    rcases mem_union.mp member with used | reserved
    · exact accounted.used_lt index used
    · exact accounted.reserved_lt index reserved
  have fewer : (set.used ∪ set.reserved).card < (Finset.range set.maxCIDRs).card := by
    refine lt_of_le_of_ne (card_le_card within) ?_
    rw [card_range, ← accounted.counted]
    exact beq_eq_false_iff_ne.mp room
  obtain ⟨index, inside, free⟩ := exists_mem_notMem_of_card_lt_card fewer
  exact ⟨index, mem_range.mp inside, isFree_iff.mpr free⟩

/-- The search ends at a free block if there is one in its way. -/
theorem findFree_spec (steps candidate : Nat) (inside : candidate < set.maxCIDRs)
    (reached : ∃ offset < steps, set.isFree ((candidate + offset) % set.maxCIDRs) = true) :
    set.findFree steps candidate < set.maxCIDRs ∧
      set.isFree (set.findFree steps candidate) = true := by
  induction steps generalizing candidate with
  | zero =>
    obtain ⟨offset, below, _⟩ := reached
    exact absurd below (Nat.not_lt_zero _)
  | succ steps inductionHypothesis =>
    unfold findFree
    split
    case isTrue free => exact ⟨inside, free⟩
    case isFalse taken =>
      refine inductionHypothesis _ (Nat.mod_lt _ (Nat.zero_lt_of_lt inside)) ?_
      obtain ⟨offset, below, free⟩ := reached
      cases offset with
      | zero =>
        rw [Nat.add_zero, Nat.mod_eq_of_lt inside] at free
        exact absurd free taken
      | succ offset =>
        refine ⟨offset, Nat.lt_of_succ_lt_succ below, ?_⟩
        rwa [Nat.mod_add_mod, Nat.add_assoc, Nat.add_comm 1]

/-- Every block is in the way of a search around the whole set. -/
theorem exists_offset {candidate : Nat} (start : candidate < set.maxCIDRs)
    (inside : index < set.maxCIDRs) :
    ∃ offset < set.maxCIDRs, (candidate + offset) % set.maxCIDRs = index := by
  refine ⟨(index + (set.maxCIDRs - candidate)) % set.maxCIDRs,
    Nat.mod_lt _ (Nat.zero_lt_of_lt inside), ?_⟩
  have around : candidate + (index + (set.maxCIDRs - candidate)) = index + set.maxCIDRs := by
    omega
  rw [Nat.add_mod_mod, around, Nat.add_mod_right, Nat.mod_eq_of_lt inside]

theorem card_insert_used (free : index ∉ set.used ∪ set.reserved) :
    (insert index set.used ∪ set.reserved).card = (set.used ∪ set.reserved).card + 1 := by
  rw [insert_union, card_insert_of_notMem free]

/-- The next block is one that was not in use, and it is the only one that comes into use. -/
theorem allocateNext_spec (accounted : set.Accounted) (room : set.isFull = false) :
    ∃ index later, set.allocateNext = .ok (set.indexToCIDRBlock index, later) ∧
      index < set.maxCIDRs ∧ index ∉ set.used ∧ index ∉ set.reserved ∧
      set.Becomes later (insert index set.used) := by
  obtain ⟨free, freeInside, isFree⟩ := accounted.exists_free room
  have start := accounted.candidate_lt (Nat.zero_lt_of_lt freeInside)
  obtain ⟨offset, below, reached⟩ := exists_offset start freeInside
  obtain ⟨inside, found⟩ := findFree_spec set.maxCIDRs set.nextCandidate start
    ⟨offset, below, by rwa [reached]⟩
  rw [isFree_iff] at found
  obtain ⟨unused, unreserved⟩ := notMem_union.mp found
  refine ⟨set.findFree set.maxCIDRs set.nextCandidate, { set with
      nextCandidate := (set.findFree set.maxCIDRs set.nextCandidate + 1) % set.maxCIDRs
      used := insert (set.findFree set.maxCIDRs set.nextCandidate) set.used
      unavailableCIDRs := set.unavailableCIDRs + 1 }, ?_, inside,
    unused, unreserved, ⟨rfl, rfl, rfl, ⟨?_, accounted.reserved_lt, ?_, ?_⟩⟩⟩
  · unfold allocateNext
    rw [room, if_neg Bool.false_ne_true]
  · intro index member
    rcases mem_insert.mp member with rfl | used
    · exact inside
    · exact accounted.used_lt index used
  · exact fun positive => Nat.mod_lt _ positive
  · show set.unavailableCIDRs + 1 = (insert _ set.used ∪ set.reserved).card
    rw [card_insert_used found, accounted.counted]

theorem occupyIndex_becomes (accounted : set.Accounted) (inside : index < set.maxCIDRs)
    (free : index ∉ set.used) : set.Becomes (set.occupyIndex index) (insert index set.used) := by
  unfold occupyIndex
  rw [if_neg free]
  refine ⟨rfl, rfl, rfl, ⟨?_, accounted.reserved_lt, accounted.candidate_lt, ?_⟩⟩
  · intro other member
    rcases mem_insert.mp member with rfl | used
    · exact inside
    · exact accounted.used_lt other used
  · show (if _ then _ else _) = (insert index set.used ∪ set.reserved).card
    split
    case isTrue reserved =>
      rw [insert_union, insert_eq_of_mem (mem_union_right _ reserved)]
      exact accounted.counted
    case isFalse notReserved =>
      rw [card_insert_used (notMem_union.mpr ⟨free, notReserved⟩), accounted.counted]

theorem releaseIndex_becomes (accounted : set.Accounted) (used : index ∈ set.used) :
    set.Becomes (set.releaseIndex index) (set.used.erase index) := by
  unfold releaseIndex
  rw [if_pos used]
  refine ⟨rfl, rfl, rfl, ⟨?_, accounted.reserved_lt, accounted.candidate_lt, ?_⟩⟩
  · exact fun other member => accounted.used_lt other (mem_of_mem_erase member)
  · show (if _ then _ else _) = (set.used.erase index ∪ set.reserved).card
    split
    case isTrue reserved =>
      have same : set.used.erase index ∪ set.reserved = set.used ∪ set.reserved := by
        rw [erase_union_of_mem reserved]
      rw [same, accounted.counted]
    case isFalse notReserved =>
      have smaller : set.used.erase index ∪ set.reserved =
          (set.used ∪ set.reserved).erase index := by
        rw [erase_union_distrib, erase_eq_of_notMem notReserved]
      rw [smaller, card_erase_of_mem (mem_union_left _ used), accounted.counted]

section Block

variable (block : set.IsBlock cidr) (addressable : set.Addressable)
include block addressable

theorem isAllocated_block :
    set.isAllocated cidr = some (decide (set.blockIndex cidr.addr ∈ set.used)) := by
  unfold isAllocated
  rw [block.getBeginningAndEndIndices addressable]
  simp [span]

theorem occupy_block : set.occupy cidr = some (set.occupyIndex (set.blockIndex cidr.addr)) := by
  unfold occupy
  rw [block.getBeginningAndEndIndices addressable]
  simp [span]

theorem release_block : set.release cidr = some (set.releaseIndex (set.blockIndex cidr.addr)) := by
  unfold release
  rw [block.getBeginningAndEndIndices addressable]
  simp [span]

end Block

theorem reservedIndices_lt {reserved : Finset Nat}
    (made : set.reservedIndices ranges = some reserved) :
    ∀ index ∈ reserved, index < set.maxCIDRs := by
  induction ranges generalizing reserved with
  | nil =>
    cases made
    exact fun index member => absurd member (notMem_empty index)
  | cons range rest inductionHypothesis =>
    unfold reservedIndices at made
    split at made
    case h_1 first last others firstFound lastFound othersMade =>
      cases made
      intro index member
      rcases mem_union.mp member with own | other
      · have within := List.mem_range'_1.mp (List.mem_toFinset.mp own)
        have bound := getIndexForAddr_lt lastFound
        omega
      · exact inductionHypothesis othersMade index other
    · cases made

theorem setReservedRanges_becomes (accounted : set.Accounted) {later : CidrSet}
    (made : set.setReservedRanges ranges = some later) : set.Becomes later set.used := by
  obtain ⟨reserved, found, rfl⟩ := Option.map_eq_some_iff.mp made
  have limits : ∀ index ∈ reserved, index < set.maxCIDRs := reservedIndices_lt found
  exact ⟨rfl, rfl, rfl, ⟨accounted.used_lt, limits, accounted.candidate_lt, rfl⟩⟩

/-- The set of a cluster starts with no block in use. -/
theorem newCIDRSet_spec {clusterPrefix : CIDR} {maskSize : Nat}
    (made : newCIDRSet clusterPrefix maskSize = .ok set) :
    set.clusterPrefix = clusterPrefix.masked ∧ set.nodeMaskSize = maskSize ∧ set.used = ∅ ∧
      set.Accounted := by
  unfold newCIDRSet at made
  split at made
  case isFalse _ => cases made
  case isTrue fits =>
    split at made
    · cases made
    case isFalse _ =>
      cases made
      refine ⟨rfl, rfl, rfl, ⟨?_, ?_, id, rfl⟩⟩
      · exact fun index member => absurd member (notMem_empty index)
      · exact fun index member => absurd member (notMem_empty index)

end CidrSet

end Constellation.Multipool
