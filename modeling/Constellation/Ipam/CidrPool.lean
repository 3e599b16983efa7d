/-
This file models a pool of CIDRs of one address family, as the agent keeps it in multi-pool mode:
an allocator for each CIDR it uses, the CIDRs it has released but that the node resource may still
list, and the CIDRs that were taken away while in use. Releasing and reclaiming move a CIDR
between the first two, and only an update from the node resource makes the pool learn or forget
one.
-/

import Constellation.Ipam.Range
import Constellation.Lib.GoMap

namespace Constellation.Ipam

open Lib List AList Range GoMap

/-! ### Ranges with options -/

/-- A CIDR whose other bits are zero. -/
abbrev MaskedCIDR := {cidr : CIDR // cidr.masked = cidr}

instance : LawfulBEq MaskedCIDR := inferInstance

def CIDR.toMasked (cidr : CIDR) : MaskedCIDR := ⟨cidr.masked, cidr.masked_masked⟩

namespace Range

def firstIP (allowFirstIP : Bool) (cidr : CIDR) : Addr :=
  if allowFirstIP then cidr.masked.addr else addOffset cidr.masked.addr 1

/-- The number of addresses left out at one end of a range with more than two. -/
def leftOut (allowed : Bool) : Nat := if allowed then 0 else 1

theorem firstIP_value {cidr : CIDR} (large : rangeSize cidr > 2) (allowFirstIP : Bool) :
    (firstIP allowFirstIP cidr).value = cidr.network + leftOut allowFirstIP := by
  cases allowFirstIP with
  | true => rfl
  | false => exact addOffset_one_value large

variable (allowFirstIP allowLastIP : Bool)

/-- `NewCIDRRange` of the source with its options: the first and the last address of a CIDR with
more than two addresses are left out unless they are allowed. -/
def newCIDRRangeWith (cidr : CIDR) : Range :=
  if large : rangeSize cidr > 2 then
    { cidr := cidr.masked
      base := firstIP allowFirstIP cidr
      max := rangeSize cidr - leftOut allowFirstIP - leftOut allowLastIP
      alloc := AllocationBitmap.newAllocationMap
        (rangeSize cidr - leftOut allowFirstIP - leftOut allowLastIP)
      alloc_max := rfl
      base_family := by cases allowFirstIP <;> rfl
      network_le_base := by
        rw [firstIP_value large, CIDR.network_masked]
        exact Nat.le_add_right _ _
      base_add_max_le := by
        rw [firstIP_value large, CIDR.network_masked]
        show _ ≤ cidr.network + 2 ^ cidr.hostBits
        have size := rangeSize_le cidr
        have first : leftOut allowFirstIP ≤ 1 := by cases allowFirstIP <;> decide
        omega }
  else whole cidr

theorem newCIDRRangeWith_cidr (cidr : CIDR) :
    (newCIDRRangeWith allowFirstIP allowLastIP cidr).cidr = cidr.masked := by
  unfold newCIDRRangeWith
  split <;> rfl

def used (range : Range) : Nat := range.max - range.free

def block (range : Range) : MaskedCIDR := range.cidr.toMasked

theorem block_eq_of_cidr {range later : Range} (same : later.cidr = range.cidr) :
    later.block = range.block := by
  unfold block
  rw [same]

theorem contains_block (range : Range) (addr : Addr) :
    range.block.val.contains addr = range.cidr.contains addr :=
  CIDR.contains_masked _ _

theorem newCIDRRangeWith_block (block : MaskedCIDR) :
    (newCIDRRangeWith allowFirstIP allowLastIP block.val).block = block := by
  refine Subtype.ext ?_
  show (newCIDRRangeWith allowFirstIP allowLastIP block.val).cidr.masked = block.val
  rw [newCIDRRangeWith_cidr, CIDR.masked_masked, block.property]

end Range

/-! ### The pool -/

structure CidrPool where
  ipAllocators : List Range
  released : GoSet MaskedCIDR
  removed : GoSet MaskedCIDR
  allowFirstIP : Bool
  allowLastIP : Bool
  distinct : (ipAllocators.map block).Nodup
  separate : ∀ block ∈ ipAllocators.map Range.block, block ∉ released

namespace CidrPool

def newCIDRPool (allowFirstIP allowLastIP : Bool) : CidrPool where
  ipAllocators := []
  released := ∅
  removed := ∅
  allowFirstIP := allowFirstIP
  allowLastIP := allowLastIP
  distinct := nodup_nil
  separate _ member := nomatch member

variable (pool : CidrPool)

def inUseCIDRs : List MaskedCIDR := pool.ipAllocators.map block

def Knows (block : MaskedCIDR) : Prop :=
  block ∈ pool.inUseCIDRs ∨ block ∈ pool.released
  deriving Decidable

def inUseIPCount : Nat := (pool.ipAllocators.map used).sum

def totalFree : Nat := (pool.ipAllocators.map free).sum

def withAllocators (ranges : List Range)
    (same : ranges.map block = pool.ipAllocators.map block) : CidrPool :=
  { pool with
    ipAllocators := ranges
    distinct := same ▸ pool.distinct
    separate := same ▸ pool.separate }

/-! ### Addresses -/

/-- Reserves an address in the first allocator whose CIDR contains it. -/
def allocateIn (addr : Addr) : List Range → Except String (List Range)
  | [] => .error ("IP " ++ addr.string ++ " not in range of any CIDR")
  | range :: rest =>
    if range.cidr.contains addr then
      match range.allocate addr with
      | .error error => .error error
      | .ok later => .ok (later :: rest)
    else
      match allocateIn addr rest with
      | .error error => .error error
      | .ok others => .ok (range :: others)

/-- The first allocator that is not removed and has a free address serves. -/
def allocateNextIn (removed : GoSet MaskedCIDR) (start : Nat) :
    List Range → Except String (Addr × List Range)
  | [] => .error "all CIDR ranges are exhausted"
  | range :: rest =>
    if range.block ∈ removed ∨ range.free = 0 then
      match allocateNextIn removed start rest with
      | .error error => .error error
      | .ok (addr, others) => .ok (addr, range :: others)
    else
      match range.allocateNext start with
      | .error error => .error error
      | .ok (addr, later) => .ok (addr, later :: rest)

/-- Releases an address in the first allocator whose CIDR contains it. -/
def releaseIn (addr : Addr) : List Range → List Range
  | [] => []
  | range :: rest =>
    if range.cidr.contains addr then range.release addr :: rest
    else range :: releaseIn addr rest

variable {addr : Addr} {ranges : List Range} {later : List Range} {start : Nat}

/-- A reserved address is one of a CIDR of the pool, and the CIDRs stay the same. -/
theorem allocateIn_spec (allocated : allocateIn addr ranges = .ok later) :
    later.map block = ranges.map block ∧ ∃ range ∈ ranges, range.cidr.contains addr = true := by
  induction ranges generalizing later with
  | nil => cases allocated
  | cons range rest inductionHypothesis =>
    unfold allocateIn at allocated
    split at allocated
    case isTrue inside =>
      split at allocated
      · cases allocated
      case h_2 reserved =>
        cases allocated
        refine ⟨?_, range, .head _, inside⟩
        rw [map_cons, map_cons, block_eq_of_cidr (allocate_spec reserved).1]
    · split at allocated
      · cases allocated
      case h_2 reserved =>
        cases allocated
        obtain ⟨same, inside⟩ := inductionHypothesis reserved
        exact ⟨by rw [map_cons, map_cons, same], exists_mem_cons_of_exists inside⟩

/-- The next address is one of a CIDR of the pool that was not removed, and the CIDRs stay the
same. -/
theorem allocateNextIn_spec {removed : GoSet MaskedCIDR}
    (allocated : allocateNextIn removed start ranges = .ok (addr, later)) :
    later.map block = ranges.map block ∧
      ∃ range ∈ ranges, range.cidr.contains addr = true ∧ range.block ∉ removed := by
  induction ranges generalizing later with
  | nil => cases allocated
  | cons range rest inductionHypothesis =>
    unfold allocateNextIn at allocated
    split at allocated
    · split at allocated
      · cases allocated
      case h_2 reserved =>
        cases allocated
        obtain ⟨same, inside⟩ := inductionHypothesis reserved
        exact ⟨by rw [map_cons, map_cons, same], exists_mem_cons_of_exists inside⟩
    case isFalse serves =>
      split at allocated
      · cases allocated
      case h_2 reserved =>
        cases allocated
        obtain ⟨same, inside, _⟩ := allocateNext_spec reserved
        refine ⟨?_, range, .head _, inside, fun out => serves (.inl out)⟩
        rw [map_cons, map_cons, block_eq_of_cidr same]

theorem releaseIn_blocks (addr : Addr) (ranges : List Range) :
    (releaseIn addr ranges).map block = ranges.map block := by
  induction ranges with
  | nil => rfl
  | cons range rest inductionHypothesis =>
    unfold releaseIn
    split
    · rw [map_cons, map_cons, block_eq_of_cidr (release_cidr range addr)]
    · rw [map_cons, map_cons, inductionHypothesis]

def allocate (addr : Addr) : Except String CidrPool :=
  match allocated : allocateIn addr pool.ipAllocators with
  | .error error => .error error
  | .ok ranges => .ok (pool.withAllocators ranges (allocateIn_spec allocated).1)

def allocateNext (start : Nat) : Except String (Addr × CidrPool) :=
  match allocated : allocateNextIn pool.removed start pool.ipAllocators with
  | .error error => .error error
  | .ok (addr, ranges) =>
    .ok (addr, pool.withAllocators ranges (allocateNextIn_spec allocated).1)

def release (addr : Addr) : CidrPool :=
  pool.withAllocators (releaseIn addr pool.ipAllocators) (releaseIn_blocks addr _)

structure SameCIDRs (before after : CidrPool) : Prop where
  inUseCIDRs : after.inUseCIDRs = before.inUseCIDRs
  released : after.released = before.released

theorem sameCIDRs_withAllocators (ranges : List Range)
    (same : ranges.map block = pool.ipAllocators.map block) :
    SameCIDRs pool (pool.withAllocators ranges same) := ⟨same, rfl⟩

variable {pool : CidrPool} {later : CidrPool} (neededIPs : Int)

theorem allocate_spec (allocated : pool.allocate addr = .ok later) :
    (SameCIDRs pool later ∧ later.removed = pool.removed) ∧
      ∃ block ∈ pool.inUseCIDRs, block.val.contains addr = true := by
  unfold allocate at allocated
  split at allocated
  · cases allocated
  case h_2 ranges reserved =>
    cases allocated
    obtain ⟨same, range, member, inside⟩ := allocateIn_spec reserved
    exact ⟨⟨⟨same, rfl⟩, rfl⟩, range.block, mem_map_of_mem member,
      (range.contains_block addr).trans inside⟩

theorem allocateNext_spec (allocated : pool.allocateNext start = .ok (addr, later)) :
    (SameCIDRs pool later ∧ later.removed = pool.removed) ∧
      ∃ block ∈ pool.inUseCIDRs, block.val.contains addr = true ∧ block ∉ pool.removed := by
  unfold allocateNext at allocated
  split at allocated
  · cases allocated
  case h_2 found ranges reserved =>
    cases allocated
    obtain ⟨same, range, member, inside, kept⟩ := allocateNextIn_spec reserved
    exact ⟨⟨⟨same, rfl⟩, rfl⟩, range.block, mem_map_of_mem member,
      (range.contains_block _).trans inside, kept⟩

section

variable (pool : CidrPool)

theorem release_sameCIDRs (addr : Addr) : SameCIDRs pool (pool.release addr) :=
  sameCIDRs_withAllocators _ _ _

/-! ### Learning and forgetting -/

variable (block : MaskedCIDR)

def newRange : Range :=
  newCIDRRangeWith pool.allowFirstIP pool.allowLastIP block.val

@[simp]
theorem newRange_block : (pool.newRange block).block = block :=
  newCIDRRangeWith_block _ _ block

theorem blocks_append_newRange : (pool.ipAllocators ++ [pool.newRange block]).map Range.block =
    pool.inUseCIDRs ++ [block] := by
  rw [map_append, map_singleton, newRange_block]
  rfl

variable (listed : List MaskedCIDR)

def forget : CidrPool :=
  { pool with
    released := pool.released.keys.foldl
      (fun released block => if block ∈ listed then released else released.erase block)
      pool.released
    separate := by
      intro block member kept
      obtain ⟨value, found⟩ := lookup_of_mem kept
      rw [lookup_foldl_erase (· ∈ listed)] at found
      split at found
      · cases found
      · exact pool.separate block member (mem_of_lookup found) }

/-- Allocators of unlisted CIDRs with an address in use stay, and are marked as removed. -/
def dropMissing : CidrPool :=
  { pool with
    ipAllocators := pool.ipAllocators.filter fun range => range.block ∈ listed ∨ range.used ≠ 0
    removed := ((pool.ipAllocators.filter fun range => range.block ∉ listed ∧ range.used ≠ 0).map
      Range.block).foldl (fun removed block => removed.insert block ()) pool.removed
    distinct := (filter_sublist.map Range.block).nodup pool.distinct
    separate := fun block member => pool.separate block
      ((filter_sublist.map Range.block).subset member) }

/-- A listed CIDR without a usable address counts as released. -/
def enroll : CidrPool :=
  if existing : block ∈ pool.inUseCIDRs then pool
  else if known : block ∈ pool.released then pool
  else if (pool.newRange block).free = 0 then
    { pool with
      released := pool.released.insert block ()
      separate := by
        intro other member added
        rcases (mem_insert _).mp added with same | before
        · exact existing (same ▸ member)
        · exact pool.separate other member before }
  else
    { pool with
      ipAllocators := pool.ipAllocators ++ [pool.newRange block]
      distinct := by
        rw [blocks_append_newRange]
        exact nodup_append_comm.mp (nodup_cons.mpr ⟨existing, pool.distinct⟩)
      separate := by
        intro other member
        rw [blocks_append_newRange, mem_append, mem_singleton] at member
        rcases member with before | same
        · exact pool.separate other before
        · exact same ▸ known }

/-- Brings the pool in line with the CIDRs the node resource lists. -/
def updatePool (prefixes : List MaskedCIDR) : CidrPool :=
  prefixes.foldl enroll ((pool.forget prefixes).dropMissing prefixes)

theorem mem_released_forget (block : MaskedCIDR) :
    block ∈ (pool.forget listed).released ↔ block ∈ pool.released ∧ block ∈ listed := by
  rw [mem_iff_lookup]
  show (∃ value, (pool.released.keys.foldl _ pool.released).lookup block = some value) ↔ _
  rw [lookup_foldl_erase (· ∈ listed), mem_iff_lookup]
  by_cases kept : block ∈ listed
  · simp [kept]
  · simp only [kept, not_false_eq_true, and_true, and_false, iff_false, not_exists]
    intro value found
    split at found
    · cases found
    case isFalse absent => exact absent (mem_of_lookup found)

/-- The pool uses a new CIDR only if it is listed and not released, keeps what it has, and knows
every listed CIDR afterwards. -/
structure Enrolls (listed : List MaskedCIDR) (before after : CidrPool) : Prop where
  fresh : ∀ block ∈ after.inUseCIDRs,
    block ∈ before.inUseCIDRs ∨ block ∈ listed ∧ block ∉ before.released
  inUse : ∀ block ∈ before.inUseCIDRs, block ∈ after.inUseCIDRs
  released : ∀ block ∈ before.released, block ∈ after.released
  origin : ∀ block ∈ after.released, block ∈ before.released ∨ block ∈ listed
  knows : ∀ block ∈ listed, after.Knows block

theorem enroll_enrolls : Enrolls [block] pool (pool.enroll block) := by
  have unchanged (known : pool.Knows block) : Enrolls [block] pool pool :=
    ⟨fun _ => .inl, fun _ => id, fun _ => id, fun _ => .inl, forall_mem_singleton.mpr known⟩
  unfold enroll
  split
  case isTrue existing => exact unchanged (.inl existing)
  · split
    case isTrue known => exact unchanged (.inr known)
    case isFalse fresh =>
      split
      · refine ⟨fun _ => .inl, fun _ => id, fun _ member => (mem_insert _).mpr (.inr member),
          fun other added => ?_, forall_mem_singleton.mpr (.inr ((mem_insert _).mpr (.inl rfl)))⟩
        exact ((mem_insert _).mp added).symm.imp_right mem_singleton.mpr
      · have cidrs (other : MaskedCIDR) :
            other ∈ (pool.ipAllocators ++ [pool.newRange block]).map Range.block ↔
              other ∈ pool.inUseCIDRs ∨ other = block := by
          rw [blocks_append_newRange, mem_append, mem_singleton]
        refine ⟨fun other member => ?_, fun other member => (cidrs other).mpr (.inl member),
          fun _ => id, fun _ => .inl,
          forall_mem_singleton.mpr (.inl ((cidrs block).mpr (.inr rfl)))⟩
        refine ((cidrs other).mp member).imp_right fun last => ⟨mem_singleton.mpr last, ?_⟩
        rw [last]
        exact fresh

end

theorem Enrolls.trans {first second : List MaskedCIDR} {before between after : CidrPool}
    (one : Enrolls first before between) (two : Enrolls second between after) :
    Enrolls (first ++ second) before after where
  fresh block member := by
    rcases two.fresh block member with earlier | ⟨listed, fresh⟩
    · exact (one.fresh block earlier).imp_right fun ⟨listed, fresh⟩ =>
        ⟨mem_append_left _ listed, fresh⟩
    · exact .inr ⟨mem_append_right _ listed, fun known => fresh (one.released block known)⟩
  inUse block member := two.inUse block (one.inUse block member)
  released block member := two.released block (one.released block member)
  origin block member := by
    rcases two.origin block member with earlier | listed
    · exact (one.origin block earlier).imp_right (mem_append_left _)
    · exact .inr (mem_append_right _ listed)
  knows block member := by
    rcases mem_append.mp member with listed | listed
    · exact (one.knows block listed).imp (two.inUse block) (two.released block)
    · exact two.knows block listed

theorem foldl_enroll_enrolls (listed : List MaskedCIDR) (pool : CidrPool) :
    Enrolls listed pool (listed.foldl enroll pool) := by
  induction listed generalizing pool with
  | nil =>
    exact ⟨fun _ => .inl, fun _ => id, fun _ => id, fun _ => .inl, forall_mem_nil _⟩
  | cons block rest inductionHypothesis =>
    exact (pool.enroll_enrolls block).trans (inductionHypothesis (pool.enroll block))

/-- The pool uses a new CIDR only if it is listed and was not released, a released CIDR stays
released as long as it is listed, and afterwards the pool knows the listed CIDRs, and others only if
they are in use. -/
structure Updates (listed : List MaskedCIDR) (before after : CidrPool) : Prop where
  fresh : ∀ block ∈ after.inUseCIDRs,
    block ∈ before.inUseCIDRs ∨ block ∈ listed ∧ block ∉ before.released
  released : ∀ block ∈ before.released, block ∈ listed → block ∈ after.released
  origin : ∀ block ∈ after.released, block ∈ listed
  knows : ∀ block ∈ listed, after.Knows block

section

variable (pool : CidrPool)

theorem updatePool_updates (prefixes : List MaskedCIDR) :
    Updates prefixes pool (pool.updatePool prefixes) := by
  have enrolls := foldl_enroll_enrolls prefixes ((pool.forget prefixes).dropMissing prefixes)
  have released := pool.mem_released_forget prefixes
  refine ⟨fun block member => ?_, fun block member listed => ?_, fun block member => ?_,
    enrolls.knows⟩
  · rcases enrolls.fresh block member with before | ⟨listed, fresh⟩
    · exact .inl ((filter_sublist.map Range.block).subset before)
    · exact .inr ⟨listed, fun known => fresh ((released block).mpr ⟨known, listed⟩)⟩
  · exact enrolls.released block ((released block).mpr ⟨member, listed⟩)
  · exact (enrolls.origin block member).elim (fun kept => ((released block).mp kept).2) id

/-! ### Releasing and reclaiming -/

/-- The order of masked CIDRs: by family, address and number of bits. -/
def before (first second : MaskedCIDR) : Bool :=
  let one := first.val
  let two := second.val
  decide (one.addr.family.bitLen < two.addr.family.bitLen) ||
    (one.addr.family.bitLen == two.addr.family.bitLen &&
      (decide (one.addr.value < two.addr.value) ||
        (one.addr.value == two.addr.value && decide (one.bits ≤ two.bits))))

def sorted (blocks : List MaskedCIDR) : List MaskedCIDR :=
  blocks.insertionSort fun first second => before first second

theorem mem_sorted (blocks : List MaskedCIDR) (block : MaskedCIDR) :
    block ∈ sorted blocks ↔ block ∈ blocks :=
  mem_insertionSort _

def reopen (block : MaskedCIDR) (released : block ∈ pool.released) : CidrPool :=
  { pool with
    ipAllocators := pool.ipAllocators ++ [pool.newRange block]
    released := pool.released.erase block
    distinct := by
      rw [blocks_append_newRange]
      exact nodup_append_comm.mp
        (nodup_cons.mpr ⟨fun member => pool.separate block member released, pool.distinct⟩)
    separate := by
      intro other member kept
      obtain ⟨different, kept⟩ := mem_erase.mp kept
      rw [blocks_append_newRange, mem_append, mem_singleton] at member
      rcases member with earlier | same
      · exact pool.separate other earlier kept
      · exact different same }

def reclaimRound (neededIPs : Int) (state : CidrPool × Nat) (block : MaskedCIDR) :
    CidrPool × Nat :=
  if (state.2 : Int) ≥ neededIPs then state
  else if (state.1.newRange block).free = 0 then state
  else if released : block ∈ state.1.released then
    (state.1.reopen block released, state.2 + (state.1.newRange block).free)
  else state

def reclaim (neededIPs : Int) : CidrPool × Nat :=
  if (pool.totalFree : Int) < neededIPs ∧ pool.released.keys ≠ [] then
    (sorted pool.released.keys).foldl (reclaimRound neededIPs) (pool, pool.totalFree)
  else (pool, pool.totalFree)

/-- Releases unused CIDRs as long as enough addresses stay free: what is retained and what is
released. -/
def retain (neededIPs : Int) : List Range → Int → List Range × List MaskedCIDR
  | [], _ => ([], [])
  | range :: rest, totalFree =>
    if range.used = 0 ∧ totalFree - range.free ≥ neededIPs then
      let (retained, released) := retain neededIPs rest (totalFree - range.free)
      (retained, range.block :: released)
    else
      let (retained, released) := retain neededIPs rest totalFree
      (range :: retained, released)

/-- Every allocator is either retained or has its CIDR released. -/
theorem retain_perm (ranges : List Range) (totalFree : Int) :
    ((retain neededIPs ranges totalFree).1.map block ++
      (retain neededIPs ranges totalFree).2).Perm (ranges.map block) := by
  induction ranges generalizing totalFree with
  | nil => exact .refl _
  | cons range rest inductionHypothesis =>
    unfold retain
    split
    · exact perm_middle.trans ((inductionHypothesis _).cons _)
    · exact (inductionHypothesis _).cons _

def withRetained (parts : List Range × List MaskedCIDR)
    (perm : (parts.1.map block ++ parts.2).Perm pool.inUseCIDRs) : CidrPool :=
  { pool with
    ipAllocators := parts.1
    released := parts.2.foldl (fun released block => released.insert block ()) pool.released
    distinct := (nodup_append.mp (perm.nodup_iff.mpr pool.distinct)).1
    separate := by
      intro block member released
      have apart := (nodup_append.mp (perm.nodup_iff.mpr pool.distinct)).2.2
      rcases (mem_foldl_insert _ _ _).mp released with dropped | earlier
      · exact apart block member block dropped rfl
      · exact pool.separate block (perm.mem_iff.mp (mem_append_left _ member)) earlier }

/-- The allocators are visited from the last one on, and those that stay keep the order of the
visit. -/
def releaseExcessCIDRsMultiPool (neededIPs : Int) : CidrPool :=
  let (reclaimed, totalFree) := pool.reclaim neededIPs
  reclaimed.withRetained (retain neededIPs reclaimed.ipAllocators.reverse totalFree)
    ((retain_perm _ _ _).trans ((reverse_perm _).map block))

/-- The pool knows the same CIDRs, its allocators come first, and a CIDR that comes into use was
released. -/
structure Reclaims (before after : CidrPool) : Prop where
  knows : ∀ block, after.Knows block ↔ before.Knows block
  fresh : ∀ block ∈ after.inUseCIDRs, block ∈ before.inUseCIDRs ∨ block ∈ before.released
  allocators : ∀ range ∈ before.ipAllocators, range ∈ after.ipAllocators

theorem Reclaims.refl : Reclaims pool pool :=
  ⟨fun _ => .rfl, fun _ => .inl, fun _ => id⟩

theorem Reclaims.trans {before between after : CidrPool} (one : Reclaims before between)
    (two : Reclaims between after) : Reclaims before after where
  knows block := (two.knows block).trans (one.knows block)
  fresh block member := (one.knows block).mp (two.fresh block member)
  allocators range member := two.allocators range (one.allocators range member)

theorem inUseCIDRs_reopen (block : MaskedCIDR) (released : block ∈ pool.released) :
    (pool.reopen block released).inUseCIDRs = pool.inUseCIDRs ++ [block] :=
  pool.blocks_append_newRange block

theorem reopen_reclaims (block : MaskedCIDR) (released : block ∈ pool.released) :
    Reclaims pool (pool.reopen block released) := by
  refine ⟨fun other => ?_, fun other member => ?_, fun range => mem_append_left _⟩
  · unfold Knows
    rw [inUseCIDRs_reopen, mem_append, mem_singleton]
    show _ ∨ other ∈ pool.released.erase block ↔ _
    by_cases same : other = block
    · subst same
      simp [released]
    · simp [same]
  · rw [inUseCIDRs_reopen, mem_append, mem_singleton] at member
    refine member.imp_right fun same => ?_
    rw [same]
    exact released

/-- A round reclaims CIDRs and keeps count of the free addresses. -/
theorem reclaimRound_reclaims (state : CidrPool × Nat) (block : MaskedCIDR)
    (counted : state.2 = state.1.totalFree) :
    Reclaims state.1 (reclaimRound neededIPs state block).1 ∧
      (reclaimRound neededIPs state block).2 =
        (reclaimRound neededIPs state block).1.totalFree := by
  unfold reclaimRound
  split
  · exact ⟨Reclaims.refl _, counted⟩
  · split
    · exact ⟨Reclaims.refl _, counted⟩
    · split
      case isTrue released =>
        refine ⟨reopen_reclaims _ _ released, ?_⟩
        show state.2 + _ = ((state.1.ipAllocators ++ [_]).map free).sum
        rw [map_append, sum_append, counted, map_singleton, sum_singleton]
        rfl
      · exact ⟨Reclaims.refl _, counted⟩

theorem reclaim_reclaims : Reclaims pool (pool.reclaim neededIPs).1 ∧
      (pool.reclaim neededIPs).2 = (pool.reclaim neededIPs).1.totalFree := by
  unfold reclaim
  split
  case isFalse _ => exact ⟨Reclaims.refl pool, rfl⟩
  case isTrue _ =>
    refine List.foldlRecOn
      (motive := fun state : CidrPool × Nat => Reclaims pool state.1 ∧ state.2 = state.1.totalFree)
      _ _ ⟨Reclaims.refl pool, rfl⟩ ?_
    intro state ⟨reclaims, counted⟩ block _
    obtain ⟨next, counted⟩ := reclaimRound_reclaims neededIPs state block counted
    exact ⟨reclaims.trans next, counted⟩

/-- The pool knows the same CIDRs, and one comes into use only if it was released and too few
addresses were free. -/
structure Trims (neededIPs : Int) (before after : CidrPool) : Prop where
  knows : ∀ block, after.Knows block ↔ before.Knows block
  fresh : ∀ block ∈ after.inUseCIDRs, block ∈ before.inUseCIDRs ∨
    block ∈ before.released ∧ (before.totalFree : Int) < neededIPs

theorem withRetained_knows (parts : List Range × List MaskedCIDR)
    (perm : (parts.1.map block ++ parts.2).Perm pool.inUseCIDRs) (block : MaskedCIDR) :
    (pool.withRetained parts perm).Knows block ↔ pool.Knows block := by
  show block ∈ parts.1.map Range.block ∨ block ∈ parts.2.foldl _ pool.released ↔ _
  rw [mem_foldl_insert, ← or_assoc, ← mem_append, perm.mem_iff]
  rfl

theorem releaseExcessCIDRsMultiPool_trims :
    Trims neededIPs pool (pool.releaseExcessCIDRsMultiPool neededIPs) := by
  obtain ⟨reclaims, _⟩ := pool.reclaim_reclaims neededIPs
  have perm := (retain_perm neededIPs (pool.reclaim neededIPs).1.ipAllocators.reverse
    (pool.reclaim neededIPs).2).trans ((reverse_perm _).map block)
  refine ⟨fun block => ?_, fun block member => ?_⟩
  · exact (withRetained_knows _ _ perm block).trans (reclaims.knows block)
  · have earlier : block ∈ (pool.reclaim neededIPs).1.inUseCIDRs :=
      perm.mem_iff.mp (mem_append_left _ member)
    by_cases enough : (pool.totalFree : Int) < neededIPs
    · exact (reclaims.fresh block earlier).imp_right fun released => ⟨released, enough⟩
    · unfold reclaim at earlier
      rw [if_neg fun short => enough short.1] at earlier
      exact .inl earlier

end

variable {neededIPs : Int}

theorem mem_retain_of_used {range : Range} (inUse : range.used ≠ 0) {totalFree : Int}
    (member : range ∈ ranges) :
    range ∈ (retain neededIPs ranges totalFree).1 := by
  induction ranges generalizing totalFree with
  | nil => cases member
  | cons head rest inductionHypothesis =>
    unfold retain
    rcases mem_cons.mp member with rfl | later
    · rw [if_neg fun unused => inUse unused.1]
      exact .head _
    · split
      · exact inductionHypothesis later
      · exact mem_cons_of_mem _ (inductionHypothesis later)

theorem retain_ne_nil (needed : 0 < neededIPs) (some : ranges ≠ []) :
    (retain neededIPs ranges ((ranges.map free).sum : Nat)).1 ≠ [] := by
  induction ranges with
  | nil => exact absurd rfl some
  | cons range rest inductionHypothesis =>
    have remaining : (((range :: rest).map free).sum : Nat) - (range.free : Int) =
        ((rest.map free).sum : Nat) := by
      rw [map_cons, sum_cons, Int.natCast_add, Int.add_comm, Int.add_sub_cancel]
    unfold retain
    rw [remaining]
    split
    case isTrue enough =>
      refine inductionHypothesis ?_
      rintro rfl
      exact absurd enough.2 (not_le.mpr needed)
    · exact cons_ne_nil _ _

/-- A pool keeps an allocator if it has one with an address in use, or has any and needs free
addresses. -/
theorem releaseExcessCIDRsMultiPool_ne_nil (some : pool.ipAllocators ≠ [])
    (keeps : (∃ range ∈ pool.ipAllocators, range.used ≠ 0) ∨ 0 < neededIPs) :
    (pool.releaseExcessCIDRsMultiPool neededIPs).ipAllocators ≠ [] := by
  obtain ⟨reclaims, counted⟩ := pool.reclaim_reclaims neededIPs
  show (retain neededIPs (pool.reclaim neededIPs).1.ipAllocators.reverse
    (pool.reclaim neededIPs).2).1 ≠ []
  rcases keeps with ⟨range, member, inUse⟩ | needed
  · exact ne_nil_of_mem (mem_retain_of_used inUse
      (mem_reverse.mpr (reclaims.allocators range member)))
  · have total : ((pool.reclaim neededIPs).2 : Int) =
        (((pool.reclaim neededIPs).1.ipAllocators.reverse.map free).sum : Nat) := by
      rw [counted, map_reverse, sum_reverse]
      rfl
    rw [total]
    refine retain_ne_nil needed ?_
    obtain ⟨range, member⟩ := exists_mem_of_ne_nil _ some
    exact ne_nil_of_mem (mem_reverse.mpr (reclaims.allocators range member))

end CidrPool

/-- Four addresses from a multiple of four on. -/
def quad (number : BitVec 32) : MaskedCIDR :=
  CIDR.toMasked ⟨.ofBits (4 * number), 30, (by decide : 30 ≤ 32)⟩

end Constellation.Ipam
