/-
This file models the allocation of addresses out of one CIDR. A `Range` maps the allocatable
addresses of a CIDR to offsets and keeps an `AllocationBitmap` of the offsets in use. The random
offset from which the next address is searched is an argument.
-/

import Mathlib

namespace Constellation.Ipam

open Finset Bool

variable {start offset : Nat}

/-! ### Addresses -/

inductive Family
  | ipv4
  | ipv6
  deriving DecidableEq, Repr

def Family.bitLen : Family → Nat
  | .ipv4 => 32
  | .ipv6 => 128

/-- A valid address without a zone. -/
@[ext]
structure Addr where
  family : Family
  value : Nat
  value_lt : value < 2 ^ family.bitLen
  deriving DecidableEq, Repr

namespace Addr

def ofBits (bits : BitVec 32) : Addr := ⟨.ipv4, bits.toNat, bits.isLt⟩

/-- Groups of bits, the highest first. -/
def groups (bits count value : Nat) : List Nat :=
  (List.range count).reverse.map fun position => value / 2 ^ (bits * position) % 2 ^ bits

def string4 (value : Nat) : String :=
  ".".intercalate ((groups 8 4 value).map toString)

def hexGroups (words : List Nat) : String :=
  ":".intercalate (words.map fun word => String.ofList (Nat.toDigits 16 word))

def zerosAt (words : List Nat) (position : Nat) : Nat :=
  ((words.drop position).takeWhile (· = 0)).length

/-- The first of the longest runs of at least two zero groups is left out. -/
def string6 (value : Nat) : String :=
  let words := groups 16 8 value
  match (List.range 8).argmax (zerosAt words) with
  | none => hexGroups words
  | some start =>
    if zerosAt words start < 2 then hexGroups words
    else
      hexGroups (words.take start) ++ "::" ++ hexGroups (words.drop (start + zerosAt words start))

def string (addr : Addr) : String :=
  match addr.family with
  | .ipv4 => string4 addr.value
  | .ipv6 =>
    if addr.value / 2 ^ 32 = 0xffff then "::ffff:" ++ string4 (addr.value % 2 ^ 32)
    else string6 addr.value

end Addr

def addOffset (base : Addr) (offset : Nat) : Addr where
  family := base.family
  value := (base.value + offset) % 2 ^ base.family.bitLen
  value_lt := Nat.mod_lt _ (Nat.two_pow_pos _)

/-! ### CIDRs -/

/-- The other bits need not be zero. -/
@[ext]
structure CIDR where
  addr : Addr
  bits : Nat
  bits_le : bits ≤ addr.family.bitLen
  deriving DecidableEq, Repr

namespace CIDR

variable (cidr : CIDR)

def hostBits : Nat := cidr.addr.family.bitLen - cidr.bits

def contains (addr : Addr) : Bool :=
  decide (addr.family = cidr.addr.family) &&
    addr.value / 2 ^ cidr.hostBits == cidr.addr.value / 2 ^ cidr.hostBits

/-- The network address, as a number. -/
def network : Nat :=
  cidr.addr.value / 2 ^ cidr.hostBits * 2 ^ cidr.hostBits

def masked : CIDR where
  addr :=
    { family := cidr.addr.family
      value := cidr.network
      value_lt := (Nat.div_mul_le_self _ _).trans_lt cidr.addr.value_lt }
  bits := cidr.bits
  bits_le := cidr.bits_le

/-- One of two CIDRs contains the address of the other. -/
def overlaps (cidr other : CIDR) : Bool :=
  cidr.contains other.addr || other.contains cidr.addr

def string : String :=
  cidr.addr.string ++ "/" ++ toString cidr.bits

theorem contains_iff (cidr : CIDR) (addr : Addr) :
    cidr.contains addr = true ↔ addr.family = cidr.addr.family ∧
      addr.value / 2 ^ cidr.hostBits = cidr.addr.value / 2 ^ cidr.hostBits := by
  rw [contains, and_eq_true, decide_eq_true_eq, beq_iff_eq]

variable {cidr other : CIDR} {addr : Addr}

/-- An address of a CIDR stands for the CIDR wherever fewer bits count. -/
theorem contains_addr (inOther : other.contains addr = true)
    (narrower : other.hostBits ≤ cidr.hostBits) :
    cidr.contains other.addr = cidr.contains addr := by
  obtain ⟨family, quotient⟩ := (contains_iff other addr).mp inOther
  rw [contains, contains, family, ← Nat.add_sub_cancel' narrower, Nat.pow_add]
  simp only [← Nat.div_div_eq_div_mul, quotient]

theorem overlaps_of_contains (inside : cidr.contains addr = true)
    (inOther : other.contains addr = true) :
    cidr.overlaps other = true := by
  rw [overlaps, or_eq_true]
  rcases Nat.le_total other.hostBits cidr.hostBits with narrower | wider
  · exact .inl ((contains_addr inOther narrower).trans inside)
  · exact .inr ((contains_addr inside wider).trans inOther)

theorem overlaps_comm (cidr other : CIDR) : cidr.overlaps other = other.overlaps cidr :=
  or_comm _ _

@[simp]
theorem contains_masked (cidr : CIDR) (addr : Addr) :
    cidr.masked.contains addr = cidr.contains addr := by
  rw [Bool.eq_iff_iff, contains_iff, contains_iff]
  show _ ∧ addr.value / 2 ^ cidr.hostBits = cidr.network / 2 ^ cidr.hostBits ↔ _
  rw [network, Nat.mul_div_cancel _ (Nat.two_pow_pos _)]
  rfl

@[simp]
theorem network_masked (cidr : CIDR) : cidr.masked.network = cidr.network := by
  show cidr.network / 2 ^ cidr.hostBits * 2 ^ cidr.hostBits = cidr.network
  rw [network, Nat.mul_div_cancel _ (Nat.two_pow_pos _)]

/-- A CIDR whose other bits are clear is masked. -/
theorem masked_eq_self (clear : cidr.network = cidr.addr.value) :
    cidr.masked = cidr :=
  CIDR.ext (Addr.ext rfl clear) rfl

@[simp]
theorem masked_masked (cidr : CIDR) : cidr.masked.masked = cidr.masked :=
  masked_eq_self (network_masked cidr)

/-- The addresses of a CIDR are those from its network address on. -/
theorem contains_iff_between (cidr : CIDR) (addr : Addr) :
    cidr.contains addr = true ↔ addr.family = cidr.addr.family ∧
      cidr.network ≤ addr.value ∧ addr.value < cidr.network + 2 ^ cidr.hostBits := by
  have positive := Nat.two_pow_pos cidr.hostBits
  rw [contains_iff, Nat.div_eq_iff positive]
  show _ ∧ cidr.network ≤ addr.value ∧ addr.value ≤ cidr.network + 2 ^ cidr.hostBits - 1 ↔ _
  refine and_congr_right fun _ => and_congr_right fun _ => ?_
  omega

/-- The addresses of a CIDR end within the addresses of the family. -/
theorem network_add_le (cidr : CIDR) :
    cidr.network + 2 ^ cidr.hostBits ≤ 2 ^ cidr.addr.family.bitLen := by
  have total : 2 ^ cidr.addr.family.bitLen = 2 ^ cidr.bits * 2 ^ cidr.hostBits := by
    rw [← Nat.pow_add, CIDR.hostBits, Nat.add_sub_cancel' cidr.bits_le]
  have below : cidr.addr.value / 2 ^ cidr.hostBits < 2 ^ cidr.bits := by
    rw [Nat.div_lt_iff_lt_mul (Nat.two_pow_pos _), ← total]
    exact cidr.addr.value_lt
  rw [network, ← Nat.succ_mul, total]
  exact Nat.mul_le_mul_right _ below

end CIDR

/-! ### Bitmaps -/

/-- The count is the number of set bits. -/
structure AllocationBitmap where
  max : Nat
  allocated : Finset Nat
  count : Nat
  count_eq : count = allocated.card

namespace AllocationBitmap

def newAllocationMap (max : Nat) : AllocationBitmap := ⟨max, ∅, 0, rfl⟩

variable (bitmap : AllocationBitmap)

def setBit (offset : Nat) (free : offset ∉ bitmap.allocated) : AllocationBitmap where
  max := bitmap.max
  allocated := insert offset bitmap.allocated
  count := bitmap.count + 1
  count_eq := by rw [card_insert_of_notMem free, bitmap.count_eq]

def allocate (offset : Nat) : Option AllocationBitmap :=
  if free : offset ∉ bitmap.allocated then some (bitmap.setBit offset free) else none

def allocateBit (start : Nat) : Option Nat :=
  if bitmap.count ≥ bitmap.max then none
  else
    ((List.range bitmap.max).map fun step => (start + step) % bitmap.max).find?
      fun offset => decide (offset ∉ bitmap.allocated)

theorem not_mem_of_allocateBit {bitmap : AllocationBitmap}
    (found : bitmap.allocateBit start = some offset) :
    (offset < bitmap.max ∧ bitmap.count < bitmap.max) ∧ offset ∉ bitmap.allocated := by
  unfold allocateBit at found
  split at found
  · cases found
  case isFalse room =>
    have free := List.find?_some found
    obtain ⟨step, inside, rfl⟩ := List.mem_map.mp (List.mem_of_find?_eq_some found)
    exact ⟨⟨Nat.mod_lt _ (Nat.zero_lt_of_lt (List.mem_range.mp inside)), not_le.mp room⟩,
      of_decide_eq_true free⟩

def allocateNext (start : Nat) : Option (Nat × AllocationBitmap) :=
  match found : bitmap.allocateBit start with
  | none => none
  | some offset => some (offset, bitmap.setBit offset (not_mem_of_allocateBit found).2)

def release (offset : Nat) : AllocationBitmap :=
  if used : offset ∈ bitmap.allocated then
    { max := bitmap.max
      allocated := bitmap.allocated.erase offset
      count := bitmap.count - 1
      count_eq := by rw [card_erase_of_mem used, bitmap.count_eq] }
  else bitmap

end AllocationBitmap

/-! ### Ranges -/

def rangeSize (cidr : CIDR) : Nat :=
  if cidr.addr.family = .ipv4 ∧ cidr.hostBits ≥ 31 ∨ cidr.addr.family = .ipv6 ∧ cidr.hostBits ≥ 127
    then 0
  else if cidr.addr.family = .ipv6 ∧ cidr.hostBits ≥ 16 then 2 ^ 16
  else 2 ^ cidr.hostBits

theorem rangeSize_le (cidr : CIDR) : rangeSize cidr ≤ 2 ^ cidr.hostBits := by
  unfold rangeSize
  split
  · exact Nat.zero_le _
  · split
    case isTrue capped => exact Nat.pow_le_pow_right Nat.two_pos capped.2
    · exact le_rfl

structure Range where
  cidr : CIDR
  base : Addr
  max : Nat
  alloc : AllocationBitmap
  alloc_max : alloc.max = max
  base_family : base.family = cidr.addr.family
  network_le_base : cidr.network ≤ base.value
  base_add_max_le : base.value + max ≤ cidr.network + 2 ^ cidr.hostBits

namespace Range

theorem addOffset_one_value {cidr : CIDR} (large : rangeSize cidr > 2) :
    (addOffset cidr.masked.addr 1).value = cidr.network + 1 := by
  have size := rangeSize_le cidr
  have bound := cidr.network_add_le
  refine Nat.mod_eq_of_lt ?_
  show cidr.network + 1 < 2 ^ cidr.addr.family.bitLen
  omega

def whole (cidr : CIDR) : Range where
  cidr := cidr.masked
  base := cidr.masked.addr
  max := rangeSize cidr
  alloc := AllocationBitmap.newAllocationMap (rangeSize cidr)
  alloc_max := rfl
  base_family := rfl
  network_le_base := (CIDR.network_masked cidr).le
  base_add_max_le := by
    rw [CIDR.network_masked]
    exact Nat.add_le_add_left (rangeSize_le cidr) _

/-- The first and the last address are left out if there are more than two. -/
def newCIDRRange (cidr : CIDR) : Range :=
  if large : rangeSize cidr > 2 then
    { cidr := cidr.masked
      base := addOffset cidr.masked.addr 1
      max := rangeSize cidr - 2
      alloc := AllocationBitmap.newAllocationMap (rangeSize cidr - 2)
      alloc_max := rfl
      base_family := rfl
      network_le_base := by
        rw [addOffset_one_value large, CIDR.network_masked]
        exact Nat.le_succ _
      base_add_max_le := by
        rw [addOffset_one_value large, CIDR.network_masked]
        show _ ≤ cidr.network + 2 ^ cidr.hostBits
        have size := rangeSize_le cidr
        omega }
  else whole cidr

def contains (range : Range) (addr : Addr) : Option Nat :=
  if range.cidr.contains addr then
    if addr.value < range.base.value then none
    else
      let offset := addr.value - range.base.value
      if offset ≥ range.max then none else some offset
  else none

def errNotInRange (range : Range) : String :=
  "provided IP is not in the valid range. The range of valid IPs is " ++ range.cidr.string

def errAllocated : String := "provided IP is already allocated"

def errFull : String := "range is full"

def withAlloc (range : Range) (alloc : AllocationBitmap) (same : alloc.max = range.alloc.max) :
    Range :=
  { range with alloc := alloc, alloc_max := same.trans range.alloc_max }

end Range

namespace AllocationBitmap

variable {bitmap later : AllocationBitmap}

theorem allocate_max (allocated : bitmap.allocate offset = some later) :
    later.max = bitmap.max := by
  unfold allocate at allocated
  split at allocated
  · cases allocated
    rfl
  · cases allocated

theorem allocateNext_max (allocated : bitmap.allocateNext start = some (offset, later)) :
    later.max = bitmap.max := by
  unfold allocateNext at allocated
  split at allocated
  · cases allocated
  · cases allocated
    rfl

theorem release_max (bitmap : AllocationBitmap) (offset : Nat) :
    (bitmap.release offset).max = bitmap.max := by
  unfold release
  split <;> rfl

end AllocationBitmap

namespace Range

variable (range : Range)

def allocate (addr : Addr) : Except String Range :=
  match range.contains addr with
  | none => .error range.errNotInRange
  | some offset =>
    match allocated : range.alloc.allocate offset with
    | none => .error errAllocated
    | some alloc => .ok (range.withAlloc alloc (AllocationBitmap.allocate_max allocated))

def allocateNext (start : Nat) : Except String (Addr × Range) :=
  match allocated : range.alloc.allocateNext start with
  | none => .error errFull
  | some (offset, alloc) =>
    .ok (addOffset range.base offset,
      range.withAlloc alloc (AllocationBitmap.allocateNext_max allocated))

/-- Nothing happens if the address is not in the range or not in use. -/
def release (addr : Addr) : Range :=
  match range.contains addr with
  | none => range
  | some offset =>
    range.withAlloc (range.alloc.release offset) (AllocationBitmap.release_max range.alloc offset)

def free : Nat := range.max - range.alloc.count

def has (addr : Addr) : Bool :=
  match range.contains addr with
  | none => false
  | some offset => decide (offset ∈ range.alloc.allocated)

/-! ### Offsets and addresses -/

variable {range : Range} {addr other : Addr}

/-- Offsets within a range do not wrap around. -/
theorem addOffset_value (inside : offset < range.max) :
    (addOffset range.base offset).value = range.base.value + offset := by
  have bound := range.cidr.network_add_le
  have top := range.base_add_max_le
  refine Nat.mod_eq_of_lt ?_
  rw [range.base_family]
  omega

/-- An address is in the range at an offset exactly if it is the address at that offset. -/
theorem contains_eq_some_iff :
    range.contains addr = some offset ↔
      offset < range.max ∧ addr = addOffset range.base offset := by
  have low := range.network_le_base
  have high := range.base_add_max_le
  unfold contains
  constructor
  · intro found
    split at found
    case isFalse _ => cases found
    case isTrue inside =>
      split at found
      · cases found
      case isFalse notBelow =>
        dsimp only at found
        split at found
        · cases found
        case isFalse small =>
          cases found
          rw [not_le] at small
          refine ⟨small, Addr.ext ?_ ?_⟩
          · exact ((range.cidr.contains_iff addr).mp inside).1.trans range.base_family.symm
          · rw [addOffset_value small, Nat.add_sub_cancel' (not_lt.mp notBelow)]
  · intro ⟨small, same⟩
    subst same
    have value := addOffset_value small
    have inside : range.cidr.contains (addOffset range.base offset) = true := by
      rw [CIDR.contains_iff_between, value]
      refine ⟨range.base_family, ?_, ?_⟩ <;> omega
    rw [if_pos inside, value, if_neg (by omega)]
    rw [Nat.add_sub_cancel_left, if_neg (not_le.mpr small)]

/-- Distinct addresses of a range have distinct offsets. -/
theorem contains_inj {otherOffset : Nat} (found : range.contains addr = some offset)
    (otherFound : range.contains other = some otherOffset) :
    otherOffset = offset ↔ other = addr := by
  constructor
  · intro same
    subst same
    rw [(contains_eq_some_iff.mp found).2, (contains_eq_some_iff.mp otherFound).2]
  · intro same
    subst same
    exact Option.some.inj (otherFound.symm.trans found)

theorem contains_of_has (used : range.has addr = true) : range.cidr.contains addr = true := by
  unfold has contains at used
  by_contra outside
  rw [if_neg outside] at used
  cases used

/-! ### What the operations make of the addresses in use -/

theorem has_withAlloc_insert (found : range.contains addr = some offset) {alloc : AllocationBitmap}
    (same : alloc.max = range.alloc.max)
    (set : alloc.allocated = insert offset range.alloc.allocated) (other : Addr) :
    (range.withAlloc alloc same).has other = (decide (other = addr) || range.has other) := by
  show (match range.contains other with | none => false | some _ => _) = _
  unfold has
  cases otherFound : range.contains other with
  | none =>
    have differ : other ≠ addr := by
      intro same
      subst same
      rw [found] at otherFound
      cases otherFound
    simp [differ]
  | some otherOffset =>
    show decide (otherOffset ∈ alloc.allocated) = _
    simp only [set, mem_insert, contains_inj found otherFound, decide_or]

variable {later : Range}

/-- A reserved address was free, and is the only one that comes into use. -/
theorem allocate_spec (allocated : range.allocate addr = .ok later) :
    later.cidr = range.cidr ∧ range.has addr = false ∧
      ∀ other, later.has other = (decide (other = addr) || range.has other) := by
  unfold allocate at allocated
  split at allocated
  · cases allocated
  case h_2 offset found =>
    split at allocated
    · cases allocated
    case h_2 alloc set =>
      cases allocated
      unfold AllocationBitmap.allocate at set
      split at set
      case isFalse _ => cases set
      case isTrue free =>
        cases set
        refine ⟨rfl, ?_, has_withAlloc_insert found _ rfl⟩
        unfold has
        rw [found]
        exact decide_eq_false free

/-- The next address is in the range and was free, and it is the only one that comes into use. It
comes out of the free ones. -/
theorem allocateNext_spec {start : Nat} (allocated : range.allocateNext start = .ok (addr, later)) :
    later.cidr = range.cidr ∧ range.cidr.contains addr = true ∧ range.has addr = false ∧
      (∀ other, later.has other = (decide (other = addr) || range.has other)) ∧
      later.free < range.free := by
  unfold allocateNext at allocated
  split at allocated
  · cases allocated
  case h_2 offset alloc next =>
    cases allocated
    unfold AllocationBitmap.allocateNext at next
    split at next
    · cases next
    case h_2 chosen bit =>
      obtain ⟨rfl, rfl⟩ := Prod.mk.inj (Option.some.inj next)
      obtain ⟨⟨small, room⟩, free⟩ := AllocationBitmap.not_mem_of_allocateBit bit
      rw [range.alloc_max] at small room
      have found : range.contains (addOffset range.base chosen) = some chosen :=
        contains_eq_some_iff.mpr ⟨small, rfl⟩
      refine ⟨rfl, ?_, ?_, has_withAlloc_insert found _ rfl, ?_⟩
      · unfold contains at found
        by_contra outside
        rw [if_neg outside] at found
        cases found
      · unfold has
        rw [found]
        exact decide_eq_false free
      · exact Nat.sub_succ_lt_self _ _ room

theorem release_cidr (range : Range) (addr : Addr) : (range.release addr).cidr = range.cidr := by
  unfold release
  split <;> rfl

/-- A released address is the only one that goes out of use. -/
theorem has_release (range : Range) (addr other : Addr) :
    (range.release addr).has other = (decide (other ≠ addr) && range.has other) := by
  unfold release
  cases found : range.contains addr with
  | none =>
    by_cases same : other = addr
    · subst same
      simp [has, found]
    · simp [same]
  | some offset =>
    show (match range.contains other with | none => false | some _ => _) = _
    unfold has
    cases otherFound : range.contains other with
    | none => simp
    | some otherOffset =>
      have offsets := contains_inj found otherFound
      show decide (otherOffset ∈ (range.alloc.release offset).allocated) = _
      unfold AllocationBitmap.release
      split
      case isTrue used => simp only [mem_erase, ne_eq, offsets, decide_and]
      case isFalse unused =>
        by_cases same : other = addr
        · rw [offsets.mpr same]
          simp [unused]
        · simp [same]

@[simp]
theorem newCIDRRange_cidr (cidr : CIDR) : (newCIDRRange cidr).cidr = cidr.masked := by
  unfold newCIDRRange
  split <;> rfl

@[simp]
theorem has_newCIDRRange (cidr : CIDR) (addr : Addr) : (newCIDRRange cidr).has addr = false := by
  have empty : (newCIDRRange cidr).alloc.allocated = ∅ := by
    unfold newCIDRRange
    split <;> rfl
  unfold has
  split
  · rfl
  · rw [empty]
    rfl

end Range

end Constellation.Ipam
