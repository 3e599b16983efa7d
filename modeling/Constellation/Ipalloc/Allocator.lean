/-
This file models the hash allocator of IP addresses: the list of available blocks, which is a heap
slice and a doubly linked list at once, and the map of the allocated addresses. Pointers to blocks
are numbers, and the functions of the heap package are parameters that permute the slice.
-/
import Constellation.Ipam.Range
import Constellation.Lib.GoMap

namespace Constellation.Ipalloc

open Ipam (Family)
open Lib

/-! ### Addresses -/

/-- A valid address of the standard library. Only an IPv6 address has a zone. -/
@[ext]
structure IP where
  family : Family
  value : Nat
  zone : String
  value_lt : value < 2 ^ family.bitLen
  zone_eq : family = .ipv4 → zone = ""

instance : DecidableEq IP := fun _ _ => decidable_of_iff' _ IP.ext_iff

/-- The zero address is `none`. -/
abbrev Addr := Option IP

namespace Addr

variable (addr : Addr)

def bitLen : Nat :=
  addr.elim 0 (fun ip => ip.family.bitLen)

/-- `AsSlice` as a big integer. -/
def number : Nat :=
  addr.elim 0 (fun ip => ip.value)

def zone : String :=
  addr.elim "" (fun ip => ip.zone)

/-- By length, then by number, then by zone. -/
def compare (addr other : Addr) : Ordering :=
  ((Ord.compare addr.bitLen other.bitLen).then (Ord.compare addr.number other.number)).then
    (Ord.compare addr.zone other.zone)

def ofNumber (family : Family) (n : Nat) : Addr :=
  if bound : n < 2 ^ family.bitLen then some ⟨family, n, "", bound, fun _ => rfl⟩ else none

/-- Keeps the zone; the last address is followed by the zero address. -/
def next : Addr :=
  addr.bind fun ip =>
    if bound : ip.value + 1 < 2 ^ ip.family.bitLen then
      some ⟨ip.family, ip.value + 1, ip.zone, bound, ip.zone_eq⟩
    else none

/-- Keeps the zone; the first address is preceded by the zero address. -/
def prev : Addr :=
  addr.bind fun ip =>
    if ip.value = 0 then none
    else some ⟨ip.family, ip.value - 1, ip.zone,
      (Nat.sub_le _ _).trans_lt ip.value_lt, ip.zone_eq⟩

end Addr

/-! ### Blocks -/

/-- A block with its links. -/
structure LinkedBlock where
  fromIP : Addr
  toIP : Addr
  size : Nat
  prev : Option Nat
  next : Option Nat

namespace LinkedBlock

def within (block : LinkedBlock) (ip : Addr) : Bool :=
  ip.compare block.fromIP != .lt && ip.compare block.toIP != .gt

/-- The difference of the bounds in integers of 128 bits (`addrDiff`). -/
def calcSize (block : LinkedBlock) : LinkedBlock :=
  { block with size := (block.toIP.number + 2 ^ 128 - block.fromIP.number) % 2 ^ 128 }

end LinkedBlock

/-- The first argument tells which of two pointers is the lesser. -/
structure HeapPackage where
  push : (Nat → Nat → Bool) → List Nat → Nat → List Nat
  fix : (Nat → Nat → Bool) → List Nat → Nat → List Nat
  remove : (Nat → Nat → Bool) → List Nat → Nat → List Nat

/-- One element is added or removed, and otherwise only the order changes. -/
structure HeapPackage.Lawful (heap : HeapPackage) : Prop where
  push_perm : ∀ less slice pointer, (heap.push less slice pointer).Perm (pointer :: slice)
  fix_perm : ∀ less slice index, index < slice.length → (heap.fix less slice index).Perm slice
  remove_perm : ∀ less slice index, index < slice.length →
    (heap.remove less slice index).Perm (slice.eraseIdx index)

/-- A pointer that is not below `fresh` has not been used yet. -/
structure BlockList where
  memory : Nat → LinkedBlock
  fresh : Nat
  slice : List Nat

inductive Failure
  | errFull
  | errOutOfRange
  | errInUse
  | errNotFound
  | errBadLoop
  | indexOutOfRange
  deriving DecidableEq, Repr

namespace BlockList

variable (abl : BlockList)

def less (pointer other : Nat) : Bool :=
  decide ((abl.memory pointer).size < (abl.memory other).size)

def write (pointer : Nat) (block : LinkedBlock) : BlockList :=
  { abl with memory := Function.update abl.memory pointer block }

def setNext (pointer next : Option Nat) : BlockList :=
  match pointer with
  | none => abl
  | some pointer => abl.write pointer { abl.memory pointer with next := next }

def setPrev (pointer prev : Option Nat) : BlockList :=
  match pointer with
  | none => abl
  | some pointer => abl.write pointer { abl.memory pointer with prev := prev }

/-- A new block at the pointer `fresh`. -/
def allocate (block : LinkedBlock) : BlockList :=
  { abl.write abl.fresh block with fresh := abl.fresh + 1 }

section
variable (heap : HeapPackage)

def push (abl : BlockList) (pointer : Nat) : BlockList :=
  { abl with slice := heap.push abl.less abl.slice pointer }

def fix (abl : BlockList) (index : Nat) : Except Failure BlockList :=
  if index < abl.slice.length then
    .ok { abl with slice := heap.fix abl.less abl.slice index }
  else .error .indexOutOfRange

def remove (abl : BlockList) (index : Nat) : Except Failure (Nat × BlockList) :=
  match abl.slice[index]? with
  | none => .error .indexOutOfRange
  | some pointer => .ok (pointer, { abl with slice := heap.remove abl.less abl.slice index })

def delete (abl : BlockList) (index : Nat) : Except Failure BlockList := do
  let (pointer, abl) ← abl.remove heap index
  let elem := abl.memory pointer
  let abl := abl.setNext elem.prev elem.next
  return abl.setPrev elem.next elem.prev

def merge (abl : BlockList) (left right : Nat) : Except Failure BlockList := do
  let leftOfLeft := (abl.memory left).prev
  let rightOfRight := (abl.memory right).next
  let merged := abl.fresh
  let abl := abl.allocate (LinkedBlock.calcSize
    { fromIP := (abl.memory left).fromIP, toIP := (abl.memory right).toIP, size := 0
      prev := leftOfLeft, next := rightOfRight })
  let abl := abl.setNext leftOfLeft (some merged)
  let abl := abl.setPrev rightOfRight (some merged)
  let (_, abl) ← abl.remove heap (abl.slice.idxOf left)
  let (_, abl) ← abl.remove heap (abl.slice.idxOf right)
  return abl.push heap merged

def insert (abl : BlockList) (left right : Option Nat) (newIP : Addr) : BlockList :=
  let block := abl.fresh
  let abl := abl.allocate { fromIP := newIP, toIP := newIP, size := 1, prev := left, next := right }
  let abl := abl.setNext left (some block)
  let abl := abl.setPrev right (some block)
  abl.push heap block

def split (abl : BlockList) (index : Nat) (ip : Addr) : Except Failure BlockList := do
  let (pointer, abl) ← abl.remove heap index
  let block := abl.memory pointer
  let left := abl.fresh
  let right := abl.fresh + 1
  let abl := abl.allocate (LinkedBlock.calcSize
    { fromIP := block.fromIP, toIP := ip.prev, size := 0, prev := block.prev, next := some right })
  let abl := abl.allocate (LinkedBlock.calcSize
    { fromIP := ip.next, toIP := block.toIP, size := 0, prev := some left, next := block.next })
  let abl := abl.setNext block.prev (some left)
  let abl := abl.setPrev block.next (some right)
  return (abl.push heap left).push heap right

/-- Shrinks, deletes or splits the block of an address. -/
def take (abl : BlockList) (ip : Addr) : Except Failure BlockList :=
  match abl.slice.findIdx? (fun pointer => (abl.memory pointer).within ip) with
  | none => .error .errInUse
  | some index =>
    match abl.slice[index]? with
    | none => .error .indexOutOfRange
    | some pointer =>
      let block := abl.memory pointer
      if block.fromIP = ip then
        if block.fromIP = block.toIP then abl.delete heap index
        else
          (abl.write pointer (LinkedBlock.calcSize { block with fromIP := block.fromIP.next })).fix
            heap index
      else if block.toIP = ip then
        if block.fromIP = block.toIP then abl.delete heap index
        else
          (abl.write pointer (LinkedBlock.calcSize { block with toIP := block.toIP.prev })).fix
            heap index
      else abl.split heap index ip

/-- The index counts the rounds, and `came` is the block of the round before. -/
def putFrom (abl : BlockList) (ip : Addr) :
    Nat → Nat → Option Nat → Nat → Except Failure BlockList
  | 0, _, _, _ => .error .errBadLoop
  | rounds + 1, i, came, curr =>
    let block := abl.memory curr
    if ip.compare block.fromIP = .lt then
      if block.fromIP.prev = ip then
        let abl := abl.write curr (LinkedBlock.calcSize { block with fromIP := block.fromIP.prev })
        match block.prev with
        | none => .ok abl
        | some left =>
          if (abl.memory left).toIP = (abl.memory curr).fromIP.prev then abl.merge heap left curr
          else .ok abl
      else
        match block.prev with
        | none => .ok (abl.insert heap none (some curr) ip)
        | some left =>
          if some left = came then .ok (abl.insert heap (some left) (some curr) ip)
          else putFrom abl ip rounds (i + 1) (some curr) left
    else if block.toIP.next = ip then do
      let abl := abl.write curr (LinkedBlock.calcSize { block with toIP := block.toIP.next })
      let abl ← abl.fix heap i
      match block.next with
      | none => return abl
      | some right =>
        if (abl.memory right).fromIP = (abl.memory curr).toIP.next then abl.merge heap curr right
        else return abl
    else
      match block.next with
      | none => .ok (abl.insert heap (some curr) none ip)
      | some right =>
        if some right = came then .ok (abl.insert heap (some curr) (some right) ip)
        else putFrom abl ip rounds (i + 1) (some curr) right

def maxIter : Nat := 1000000

/-- Grows a block or adds one. -/
def put (abl : BlockList) (ip : Addr) : Except Failure BlockList :=
  match abl.slice with
  | [] =>
    let block := abl.fresh
    let abl := abl.allocate { fromIP := ip, toIP := ip, size := 1, prev := none, next := none }
    .ok (abl.push heap block)
  | first :: _ => abl.putFrom heap ip maxIter 0 none first

end

end BlockList

/-! ### The allocator -/

/-- Addresses from `start` to `stop`, with a value for every allocated one. -/
structure HashAllocator (T : Type) where
  start : Addr
  stop : Addr
  peakAllocations : Nat
  allocations : GoMap Addr T
  availableBlocks : BlockList

namespace HashAllocator

variable {T : Type} (heap : HeapPackage)

/-- One block, unless the bounds are not those of a range. -/
def newHashAllocator (start stop : Addr) : Option (HashAllocator T) :=
  if start.isNone then none
  else if start.bitLen ≠ stop.bitLen then none
  else if start.compare stop = .gt then none
  else
    some {
      start := start
      stop := stop
      peakAllocations := 0
      allocations := ∅
      availableBlocks :=
        { memory := fun _ => LinkedBlock.calcSize
            { fromIP := start, toIP := stop, size := 0, prev := none, next := none }
          fresh := 1
          slice := [0] } }

variable (a : HashAllocator T)

def taken (ip : Addr) (val : T) (blocks : BlockList) : HashAllocator T :=
  let allocations := a.allocations.insert ip val
  { a with
    allocations := allocations
    peakAllocations := max a.peakAllocations allocations.entries.length
    availableBlocks := blocks }

def allocAny (val : T) : Except Failure (Addr × HashAllocator T) :=
  match a.availableBlocks.slice with
  | [] => .error .errFull
  | first :: _ => do
    let ip := (a.availableBlocks.memory first).fromIP
    let blocks ← a.availableBlocks.take heap ip
    return (ip, a.taken ip val blocks)

def alloc (ip : Addr) (val : T) : Except Failure (HashAllocator T) :=
  if ip.compare a.start = .lt ∨ ip.compare a.stop = .gt then .error .errOutOfRange
  else if ip ∈ a.allocations then .error .errInUse
  else if a.availableBlocks.slice = [] then .error .errFull
  else do
    let blocks ← a.availableBlocks.take heap ip
    return a.taken ip val blocks

def update (ip : Addr) (val : T) : Except Failure (HashAllocator T) :=
  if ip ∈ a.allocations then .ok { a with allocations := a.allocations.insert ip val }
  else .error .errNotFound

/-- A map that has become much smaller than it was is copied. -/
def free (ip : Addr) : Except Failure (HashAllocator T) :=
  if ip ∉ a.allocations then .error .errNotFound
  else do
    let blocks ← a.availableBlocks.put heap ip
    let allocations := a.allocations.erase ip
    let count := allocations.entries.length
    return { a with
      allocations := allocations
      peakAllocations := if count * 3 < a.peakAllocations then count else a.peakAllocations
      availableBlocks := blocks }

def get (ip : Addr) : Option T :=
  a.allocations.lookup ip

def stats : Nat × Int :=
  let allocated := a.allocations.entries.length
  (allocated, (a.stop.number : Int) - a.start.number + 1 - allocated)

end HashAllocator

end Constellation.Ipalloc
