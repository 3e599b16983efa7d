/-
This file models the operator's allocator of CIDRs out of several pools. What the nodes hold is
kept in two tables: the regular allocations, and the orphans, whose parent pool or parent set is
gone. Slices are updated in place, so that a failed update shows through the slice the pool still
has; nil entries and nil maps are kept as such, and a call that would dereference or write one has
no result. The order of loops over maps and the capacity of a slice that grows are left open.
-/

import Constellation.Multipool.CidrSet
import Constellation.Multipool.Table

namespace Constellation.Multipool

open Ipam (Addr CIDR Family)
open Lib

/-! ### Errors -/

inductive PoolError
  | cannotChangeMaskSize (pool : String) (family : Family)
  | cannotChangeAllowFirstIP (pool : String)
  | cannotChangeAllowLastIP (pool : String)
  | cidrCollision (cidr : CIDR)
  | notOfFamily (cidr : CIDR) (family : Family)
  | cidrSet (error : CidrSetError)
  | reservedRanges (cidr : CIDR)
  | outOfRange (cidr : CIDR)
  | alreadyAllocated (cidr : CIDR)
  | notPartOfPool (cidr : CIDR)
  | poolEmpty
  | poolNotExisting (pool : String)
  | invalidCIDR (pool : String)
  | orphanInUse (cidr : CIDR) (node : String) (error : PoolError)
  | markedAsOrphan (pool : String) (cidr : CIDR)
  | failedToAllocate (family : Family) (node pool : String) (error : PoolError)
  | notReady
  deriving DecidableEq, Repr

/-! ### Slices of CIDR sets -/

/-- The entries up to the length, of which some may be nil, and the capacity. -/
structure Slice where
  allocators : List (Option CidrSet)
  cap : Nat

/-- The order of loops over maps, and the capacity of a slice that grows to a length. -/
structure Runtime where
  order : IterationOrder
  grow : Nat → Nat → Nat
  le_grow : ∀ cap length, length ≤ grow cap length

namespace Slice

def nil : Slice := ⟨[], 0⟩

/-- In place if the sets fit the capacity, and else in a larger array. -/
def appended (runtime : Runtime) (slice : Slice) (sets : List CidrSet) : Slice :=
  ⟨sets.map some,
    if sets.length ≤ slice.cap then slice.cap else runtime.grow slice.cap sets.length⟩

/-- What the old slice shows after that: the sets that are kept, followed by the new sets if they
fit in; the rest is nil. -/
def overwritten (slice : Slice) (kept : Nat) (sets : List CidrSet) : Slice where
  allocators :=
    let shown := if sets.length ≤ slice.cap then sets else sets.take kept
    (shown.take slice.allocators.length).map some ++
      List.replicate (slice.allocators.length - shown.length) none
  cap := slice.cap

end Slice

def allocFirstFreeCIDR :
    List (Option CidrSet) → Option (Except PoolError (CIDR × List (Option CidrSet)))
  | [] => some (.error .poolEmpty)
  | none :: _ => none
  | some set :: rest =>
    if set.isFull then
      (allocFirstFreeCIDR rest).map fun result =>
        result.map fun (cidr, rest) => (cidr, some set :: rest)
    else
      some (match set.allocateNext with
        | .error error => .error (.cidrSet error)
        | .ok (cidr, set) => .ok (cidr, some set :: rest))

/-- The first set that has the CIDR in its range marks its blocks as used. -/
def occupyCIDR (cidr : CIDR) :
    List (Option CidrSet) → Option (Except PoolError (List (Option CidrSet)))
  | [] => some (.error (.notPartOfPool cidr))
  | none :: _ => none
  | some set :: rest =>
    if set.inRange cidr then
      some (match set.isAllocated cidr with
        | none => .error (.outOfRange cidr)
        | some true => .error (.alreadyAllocated cidr)
        | some false =>
          match set.occupy cidr with
          | none => .error (.outOfRange cidr)
          | some set => .ok (some set :: rest))
    else (occupyCIDR cidr rest).map fun result => result.map (some set :: ·)

/-- The first set that has the CIDR in its range frees its blocks. -/
def releaseCIDR (cidr : CIDR) :
    List (Option CidrSet) → Option (Except PoolError (List (Option CidrSet)))
  | [] => some (.error (.notPartOfPool cidr))
  | none :: _ => none
  | some set :: rest =>
    if set.inRange cidr then
      some (match set.isAllocated cidr with
        | none => .error (.outOfRange cidr)
        | some false => .ok (some set :: rest)
        | some true =>
          match set.release cidr with
          | none => .error (.outOfRange cidr)
          | some set => .ok (some set :: rest))
    else (releaseCIDR cidr rest).map fun result => result.map (some set :: ·)

def hasCIDR (cidr : CIDR) : List (Option CidrSet) → Option Bool
  | [] => some false
  | none :: _ => none
  | some set :: rest => if set.isClusterCIDR cidr then some true else hasCIDR cidr rest

def containsCIDR (sets : List CidrSet) (cidr : CIDR) : Bool := sets.any (·.inRange cidr)

/-- None of the CIDRs may be in the range of an earlier one. -/
def newCIDRSets (family : Family) (maskSize : Nat) :
    List CIDR → List CidrSet → Except PoolError (List CidrSet)
  | [], sets => .ok sets
  | cidr :: rest, sets =>
    if sets.any (·.inRange cidr) then .error (.cidrCollision cidr)
    else if cidr.addr.family ≠ family then .error (.notOfFamily cidr family)
    else
      match CidrSet.newCIDRSet cidr maskSize with
      | .error error => .error (.cidrSet error)
      | .ok set => newCIDRSets family maskSize rest (sets ++ [set])

/-! ### Pools -/

structure CidrPool where
  allocators : Dual Slice
  maskSize : Dual Nat
  allowFirstIP : Bool
  allowLastIP : Bool

def CidrPool.withAllocators (pool : CidrPool) (family : Family)
    (allocators : List (Option CidrSet)) : CidrPool :=
  { pool with
    allocators :=
      pool.allocators.set family { pool.allocators.of family with allocators := allocators } }

structure PoolCIDRConfig where
  cidr : CIDR
  reservedRanges : List (Addr × Addr)

/-! ### The allocator -/

structure PoolAllocator where
  enabled : Dual Bool
  pools : GoMap String CidrPool
  nodes : Table
  orphans : Table
  ready : Bool

def addrsInPrefix (cidr : CIDR) (allowFirstIP allowLastIP : Bool) : Nat :=
  let addrs := 2 ^ cidr.hostBits
  if addrs ≤ 2 then addrs
  else addrs - (if allowFirstIP then 0 else 1) - (if allowLastIP then 0 else 1)

def availableAddrs (cidrs : List CIDR) (allowFirstIP allowLastIP : Bool) : Nat :=
  (cidrs.map fun cidr => addrsInPrefix cidr allowFirstIP allowLastIP).sum

/-- An invalid CIDR is `none`. -/
structure IPAMPoolAllocation where
  pool : String
  allowFirstIP : Bool
  allowLastIP : Bool
  cidrs : List (Option CIDR)
  deriving DecidableEq, Repr

structure IPAMPoolRequest where
  pool : String
  needed : Dual Nat
  deriving DecidableEq, Repr

structure IPAMPoolSpec where
  requested : List IPAMPoolRequest
  allocated : List IPAMPoolAllocation
  deriving DecidableEq, Repr

namespace PoolAllocator

def newPoolAllocator (enableIPv4 enableIPv6 : Bool) : PoolAllocator :=
  ⟨⟨enableIPv4, enableIPv6⟩, ∅, ∅, ∅, false⟩

variable (allocator : PoolAllocator)

def restoreFinished : PoolAllocator := { allocator with ready := true }

/-! ### Bookkeeping -/

section

variable (node pool : String) (cidr : CIDR)

def isAllocated : Bool :=
  allocator.nodes.has node pool cidr

def isOrphan : Bool :=
  allocator.orphans.has node pool cidr

/-- The options of a pool that is new on a node are those of the pool. -/
def markAllocated : Option PoolAllocator :=
  let options := allocator.pools.lookup pool
  (allocator.nodes.mark node pool cidr ((options.map (·.allowFirstIP)).getD false)
    ((options.map (·.allowLastIP)).getD false)).map fun nodes => { allocator with nodes := nodes }

def markOrphan (allowFirstIP allowLastIP : Bool) : Option PoolAllocator :=
  (allocator.orphans.mark node pool cidr allowFirstIP allowLastIP).map fun orphans =>
    { allocator with orphans := orphans }

def cleanupOrphans : PoolAllocator :=
  { allocator with orphans := allocator.orphans.cleanup node pool }

/-- A pool that is left without CIDRs is removed from the node. -/
def markReleased : PoolAllocator :=
  let nodes := allocator.nodes.delete node pool cidr.addr.family cidr
  let sets := nodes.sets node pool
  { allocator with
    nodes :=
      if sets.keys .ipv4 = [] ∧ sets.keys .ipv6 = [] then nodes.deletePool node pool else nodes }

def markReleasedOrphan : PoolAllocator :=
  let found := (allocator.orphans.lookup node).bind (·.lookup pool)
  if found.isNone then allocator
  else
    { allocator with
      orphans := allocator.orphans.delete node pool cidr.addr.family cidr }.cleanupOrphans node pool

/-! ### Taking and giving back one CIDR -/

/-- Takes the CIDR out of the pool and gives it to the node. -/
def occupyCIDR : Option (PoolAllocator × Option PoolError) :=
  let family := cidr.addr.family
  if allocator.isAllocated node pool cidr then some (allocator, none)
  else
    match allocator.pools.lookup pool with
    | none => some (allocator, some (.poolNotExisting pool))
    | some cidrPool =>
      match Multipool.occupyCIDR cidr (cidrPool.allocators.of family).allocators with
      | none => none
      | some (.error error) => some (allocator, some error)
      | some (.ok sets) =>
        ({ allocator with
            pools := allocator.pools.insert pool
              (cidrPool.withAllocators family sets) }.markAllocated node pool cidr).map (·, none)

/-- Takes the CIDR from the node and gives it back to the pool. -/
def releaseCIDR : Option (PoolAllocator × Option PoolError) :=
  let family := cidr.addr.family
  if !allocator.isAllocated node pool cidr then some (allocator, none)
  else
    match allocator.pools.lookup pool with
    | none => some (allocator, some (.poolNotExisting pool))
    | some cidrPool =>
      match Multipool.releaseCIDR cidr (cidrPool.allocators.of family).allocators with
      | none => none
      | some (.error error) => some (allocator, some error)
      | some (.ok sets) =>
        some ({ allocator with
            pools := allocator.pools.insert pool
              (cidrPool.withAllocators family sets) }.markReleased node pool cidr, none)

def releaseOrphanCIDR : PoolAllocator :=
  if !allocator.isOrphan node pool cidr then allocator
  else allocator.markReleasedOrphan node pool cidr

end

def unorphanCIDR (family : Family) (node pool : String) (cidr : CIDR) :
    Option (PoolAllocator × Option PoolError) :=
  (allocator.occupyCIDR node pool cidr).map fun
    | (allocator, some error) => (allocator, some (.orphanInUse cidr node error))
    | (allocator, none) =>
      ({ allocator with orphans := allocator.orphans.delete node pool family cidr }, none)

/-! ### Pools -/

abbrev Collecting := PoolAllocator × List PoolError

def collect (errors : List PoolError) (result : Option (PoolAllocator × Option PoolError)) :
    Option Collecting :=
  result.map fun (allocator, error) => (allocator, errors ++ error.toList)

variable (runtime : Runtime)

/-- An orphan is looked up in the pool it came from, which need not be the pool of the sets. -/
def reconcileNode (pool : String) (sets : Dual (List CidrSet))
    (state : Collecting) (node : String) : Option Collecting := do
  let state ← (state.1.orphans.visitPools runtime.order node).foldlM (fun state orphanPool =>
    ((state.1.orphans.sets node orphanPool).visits runtime.order).foldlM
      (fun (state : Collecting) (family, cidr) =>
        if containsCIDR (sets.of family) cidr then
          collect state.2 (state.1.unorphanCIDR family node orphanPool cidr)
        else some state) state) state
  pure (state.1.cleanupOrphans node pool, state.2)

variable (allocator : PoolAllocator)

def reconcileOrphanCIDRs (pool : String) (sets : Dual (List CidrSet)) : Option Collecting :=
  (allocator.orphans.visitNodes runtime.order).foldlM (reconcileNode runtime pool sets)
    (allocator, [])

def missingCIDRs (allocators : List (Option CidrSet)) : List CIDR → Option (List CIDR)
  | [] => some []
  | cidr :: rest => do
    let found ← hasCIDR cidr allocators
    let missing ← missingCIDRs allocators rest
    pure (if found then missing else cidr :: missing)

def orphanCIDR (old : CidrSet) (family : Family) (node pool : String) (state : Collecting)
    (cidr : CIDR) : Option Collecting :=
  let (allocator, errors) := state
  if !old.inRange cidr then some state
  else
    match old.isAllocated cidr with
    | none => some (allocator, errors ++ [.outOfRange cidr])
    | some false => some state
    | some true =>
      let sets := allocator.nodes.sets node pool
      (allocator.markOrphan node pool cidr sets.allowFirstIP sets.allowLastIP).map fun allocator =>
        ({ allocator with nodes := allocator.nodes.delete node pool family cidr }, errors)

def removeCIDRSet (family : Family) (state : Collecting) (old : CidrSet) : Option Collecting :=
  (state.1.nodes.visitNodes runtime.order).foldlM (fun state node =>
    (state.1.nodes.visitPools runtime.order node).foldlM (fun state pool =>
      (runtime.order.visit 2 ((state.1.nodes.sets node pool).keys family)).foldlM
        (orphanCIDR old family node pool) state) state) state

def isKept (newCIDRs : List CIDR) (set : CidrSet) : Bool := newCIDRs.any set.isClusterCIDR

structure Update where
  allocator : PoolAllocator
  errors : List PoolError
  kept : List CidrSet
  added : List CidrSet

def Update.sets (update : Update) : List CidrSet := update.kept ++ update.added

def updateCIDRSets (family : Family)
    (slice : Slice) (newCIDRs : List CIDR) (maskSize : Nat) : Option (Except PoolError Update) := do
  let missing ← missingCIDRs slice.allocators newCIDRs
  match newCIDRSets family maskSize missing [] with
  | .error error => pure (.error error)
  | .ok added =>
    let old := slice.allocators.filterMap id
    let (allocator, errors) ←
      (old.filter (!isKept newCIDRs ·)).foldlM (removeCIDRSet runtime family) (allocator, [])
    pure (.ok ⟨allocator, errors, old.filter (isKept newCIDRs), added⟩)

/-- The reserved ranges of a set are those given last with its CIDR. -/
def rangesOf (configs : List PoolCIDRConfig) (cidr : CIDR) : List (Addr × Addr) :=
  ((configs.reverse.find? (·.cidr = cidr)).map (·.reservedRanges)).getD []

/-- One set after the other, up to the first error. -/
def setReservedRanges (configs : List PoolCIDRConfig) :
    List CidrSet → List CidrSet × Option PoolError
  | [] => ([], none)
  | set :: rest =>
    match set.setReservedRanges (rangesOf configs set.clusterPrefix) with
    | none => (set :: rest, some (.reservedRanges set.clusterPrefix))
    | some set =>
      let (rest, error) := setReservedRanges configs rest
      (set :: rest, error)

variable (name : String)

/-- A failed update leaves the pool with its old slice of a family, whose array was changed. -/
def abandon (family : Family) (kept : Nat) (sets : List CidrSet) : PoolAllocator :=
  match allocator.pools.lookup name with
  | none => allocator
  | some pool =>
    { allocator with
      pools := allocator.pools.replace name { pool with
          allocators := pool.allocators.set family
            ((pool.allocators.of family).overwritten kept sets) } }

/-- What may not change in a pool that exists. -/
def refusal (pool : CidrPool) (maskSize : Dual Nat)
    (allowFirstIP allowLastIP : Bool) : Option PoolError :=
  if maskSize.v4 ≠ pool.maskSize.v4 then some (.cannotChangeMaskSize name .ipv4)
  else if maskSize.v6 ≠ pool.maskSize.v6 then some (.cannotChangeMaskSize name .ipv6)
  else if allowFirstIP ≠ pool.allowFirstIP then some (.cannotChangeAllowFirstIP name)
  else if allowLastIP ≠ pool.allowLastIP then some (.cannotChangeAllowLastIP name)
  else none

def poolOf (previous : Dual Slice) (sets : Dual (List CidrSet))
    (maskSize : Dual Nat) (allowFirstIP allowLastIP : Bool) : CidrPool where
  allocators := ⟨previous.v4.appended runtime sets.v4, previous.v6.appended runtime sets.v6⟩
  maskSize := maskSize
  allowFirstIP := allowFirstIP
  allowLastIP := allowLastIP

/-- The pool gets its new sets, and orphans in their range become allocations. -/
def installPool (pool : CidrPool) (sets : Dual (List CidrSet)) : Option Collecting :=
  reconcileOrphanCIDRs runtime { allocator with pools := allocator.pools.insert name pool } name
    sets

/-- The part of `upsertPool` after the sets of both families have been updated. -/
def reservePool (previous : Dual Slice)
    (configs : Dual (List PoolCIDRConfig)) (maskSize : Dual Nat) (allowFirstIP allowLastIP : Bool)
    (v4 v6 : Update) : Option Collecting :=
  let (v4Sets, v4Error) := setReservedRanges configs.v4 v4.sets
  let (v6Sets, v6Error) := setReservedRanges configs.v6 v6.sets
  match v4Error, v6Error with
  | some error, _ =>
    some ((v6.allocator.abandon name .ipv4 v4.kept.length v4Sets).abandon name .ipv6
      v6.kept.length v6.sets, [error])
  | none, some error =>
    some ((v6.allocator.abandon name .ipv4 v4.kept.length v4Sets).abandon name .ipv6
      v6.kept.length v6Sets, [error])
  | none, none =>
    installPool runtime v6.allocator name
      (poolOf runtime previous ⟨v4Sets, v6Sets⟩ maskSize allowFirstIP allowLastIP)
      ⟨v4Sets, v6Sets⟩

def upsertPool (configs : Dual (List PoolCIDRConfig)) (maskSize : Dual Nat)
    (allowFirstIP allowLastIP : Bool) : Option Collecting :=
  let existing := allocator.pools.lookup name
  match existing.bind (refusal name · maskSize allowFirstIP allowLastIP) with
  | some error => some (allocator, [error])
  | none =>
    let previous := (existing.map (·.allocators)).getD ⟨Slice.nil, Slice.nil⟩
    match updateCIDRSets runtime allocator .ipv4 previous.v4 (configs.v4.map (·.cidr))
      maskSize.v4 with
    | none => none
    | some (.error error) => some (allocator, [error])
    | some (.ok v4) =>
      if v4.errors ≠ [] then
        some (v4.allocator.abandon name .ipv4 v4.kept.length v4.sets, v4.errors)
      else
        match updateCIDRSets runtime v4.allocator .ipv6 previous.v6 (configs.v6.map (·.cidr))
          maskSize.v6 with
        | none => none
        | some (.error error) =>
          some (v4.allocator.abandon name .ipv4 v4.kept.length v4.sets, [error])
        | some (.ok v6) =>
          if v6.errors ≠ [] then
            some ((v6.allocator.abandon name .ipv4 v4.kept.length v4.sets).abandon name .ipv6
              v6.kept.length v6.sets, v6.errors)
          else
            reservePool runtime name previous configs maskSize allowFirstIP allowLastIP v4 v6

/-- The CIDRs that a node has from a pool that is deleted become orphans. -/
def orphanPool (pool : String) (allocator : PoolAllocator) (node : String) : Option PoolAllocator :=
  match (allocator.nodes.lookup node).bind (·.lookup pool) with
  | none => some allocator
  | some sets =>
    (sets.visits runtime.order).foldlM (fun allocator (_, cidr) =>
        allocator.markOrphan node pool cidr sets.allowFirstIP sets.allowLastIP)
      { allocator with nodes := allocator.nodes.deletePool node pool }

def deletePool : Option Collecting :=
  if (allocator.pools.lookup name).isNone then some (allocator, [.poolNotExisting name])
  else
    ((allocator.nodes.visitNodes runtime.order).foldlM (orphanPool runtime name) allocator).map
      fun allocator => ({ allocator with pools := allocator.pools.erase name }, [])

/-! ### Nodes -/

variable (node : String)

def restoreCIDR (allocation : IPAMPoolAllocation) (state : Collecting) :
    Option CIDR → Option Collecting
  | none => some (state.1, state.2 ++ [.invalidCIDR allocation.pool])
  | some cidr =>
    if (state.1.pools.lookup allocation.pool).isSome then
      collect state.2 (state.1.occupyCIDR node allocation.pool cidr)
    else
      (state.1.markOrphan node allocation.pool cidr allocation.allowFirstIP
        allocation.allowLastIP).map fun allocator =>
          (allocator, state.2 ++ [.markedAsOrphan allocation.pool cidr])

def restoreCIDRs (allocated : List IPAMPoolAllocation) (state : Collecting) : Option Collecting :=
  allocated.foldlM
    (fun state allocation => allocation.cidrs.foldlM (restoreCIDR node allocation) state) state

/-- Of several reports for one pool the last counts. -/
def allocatedSet (allocated : List IPAMPoolAllocation) (pool : String) : List CIDR :=
  ((allocated.reverse.find? (·.pool = pool)).map (·.cidrs.filterMap id)).getD []

/-- Releases the CIDRs of a node from a pool that are not retained. -/
def retainCIDRs (retain : String → List CIDR)
    (state : Collecting) (pool : String) : Option Collecting :=
  ((state.1.nodes.sets node pool).visits runtime.order).foldlM (fun state (_, cidr) =>
      if cidr ∈ retain pool then some state
      else collect state.2 (state.1.releaseCIDR node pool cidr)) state

/-- Releases the orphans of a node from a pool that are not retained. -/
def retainOrphanCIDRs (retain : String → List CIDR)
    (allocator : PoolAllocator) (pool : String) : PoolAllocator :=
  ((allocator.orphans.sets node pool).visits runtime.order).foldl (fun allocator (_, cidr) =>
      if cidr ∈ retain pool then allocator else allocator.releaseOrphanCIDR node pool cidr)
    allocator

/-- Every CIDR has an address, so that the number of addresses to allocate bounds the rounds. -/
def allocateLoop (node pool : String) (family : Family) :
    Nat → PoolAllocator → Int → Option (PoolAllocator × Option PoolError)
  | 0, allocator, _ => some (allocator, none)
  | rounds + 1, allocator, toAllocate =>
    if toAllocate ≤ 0 then some (allocator, none)
    else
      match allocator.pools.lookup pool with
      | none => some (allocator, some (.poolNotExisting pool))
      | some cidrPool =>
        match allocFirstFreeCIDR (cidrPool.allocators.of family).allocators with
        | none => none
        | some (.error error) => some (allocator, some error)
        | some (.ok (cidr, sets)) =>
          match { allocator with
              pools := allocator.pools.insert pool
                (cidrPool.withAllocators family sets) }.markAllocated node pool cidr with
          | none => none
          | some allocator =>
            allocateLoop node pool family rounds allocator
              (toAllocate - addrsInPrefix cidr cidrPool.allowFirstIP cidrPool.allowLastIP)

def allocateCIDRs (node pool : String) (family : Family)
    (toAllocate : Int) : Option (PoolAllocator × Option PoolError) :=
  allocateLoop node pool family toAllocate.toNat allocator toAllocate

def allocateFamily (request : IPAMPoolRequest) (state : Collecting)
    (family : Family) : Option Collecting :=
  if state.1.enabled.of family then
    let pool := state.1.pools.lookup request.pool
    let available := availableAddrs ((state.1.nodes.sets node request.pool).keys family)
      ((pool.map (·.allowFirstIP)).getD false) ((pool.map (·.allowLastIP)).getD false)
    (state.1.allocateCIDRs node request.pool family (request.needed.of family - available)).map
      fun (allocator, error) =>
        (allocator, state.2 ++ (error.map (.failedToAllocate family node request.pool)).toList)
  else some state

def allocateToNode (spec : IPAMPoolSpec) : Option Collecting := do
  let retain := allocatedSet spec.allocated
  let state ← restoreCIDRs node spec.allocated (allocator, [])
  let state ← (state.1.nodes.visitPools runtime.order node).foldlM
    (retainCIDRs runtime node retain) state
  let allocator := (state.1.orphans.visitPools runtime.order node).foldl
    (retainOrphanCIDRs runtime node retain) state.1
  if !allocator.ready then pure (allocator, [.notReady])
  else
    spec.requested.foldlM
      (fun state request => [Family.ipv4, Family.ipv6].foldlM (allocateFamily node request) state)
      (allocator, state.2)

def releasePool (state : Collecting) (pool : String) : Option Collecting :=
  match state.1.pools.lookup pool with
  | none => some (state.1, state.2 ++ [.poolNotExisting pool])
  | some _ =>
    ((state.1.nodes.sets node pool).visits runtime.order).foldlM (fun state (family, cidr) =>
        match state.1.pools.lookup pool with
        | none => some state
        | some cidrPool =>
          match Multipool.releaseCIDR cidr (cidrPool.allocators.of family).allocators with
          | none => none
          | some (.error error) => some (state.1, state.2 ++ [error])
          | some (.ok sets) =>
            some ({ state.1 with
              pools := state.1.pools.insert pool (cidrPool.withAllocators family sets) },
              state.2)) state

def releaseNode : Option Collecting :=
  ((allocator.nodes.visitPools runtime.order node).foldlM (releasePool runtime node)
    (allocator, [])).map fun (allocator, errors) =>
      ({ allocator with nodes := allocator.nodes.erase node }, errors)

/-- By network address, then by length, then by address. -/
def sortsBefore (first second : CIDR) : Bool :=
  decide (first.network < second.network ∨ first.network = second.network ∧
    (first.bits < second.bits ∨ first.bits = second.bits ∧ first.addr.value ≤ second.addr.value))

def allocatedPool (node pool : String) : IPAMPoolAllocation :=
  let regular := allocator.nodes.sets node pool
  let orphaned := allocator.orphans.sets node pool
  let options := if regular.keys .ipv4 = [] ∧ regular.keys .ipv6 = [] ∧
      ((allocator.orphans.lookup node).bind (·.lookup pool)).isSome then orphaned else regular
  let cidrs family :=
    ((regular.keys family ++ orphaned.keys family).dedup).insertionSort (sortsBefore · ·)
  { pool := pool
    allowFirstIP := options.allowFirstIP
    allowLastIP := options.allowLastIP
    cidrs := (cidrs .ipv4 ++ cidrs .ipv6).map some }

/-- The pools are in the order of their names. -/
def allocatedPools : List IPAMPoolAllocation :=
  let pools := ((allocator.nodes.lookup node).getD ∅).keys ++
    ((allocator.orphans.lookup node).getD ∅).keys
  (pools.dedup.insertionSort (· ≤ ·)).map (allocator.allocatedPool node)

end PoolAllocator

end Constellation.Multipool
