/-
This file models the manager of the agent's pools in multi-pool mode. It keeps an allocator for
each CIDR that the node resource lists, hands out addresses, and from time to time writes back
what it needs and still uses.

The manager is told of the versions of the node resource in order, but possibly late. Writing is a
step of its own, since the lock is not held while the request is under way; a request is refused
if there is a newer version. How the CIDRs of a pool are read from the node resource is a
parameter, as in the source.
-/

import Constellation.Ipam.CidrPool
import Constellation.Ipam.ManagedScope

namespace Constellation.Ipam.MultiPool

open Lib CidrPool

/-! ### The node resource -/

structure IPAMPoolDemand where
  ipv4Addrs : Int
  ipv6Addrs : Int
  deriving DecidableEq, Repr

namespace IPAMPoolDemand

def zero : IPAMPoolDemand := ⟨0, 0⟩

def ofFamily (demand : IPAMPoolDemand) : Family → Int
  | .ipv4 => demand.ipv4Addrs
  | .ipv6 => demand.ipv6Addrs

end IPAMPoolDemand

structure IPAMPoolRequest where
  pool : Pool
  needed : IPAMPoolDemand
  deriving DecidableEq, Repr

/-- A CIDR that is not valid is `none`. -/
structure IPAMPoolAllocation where
  pool : Pool
  allowFirstIP : Bool
  allowLastIP : Bool
  cidrs : List (Option CIDR)
  deriving DecidableEq, Repr

structure IPAMPoolSpec where
  requested : List IPAMPoolRequest
  allocated : List IPAMPoolAllocation
  deriving DecidableEq, Repr

/-- Writing returns nothing if the resource has these pools already. -/
structure Config (ν : Type) where
  ipv4Enabled : Bool
  ipv6Enabled : Bool
  linearPreAlloc : Bool
  fromResource : ν → IPAMPoolSpec
  toResource : ν → IPAMPoolSpec → Option ν
  preAllocate : ν → Int

structure CiliumNode where
  resourceVersion : Nat
  pools : IPAMPoolSpec
  preAllocate : Int
  deriving DecidableEq, Repr

/-- The pools are read from and written to the specification. -/
def multiPoolAccessor (ipv4Enabled ipv6Enabled linearPreAlloc : Bool) : Config CiliumNode where
  ipv4Enabled := ipv4Enabled
  ipv6Enabled := ipv6Enabled
  linearPreAlloc := linearPreAlloc
  fromResource node := node.pools
  toResource node spec := if node.pools = spec then none else some { node with pools := spec }
  preAllocate node := node.preAllocate

/-! ### Pending allocations -/

abbrev PendingAllocationsPerOwner := GoMap Family (GoMap String Nat)

abbrev PendingAllocationsPerPool := GoMap Pool PendingAllocationsPerOwner

def pendingAllocationTTL : Nat := 300

namespace PendingAllocationsPerOwner

variable (pending : PendingAllocationsPerOwner)

def startExpirationAt (now : Nat) (owner : String) (family : Family) : PendingAllocationsPerOwner :=
  pending.insert family (((pending.lookup family).getD ∅).insert owner (now + pendingAllocationTTL))

def removeExpiration (owner : String) (family : Family) : PendingAllocationsPerOwner :=
  let owners := ((pending.lookup family).getD ∅).erase owner
  if owners.keys = [] then pending.erase family else pending.insert family owners

def removeExpiredEntries (now : Nat) : PendingAllocationsPerOwner :=
  (pending.entries.flatMap fun ⟨family, owners⟩ =>
    owners.entries.map fun ⟨owner, expires⟩ => (family, owner, expires)).foldl
    (fun pending (family, owner, expires) =>
      if now > expires then removeExpiration pending owner family else pending)
    pending

def pendingForFamily (family : Family) : Nat :=
  ((pending.lookup family).getD ∅).keys.length

end PendingAllocationsPerOwner

namespace PendingAllocationsPerPool

variable (pending : PendingAllocationsPerPool)

def upsertPendingAllocation (now : Nat) (poolName : Pool)
    (owner : String) (family : Family) : PendingAllocationsPerPool :=
  pending.insert poolName
    (PendingAllocationsPerOwner.startExpirationAt ((pending.lookup poolName).getD ∅) now owner
      family)

/-- A pool without pending allocations is removed. -/
def withPool (poolName : Pool) (owners : PendingAllocationsPerOwner) : PendingAllocationsPerPool :=
  if owners.keys = [] then pending.erase poolName else pending.insert poolName owners

def markAsAllocated (poolName : Pool) (owner : String)
    (family : Family) : PendingAllocationsPerPool :=
  match pending.lookup poolName with
  | none => pending
  | some owners =>
    withPool pending poolName (PendingAllocationsPerOwner.removeExpiration owners owner family)

def removeExpiredEntries (now : Nat) : PendingAllocationsPerPool :=
  pending.entries.foldl (fun pending ⟨poolName, owners⟩ =>
      withPool pending poolName (PendingAllocationsPerOwner.removeExpiredEntries owners now))
    pending

end PendingAllocationsPerPool

/-! ### The manager -/

/-- One for each family that is enabled. -/
structure PoolPair where
  v4 : Option CidrPool
  v6 : Option CidrPool
  allowFirstIP : Bool
  allowLastIP : Bool

namespace PoolPair

variable (pair : PoolPair)

def ofFamily : Family → Option CidrPool
  | .ipv4 => pair.v4
  | .ipv6 => pair.v6

def mapPools (change : Family → CidrPool → CidrPool) : PoolPair :=
  { pair with v4 := pair.v4.map (change .ipv4), v6 := pair.v6.map (change .ipv6) }

@[simp]
theorem ofFamily_mapPools (change : Family → CidrPool → CidrPool) (family : Family) :
    (pair.mapPools change).ofFamily family = (pair.ofFamily family).map (change family) := by
  cases family <;> rfl

def inUse : IPAMPoolDemand where
  ipv4Addrs := (pair.v4.map inUseIPCount).getD 0
  ipv6Addrs := (pair.v6.map inUseIPCount).getD 0

/-- The CIDRs of each family are sorted. -/
def inUseCIDRs : List MaskedCIDR :=
  ((pair.v4.map fun pool => sorted pool.inUseCIDRs).getD []) ++
    (pair.v6.map fun pool => sorted pool.inUseCIDRs).getD []

theorem mem_inUseCIDRs (block : MaskedCIDR) : block ∈ pair.inUseCIDRs ↔
      ∃ family pool, pair.ofFamily family = some pool ∧ block ∈ pool.inUseCIDRs := by
  have each (pool : Option CidrPool) :
      block ∈ (pool.map fun pool => sorted pool.inUseCIDRs).getD [] ↔
        ∃ found, pool = some found ∧ block ∈ found.inUseCIDRs := by
    cases pool with
    | none => simp
    | some pool => simp [mem_sorted]
  rw [inUseCIDRs, List.mem_append, each, each]
  constructor
  · rintro (⟨pool, found, member⟩ | ⟨pool, found, member⟩)
    · exact ⟨.ipv4, pool, found, member⟩
    · exact ⟨.ipv6, pool, found, member⟩
  · rintro ⟨family, pool, found, member⟩
    cases family with
    | ipv4 => exact .inl ⟨pool, found, member⟩
    | ipv6 => exact .inr ⟨pool, found, member⟩

end PoolPair

/-- A write that is under way is the list of CIDRs in it. -/
structure Manager (ν : Type) where
  pools : GoMap Pool PoolPair
  pendingIPsPerPool : PendingAllocationsPerPool
  preallocatedIPsPerPool : GoMap Pool Int
  finishedRestore : Family → Bool
  node : Option ν
  nodeSynced : Bool
  writing : Option (List IPAMPoolAllocation)

namespace Manager

variable {ν : Type} (config : Config ν)

def new (preallocatedIPsPerPool : GoMap Pool Int) : Manager ν where
  pools := ∅
  pendingIPsPerPool := ∅
  preallocatedIPsPerPool := preallocatedIPsPerPool
  finishedRestore _ := false
  node := none
  nodeSynced := false
  writing := none

/-! ### How many addresses are needed -/

/-- Rounds up to the next but one multiple. The division truncates toward zero. -/
def neededIPCeil (numIP preAlloc : Int) : Int :=
  if preAlloc = 0 then numIP
  else if numIP.tmod preAlloc > 0 then (numIP.tdiv preAlloc + 2) * preAlloc
  else (numIP.tdiv preAlloc + 1) * preAlloc

/-- The addresses that are needed, with those to be allocated ahead. -/
def withPreAlloc (enabled : Bool) (numIP preAlloc : Int) : Int :=
  if enabled then
    if config.linearPreAlloc then numIP + preAlloc else neededIPCeil numIP preAlloc
  else numIP

variable (m : Manager ν)

def computeNeededIPsPerPoolLocked : GoMap Pool IPAMPoolDemand :=
  let inUse := m.pools.entries.foldl
    (fun demand ⟨poolName, pair⟩ => demand.insert poolName pair.inUse) ∅
  let withPending := m.pendingIPsPerPool.entries.foldl (fun demand ⟨poolName, owners⟩ =>
      let before := (demand.lookup poolName).getD .zero
      demand.insert poolName
        { ipv4Addrs := before.ipv4Addrs +
            PendingAllocationsPerOwner.pendingForFamily owners .ipv4
          ipv6Addrs := before.ipv6Addrs +
            PendingAllocationsPerOwner.pendingForFamily owners .ipv6 })
    inUse
  m.preallocatedIPsPerPool.entries.foldl (fun demand ⟨poolName, preAlloc⟩ =>
      let before := (demand.lookup poolName).getD .zero
      demand.insert poolName
        { ipv4Addrs := withPreAlloc config config.ipv4Enabled before.ipv4Addrs preAlloc
          ipv6Addrs := withPreAlloc config config.ipv6Enabled before.ipv6Addrs preAlloc })
    withPending

/-! ### Versions of the node resource -/

def prefixesOf (family : Family) (cidrs : List (Option CIDR)) : List MaskedCIDR :=
  ((cidrs.filterMap id).map CIDR.toMasked).filter fun block => block.val.addr.family = family

def newPair (allowFirstIP allowLastIP : Bool) : PoolPair where
  v4 := if config.ipv4Enabled then some (.newCIDRPool allowFirstIP allowLastIP) else none
  v6 := if config.ipv6Enabled then some (.newCIDRPool allowFirstIP allowLastIP) else none
  allowFirstIP := allowFirstIP
  allowLastIP := allowLastIP

variable (poolName : Pool)

/-- New ones if the name is not known, and if the settings of the first and last address have
changed, a new one for each that has no address in use. -/
def preparedPair (allowFirstIP allowLastIP : Bool) : PoolPair :=
  match m.pools.lookup poolName with
  | none => newPair config allowFirstIP allowLastIP
  | some pair =>
    if pair.allowFirstIP ≠ allowFirstIP ∨ pair.allowLastIP ≠ allowLastIP then
      { pair.mapPools fun _ pool =>
          if pool.inUseIPCount = 0 then .newCIDRPool allowFirstIP allowLastIP else pool with
        allowFirstIP := allowFirstIP
        allowLastIP := allowLastIP }
    else pair

def upsertPoolLocked (entry : IPAMPoolAllocation) : Manager ν :=
  let pair := m.preparedPair config entry.pool entry.allowFirstIP entry.allowLastIP
  { m with
    pools := m.pools.insert entry.pool
      (pair.mapPools fun family pool => pool.updatePool (prefixesOf family entry.cidrs)) }

def poolDefault : Pool := "default"

/-- A write that is under way will be refused. -/
def ciliumNodeUpdated (newNode : ν) : Manager ν :=
  let m := (config.fromResource newNode).allocated.foldl (upsertPoolLocked config) m
  { m with
    preallocatedIPsPerPool :=
      if config.preAllocate newNode > 0 then
        m.preallocatedIPsPerPool.insert poolDefault (config.preAllocate newNode)
      else m.preallocatedIPsPerPool
    node := some newNode
    writing := none }

/-! ### Writes to the node resource -/

variable (needed : IPAMPoolDemand)

/-- How many free addresses the pool of a family must keep. -/
def freeNeeded (family : Family) (pool : CidrPool) : Int :=
  max (needed.ofFamily family - pool.inUseIPCount) 0

/-- A pool is trimmed only if its family is restored. -/
def trimPool (family : Family) (pool : CidrPool) : CidrPool :=
  if m.finishedRestore family then
    pool.releaseExcessCIDRsMultiPool (freeNeeded needed family pool)
  else pool

def trimmed (pair : PoolPair) : PoolPair :=
  pair.mapPools (m.trimPool needed)

def allocation (pair : PoolPair) : IPAMPoolAllocation where
  pool := poolName
  allowFirstIP := pair.allowFirstIP
  allowLastIP := pair.allowLastIP
  cidrs := pair.inUseCIDRs.map fun block => some block.val

/-- A pool that has released all its CIDRs is deleted. -/
def trimRound (neededIPsPerPool : GoMap Pool IPAMPoolDemand)
    (state : GoMap Pool PoolPair × List IPAMPoolAllocation)
    (entry : Sigma fun _ : Pool => PoolPair) :
    GoMap Pool PoolPair × List IPAMPoolAllocation :=
  let pair := m.trimmed ((neededIPsPerPool.lookup entry.1).getD .zero) entry.2
  if pair.inUseCIDRs = [] then (state.1.erase entry.1, state.2)
  else (state.1.insert entry.1 pair, state.2 ++ [allocation entry.1 pair])

def requests (neededIPsPerPool : GoMap Pool IPAMPoolDemand) : List IPAMPoolRequest :=
  ((neededIPsPerPool.entries.filter fun entry =>
      ¬(entry.2.ipv4Addrs = 0 ∧ entry.2.ipv6Addrs = 0)).map
    fun entry => ⟨entry.1, entry.2⟩).insertionSort fun first second => first.pool ≤ second.pool

def withoutExpired (now : Nat) : Manager ν :=
  { m with
    pendingIPsPerPool :=
      PendingAllocationsPerPool.removeExpiredEntries m.pendingIPsPerPool now }

/-- The function of the source up to its request. -/
def updateLocalNode (now : Nat) : Manager ν :=
  match m.node with
  | none => m
  | some curNode =>
    let m := m.withoutExpired now
    let neededIPsPerPool := m.computeNeededIPsPerPoolLocked config
    let (pools, allocated) := m.pools.entries.foldl (m.trimRound neededIPsPerPool) (m.pools, [])
    let newPoolsSpec : IPAMPoolSpec :=
      { requested := requests neededIPsPerPool
        allocated :=
          if m.nodeSynced then
            allocated.insertionSort fun first second => first.pool ≤ second.pool
          else (config.fromResource curNode).allocated }
    { m with
      pools := pools
      writing := (config.toResource curNode newPoolsSpec).map fun _ => newPoolsSpec.allocated }

/-! ### Addresses -/

structure PoolAllocationResult extends AllocationResult where
  skipMasquerade : Bool
  deriving DecidableEq, Repr

def familyString : Family → String
  | .ipv4 => "ipv4"
  | .ipv6 => "ipv6"

def errPoolNotReadyYet (family : Family) (addr : Option Addr) : String :=
  (match addr with
    | none => "unable to allocate"
    | some addr => "unable to reserve IP " ++ addr.string) ++
    " from pool " ++ poolName.quote ++ " (family " ++ familyString family ++
      "): pool not (yet) available"

def poolByFamilyLocked (family : Family) : Option CidrPool :=
  (m.pools.lookup poolName).bind fun pair => pair.ofFamily family

def withPool (family : Family) (pool : CidrPool) : Manager ν :=
  match m.pools.lookup poolName with
  | none => m
  | some pair =>
    { m with
      pools := m.pools.insert poolName
        (pair.mapPools fun other before => if other = family then pool else before) }

/-- An allocation that did not succeed is pending. -/
def withPending (now : Nat) (poolName : Pool) (owner : String) (family : Family) : Manager ν :=
  { m with
    pendingIPsPerPool := PendingAllocationsPerPool.upsertPendingAllocation m.pendingIPsPerPool now
      poolName owner family }

def withAllocated (owner : String) (family : Family) (pool : CidrPool) : Manager ν :=
  { m.withPool poolName family pool with
    pendingIPsPerPool :=
      PendingAllocationsPerPool.markAsAllocated m.pendingIPsPerPool poolName owner family }

def allocateNext (now : Nat) (owner : String) (poolName : Pool) (family : Family)
    (skipMasquerade : Except String Bool) (start : Nat) :
    Manager ν × Except String PoolAllocationResult :=
  match m.poolByFamilyLocked poolName family with
  | none =>
    (m.withPending now poolName owner family, .error (errPoolNotReadyYet poolName family none))
  | some pool =>
    match skipMasquerade with
    | .error error => (m.withPending now poolName owner family, .error error)
    | .ok skipMasq =>
      match pool.allocateNext start with
      | .error error => (m.withPending now poolName owner family, .error error)
      | .ok (addr, later) =>
        (m.withAllocated poolName owner family later,
          .ok { ip := addr, ipPoolName := poolName, skipMasquerade := skipMasq })

def allocateIP (now : Nat) (addr : Addr) (owner : String) (poolName : Pool)
    (family : Family) : Manager ν × Except String PoolAllocationResult :=
  match m.poolByFamilyLocked poolName family with
  | none =>
    (m.withPending now poolName owner family,
      .error (errPoolNotReadyYet poolName family (some addr)))
  | some pool =>
    match pool.allocate addr with
    | .error error => (m.withPending now poolName owner family, .error error)
    | .ok later =>
      (m.withAllocated poolName owner family later,
        .ok { ip := addr, ipPoolName := poolName, skipMasquerade := false })

def releaseIP (addr : Addr) (poolName : Pool) (family : Family) : Manager ν × Except String Unit :=
  match m.poolByFamilyLocked poolName family with
  | none =>
    (m, .error ("unable to release IP " ++ addr.string ++ " of unknown pool " ++ poolName.quote ++
      " (family " ++ familyString family ++ ")"))
  | some pool => (m.withPool poolName family (pool.release addr), .ok ())

end Manager

end Constellation.Ipam.MultiPool
