/-
This file models the address manager of the agent: an allocator for each address family, the
owners of the addresses in use, and the addresses that are excluded. The host-scope allocator has
one range for all pools and returns no pool name; the managed-scope allocator routes by the pool
and returns the name of the node whose range it used. Which pool a pod belongs to is read from its
metadata, which may change between calls, so each call has its own.
-/

import Constellation.Ipam.ManagedScope
import Constellation.Lib.Index

namespace Constellation.Ipam

open Lib ManagedScopeAllocator Range

/-! ### Allocators -/

structure HostScopeAllocator where
  allocator : Range

inductive Allocator
  | hostScope (h : HostScopeAllocator)
  | managedScope (m : ManagedScopeAllocator)

def ManagedScopeAllocator.nextCIDR (m : ManagedScopeAllocator) (pool : Pool) : Option CIDR :=
  ((m.resolvePool pool).or (m.subByNode m.primaryNode)).map SubAllocator.allocCIDR

theorem ManagedScopeAllocator.subByNode_allocCIDR (m : ManagedScopeAllocator) (nodeName : String) :
    (m.subByNode nodeName).map SubAllocator.allocCIDR =
      (m.layout.find? fun entry => entry.1 = nodeName).map Prod.snd := by
  rw [layout, List.find?_map, Option.map_map]
  rfl

namespace Allocator

variable (allocator : Allocator)

def allocate (addr : Addr) : Allocator × Except String AllocationResult :=
  match allocator with
  | .hostScope h =>
    match h.allocator.allocate addr with
    | .error err => (.hostScope h, .error err)
    | .ok range => (.hostScope ⟨range⟩, .ok ⟨addr, ""⟩)
  | .managedScope m =>
    (.managedScope (m.allocate addr).1, (m.allocate addr).2)

def allocateNext (pool : Pool) (start : Nat) : Allocator × Except String AllocationResult :=
  match allocator with
  | .hostScope h =>
    match h.allocator.allocateNext start with
    | .error err => (.hostScope h, .error err)
    | .ok (addr, range) => (.hostScope ⟨range⟩, .ok ⟨addr, ""⟩)
  | .managedScope m =>
    (.managedScope (m.allocateNext pool start).1, (m.allocateNext pool start).2)

/-- The callers drop the error. -/
def release (addr : Addr) : Allocator :=
  match allocator with
  | .hostScope h => .hostScope ⟨h.allocator.release addr⟩
  | .managedScope m => .managedScope (m.release addr).1

def free : Allocator → Nat
  | .hostScope h => h.allocator.free
  | .managedScope m => (m.subs.map fun sub => sub.allocator.free).sum

def has : Allocator → Addr → Bool
  | .hostScope h, addr => h.allocator.has addr
  | .managedScope m, addr => m.has addr

/-- The node of each range, which is empty for the one range of the host scope, and its CIDR. -/
def layout : Allocator → List (String × CIDR)
  | .hostScope h => [("", h.allocator.cidr)]
  | .managedScope m => m.layout

def nodeFor (addr : Addr) : Option String :=
  (allocator.layout.find? fun entry => entry.2.contains addr).map Prod.fst

def CIDRsDisjoint : Prop :=
  allocator.layout.Pairwise fun first second => first.2.overlaps second.2 = false

structure Allocates (before after : Allocator) (result : AllocationResult) : Prop where
  layout_eq : after.layout = before.layout
  has_eq : ∀ other, after.has other = (decide (other = result.ip) || before.has other)
  nodeFor_eq : before.CIDRsDisjoint → before.nodeFor result.ip = some result.ipPoolName

/-- It fails and changes nothing, or one address comes into use. -/
def Outcome (before : Allocator) (outcome : Allocator × Except String AllocationResult) : Prop :=
  (outcome.1 = before ∧ ∃ err, outcome.2 = .error err) ∨
    ∃ result, outcome.2 = .ok result ∧ Allocates before outcome.1 result

theorem nodeFor_managedScope (m : ManagedScopeAllocator) (addr : Addr) :
    (managedScope m).nodeFor addr = m.nodeFor addr :=
  (m.nodeFor_eq addr).symm

variable {addr : Addr} {range : Range} (allocator : Allocator)

theorem allocates_hostScope {h : HostScopeAllocator} (cidr : range.cidr = h.allocator.cidr)
    (has_eq : ∀ other, range.has other = (decide (other = addr) || h.allocator.has other)) :
    Allocates (.hostScope h) (.hostScope ⟨range⟩) ⟨addr, ""⟩ where
  layout_eq := by
    show [("", range.cidr)] = [("", h.allocator.cidr)]
    rw [cidr]
  has_eq := has_eq
  nodeFor_eq _ := by
    have inside : h.allocator.cidr.contains addr = true := by
      rw [← cidr]
      exact contains_of_has (by rw [has_eq]; simp)
    simp [nodeFor, layout, inside]

theorem allocates_managedScope {m : ManagedScopeAllocator} {sub : SubAllocator}
    {same : range.cidr = sub.allocator.cidr} (member : sub ∈ m.subs)
    (has_eq : ∀ other, range.has other = (decide (other = addr) || sub.allocator.has other)) :
    Allocates (.managedScope m) (.managedScope (m.updateSub (sub.withAllocator range same)))
      ⟨addr, sub.nodeName⟩ where
  layout_eq := layout_updateSub member
  has_eq := has_updateSub_insert member has_eq
  nodeFor_eq disjoint := by
    rw [nodeFor_managedScope]
    refine nodeFor_of_contains (m.cidrsDisjoint_iff.mpr disjoint) member ?_
    have used : (sub.withAllocator range same).allocator.has addr = true := by
      show range.has addr = true
      rw [has_eq]
      simp
    exact @ManagedScopeAllocator.contains_of_has addr (sub.withAllocator range same) used

section Served

variable (poolDefault pool : Pool)

/-- A pool that the next address is served from: the default pool, or the name of a node. -/
def ServesNext : Prop :=
  match allocator with
  | .hostScope _ => pool = poolDefault
  | .managedScope m => pool ≠ "" ∧ (m.subByNode pool).isSome = true

/-- The default pool, or the name of the node whose CIDR contains the address. -/
def Serves (addr : Addr) : Prop :=
  match allocator with
  | .hostScope _ => pool = poolDefault
  | .managedScope m => ∀ sub ∈ m.findSubForIP addr, sub.nodeName = pool

instance : Decidable (allocator.ServesNext poolDefault pool) := by
  cases allocator <;> delta ServesNext <;> infer_instance

instance (addr : Addr) : Decidable (allocator.Serves poolDefault pool addr) := by
  cases allocator <;> delta Serves <;> infer_instance

end Served

def nextCIDR (allocator : Allocator) (pool : Pool) : Option CIDR :=
  match allocator with
  | .hostScope h => some h.allocator.cidr
  | .managedScope m => m.nextCIDR pool

/-- A given address is returned as such. If the call names the pool that the address is served from,
it is returned with that pool. -/
theorem allocate_outcome (addr : Addr) : allocator.Outcome (allocator.allocate addr) ∧
    ∀ result, (allocator.allocate addr).2 = .ok result → result.ip = addr ∧
      ∀ poolDefault pool, allocator.Serves poolDefault pool addr → pool ≠ "" →
        (if result.ipPoolName = "" then poolDefault else result.ipPoolName) = pool := by
  cases allocator with
  | hostScope h =>
    unfold allocate
    dsimp only
    split
    · exact ⟨.inl ⟨rfl, _, rfl⟩, nofun⟩
    case h_2 range reserved =>
      obtain ⟨cidr, _, has_eq⟩ := allocate_spec reserved
      refine ⟨.inr ⟨_, rfl, allocates_hostScope cidr has_eq⟩, ?_⟩
      rintro _ ⟨⟩
      exact ⟨rfl, fun _ _ serves _ => serves.symm⟩
  | managedScope m =>
    unfold allocate
    dsimp only
    rcases m.allocate_cases addr with ⟨unchanged, err, failed⟩ |
      ⟨sub, range, same, found, reserved, succeeded⟩
    · rw [unchanged, failed]
      exact ⟨.inl ⟨rfl, _, rfl⟩, nofun⟩
    · rw [succeeded]
      refine ⟨.inr ⟨_, rfl, allocates_managedScope
        (mem_of_findSubForIP found).1 (allocate_spec reserved).2.2⟩, ?_⟩
      rintro _ ⟨⟩
      refine ⟨rfl, fun _ pool serves named => ?_⟩
      obtain rfl := serves sub found
      exact if_neg named

/-- It does not change from where a pool is served, and a returned address was free, is in the CIDR
that serves the pool, and has the pool of the call if it is served from that. -/
structure NextOutcome (before : Allocator) (pool : Pool)
    (outcome : Allocator × Except String AllocationResult) : Prop where
  cases : before.Outcome outcome
  nextCIDR : outcome.1.nextCIDR = before.nextCIDR
  servesNext : ∀ {poolDefault}, before.ServesNext poolDefault pool →
    outcome.1.ServesNext poolDefault pool
  fewer : ∀ {result}, outcome.2 = .ok result → outcome.1.free < before.free
  contains : ∀ {result}, outcome.2 = .ok result →
    ∃ cidr ∈ before.nextCIDR pool, cidr.contains result.ip = true
  ipPoolName : ∀ {result}, outcome.2 = .ok result → ∀ {poolDefault},
    before.ServesNext poolDefault pool →
      (if result.ipPoolName = "" then poolDefault else result.ipPoolName) = pool

theorem NextOutcome.failed {pool : Pool} (err : String) :
    allocator.NextOutcome pool (allocator, .error err) :=
  ⟨.inl ⟨rfl, _, rfl⟩, rfl, id, nofun, nofun, nofun⟩

/-- Reserving an address of the range of a node leaves fewer free addresses. -/
theorem free_updateSub {m : ManagedScopeAllocator} {sub : SubAllocator}
    {same : range.cidr = sub.allocator.cidr} (member : sub ∈ m.subs)
    (fewer : range.free < sub.allocator.free) :
    (managedScope (m.updateSub (sub.withAllocator range same))).free < (managedScope m).free := by
  show (List.map _ (List.map _ m.subs)).sum < (List.map _ m.subs).sum
  rw [List.map_map]
  refine List.sum_lt_sum _ _ (fun other otherMember => ?_) ⟨sub, member, ?_⟩
  · show Range.free (SubAllocator.allocator (if _ then _ else _)) ≤ _
    split
    case isTrue names =>
      rw [eq_of_nodeName otherMember member names]
      exact fewer.le
    · exact le_rfl
  · show Range.free (SubAllocator.allocator (if sub.nodeName = sub.nodeName then _ else _)) < _
    rw [if_pos rfl]
    exact fewer

theorem allocateNext_outcome (pool : Pool) (start : Nat) :
    allocator.NextOutcome pool (allocator.allocateNext pool start) := by
  cases allocator with
  | hostScope h =>
    unfold allocateNext
    dsimp only
    split
    · exact .failed _ _
    case h_2 addr range reserved =>
      obtain ⟨cidr, inside, _, has_eq, fewer⟩ := allocateNext_spec reserved
      refine ⟨.inr ⟨_, rfl, allocates_hostScope cidr has_eq⟩, funext fun _ => congrArg some cidr,
        id, fun _ => fewer, ?_, ?_⟩
      · rintro _ ⟨⟩
        exact ⟨_, rfl, inside⟩
      · rintro _ ⟨⟩ _ serves
        exact serves.symm
  | managedScope m =>
    unfold allocateNext
    dsimp only
    rcases m.allocateNext_cases pool start with ⟨unchanged, err, failed⟩ |
      ⟨sub, addr, range, same, found, reserved, succeeded⟩
    · rw [unchanged, failed]
      exact .failed _ _
    · have member := mem_of_resolvePool found
      obtain ⟨_, inside, _, has_eq, fewer⟩ := allocateNext_spec reserved
      have layout := @layout_updateSub m sub range same member
      rw [succeeded]
      refine ⟨.inr ⟨_, rfl, allocates_managedScope member has_eq⟩, funext fun other => ?_,
        fun serves => ⟨serves.1, ?_⟩, fun _ => free_updateSub member fewer, ?_, ?_⟩
      · show ManagedScopeAllocator.nextCIDR _ _ = ManagedScopeAllocator.nextCIDR _ _
        unfold ManagedScopeAllocator.nextCIDR resolvePool
        rw [Option.map_or, Option.map_or, subByNode_allocCIDR, subByNode_allocCIDR,
          subByNode_allocCIDR, subByNode_allocCIDR, layout]
        rfl
      · rw [isSome_subByNode_iff, layout]
        exact isSome_subByNode_iff.mp serves.2
      · rintro _ ⟨⟩
        rw [sub.allocator_cidr, CIDR.contains_masked] at inside
        exact ⟨sub.allocCIDR, congrArg (Option.map _) found, inside⟩
      · rintro _ ⟨⟩ _ serves
        obtain ⟨own, known⟩ := Option.isSome_iff_exists.mp serves.2
        rw [resolvePool, if_neg serves.1, known, Option.some_or] at found
        cases found
        obtain rfl := (mem_of_subByNode known).2
        exact if_neg serves.1

variable {allocator : Allocator}

theorem nodeFor_isSome_of_has (used : allocator.has addr = true) :
    (allocator.nodeFor addr).isSome = true := by
  cases allocator with
  | hostScope h =>
    have inside := contains_of_has used
    simp [nodeFor, layout, inside]
  | managedScope m =>
    obtain ⟨sub, member, used⟩ := List.any_eq_true.mp used
    rw [nodeFor_managedScope, ManagedScopeAllocator.nodeFor, Option.isSome_map]
    exact List.find?_isSome.mpr ⟨sub, member, contains_of_has used⟩

theorem layout_release (addr : Addr) : (allocator.release addr).layout = allocator.layout := by
  cases allocator with
  | hostScope h =>
    show [("", (h.allocator.release addr).cidr)] = [("", h.allocator.cidr)]
    rw [release_cidr]
  | managedScope m => exact m.layout_release addr

theorem has_release (disjoint : allocator.CIDRsDisjoint) (addr other : Addr) :
    (allocator.release addr).has other = (decide (other ≠ addr) && allocator.has other) := by
  cases allocator with
  | hostScope h => exact h.allocator.has_release addr other
  | managedScope m =>
    exact has_release (m.cidrsDisjoint_iff.mpr disjoint) addr other

end Allocator

/-! ### The address manager -/

/-- An address stands for its string form. Exclusions are kept under a string made of a pool and an
address. -/
structure IPAM where
  ipv4Allocator : Option Allocator
  ipv6Allocator : Option Allocator
  owner : GoMap Pool (GoMap Addr String)
  excludedIPs : GoMap String String
  poolDefault : Pool

/-- How the pool of an owner is determined from the metadata of its pod. -/
abbrev Metadata := String → Family → Except String Pool

namespace IPAM

variable (ipam : IPAM)

def allocator : Family → Option Allocator
  | .ipv4 => ipam.ipv4Allocator
  | .ipv6 => ipam.ipv6Allocator

def withAllocator (family : Family) (allocator : Allocator) : IPAM :=
  match family with
  | .ipv4 => { ipam with ipv4Allocator := some allocator }
  | .ipv6 => { ipam with ipv6Allocator := some allocator }

def registerIPOwner (ip : Addr) (owner : String) (pool : Pool) : IPAM :=
  { ipam with owner := Index.insert ipam.owner pool ip owner }

def releaseIPOwner (ip : Addr) (pool : Pool) : IPAM :=
  { ipam with owner := Index.erase ipam.owner pool ip }

def exclusionKey (ip : Addr) (pool : Pool) : String := pool ++ ":" ++ ip.string

def excludeIP (ip : Addr) (owner : String) (pool : Pool) : IPAM :=
  { ipam with excludedIPs := ipam.excludedIPs.insert (exclusionKey ip pool) owner }

/-- The owner of the exclusion. -/
def isIPExcluded (ip : Addr) (pool : Pool) : Option String :=
  ipam.excludedIPs.lookup (exclusionKey ip pool)

variable (metadata : Metadata)

def determineIPAMPool (owner : String) (family : Family) : Except String Pool :=
  match metadata owner family with
  | .error err =>
    .error ("unable to determine IPAM pool for owner " ++ owner.quote ++ ": " ++ err)
  | .ok pool => .ok pool

def withPoolDefault (result : AllocationResult) : AllocationResult :=
  if result.ipPoolName = "" then { result with ipPoolName := ipam.poolDefault } else result

def errDisabled : Family → String
  | .ipv4 => "IPv4 allocation disabled"
  | .ipv6 => "IPv6 allocation disabled"

/-- An invalid address is `none`. -/
def allocateIP (ip : Option Addr) (owner : String) (pool : Pool) :
    IPAM × Except String AllocationResult :=
  if pool = "" then
    (ipam, .error ("unable to restore IP " ++ (ip.map Addr.string).getD "invalid IP" ++ " for " ++
      owner.quote ++ ": pool name must be provided"))
  else
    match ip with
    | none => (ipam, .error "invalid IP address: invalid IP")
    | some ip =>
      match ipam.isIPExcluded ip pool with
      | some ownedBy =>
        (ipam, .error ("IP " ++ ip.string ++ " is excluded, owned by " ++ ownedBy))
      | none =>
        match ipam.allocator ip.family with
        | none => (ipam, .error (errDisabled ip.family))
        | some allocator =>
          match allocator.allocate ip with
          | (later, .error err) => (ipam.withAllocator ip.family later, .error err)
          | (later, .ok result) =>
            ((ipam.withAllocator ip.family later).registerIPOwner ip owner pool,
              .ok (ipam.withPoolDefault result))

/-- Goes on until an address is not excluded. The fuel bounds the rounds. -/
def allocateNextLoop (family : Family) (owner : String) (pool : Pool) (starts : Nat → Nat) :
    Nat → IPAM → Allocator → Option (IPAM × Except String AllocationResult)
  | 0, _, _ => none
  | fuel + 1, ipam, allocator =>
    match allocator.allocateNext pool (starts fuel) with
    | (later, .error err) => some (ipam.withAllocator family later, .error err)
    | (later, .ok result) =>
      let ipam := ipam.withAllocator family later
      match ipam.isIPExcluded result.ip pool with
      | none =>
        some (ipam.registerIPOwner result.ip owner pool, .ok (ipam.withPoolDefault result))
      | some _ =>
        allocateNextLoop family owner pool starts fuel
          (ipam.registerIPOwner result.ip (owner ++ " (excluded)") pool) later

/-- The loop ends: every round that does not end it takes a free address. -/
theorem allocateNextLoop_isSome (family : Family) (owner : String) (pool : Pool)
    (starts : Nat → Nat) (fuel : Nat) (ipam : IPAM) (allocator : Allocator)
    (enough : allocator.free < fuel) :
    (allocateNextLoop family owner pool starts fuel ipam allocator).isSome = true := by
  induction fuel generalizing ipam allocator with
  | zero => cases enough
  | succ fuel inductionHypothesis =>
    unfold allocateNextLoop
    split
    · rfl
    case h_2 later result allocated =>
      dsimp only
      split
      · rfl
      · refine inductionHypothesis _ _ ?_
        have outcome := allocator.allocateNext_outcome pool (starts fuel)
        rw [allocated] at outcome
        exact (outcome.fewer rfl).trans_le (Nat.le_of_lt_succ enough)

def requestedPool (owner : String) (family : Family) (pool : Pool) : Except String Pool :=
  if pool = "" then determineIPAMPool metadata owner family else .ok pool

/-- Without an allocator the agent panics when it reads the capacity. -/
def allocateNextFamily (starts : Nat → Nat) (family : Family)
    (owner : String) (pool : Pool) : IPAM × Except String AllocationResult :=
  match ipam.allocator family with
  | none => (ipam, .error "runtime error: invalid memory address or nil pointer dereference")
  | some allocator =>
    match requestedPool metadata owner family pool with
    | .error err => (ipam, .error err)
    | .ok pool =>
      (allocateNextLoop family owner pool starts (allocator.free + 1) ipam allocator).getD
        (ipam, .error "out of rounds")

/-- An invalid address is `none`. -/
def releaseIP (ip : Option Addr) (pool : Pool) : IPAM × Except String Unit :=
  if pool = "" then
    (ipam, .error ("no IPAM pool provided for IP release of " ++
      (ip.map Addr.string).getD "invalid IP"))
  else
    match ip with
    | none => (ipam, .error "invalid IP address: invalid IP")
    | some ip =>
      match ipam.allocator ip.family with
      | none => (ipam, .error (errDisabled ip.family))
      | some allocator =>
        ((ipam.withAllocator ip.family (allocator.release ip)).releaseIPOwner ip pool, .ok ())

abbrev NextResults := Option AllocationResult × Option AllocationResult

/-- The second half of `allocateNext`. The IPv6 address is released again if there is none of
IPv4. -/
def allocateNextIPv4 (starts : Nat → Nat)
    (family owner : String) (pool : Pool) (ipv6Result : Option AllocationResult) :
    IPAM × Except String NextResults :=
  if (family = "ipv4" ∨ family = "") ∧ ipam.ipv4Allocator.isSome then
    match ipam.allocateNextFamily metadata starts .ipv4 owner pool with
    | (ipam, .ok ipv4Result) => (ipam, .ok (some ipv4Result, ipv6Result))
    | (ipam, .error err) =>
      match ipv6Result with
      | none => (ipam, .error err)
      | some result => ((ipam.releaseIP result.ip result.ipPoolName).1, .error err)
  else (ipam, .ok (none, ipv6Result))

/-- Allocates for both families if the family is empty. -/
def allocateNext (starts : Family → Nat → Nat)
    (family owner : String) (pool : Pool) : IPAM × Except String NextResults :=
  if (family = "ipv6" ∨ family = "") ∧ ipam.ipv6Allocator.isSome then
    match ipam.allocateNextFamily metadata (starts .ipv6) .ipv6 owner pool with
    | (ipam, .error err) => (ipam, .error err)
    | (ipam, .ok ipv6Result) =>
      ipam.allocateNextIPv4 metadata (starts .ipv4) family owner pool (some ipv6Result)
  else ipam.allocateNextIPv4 metadata (starts .ipv4) family owner pool none

end IPAM

end Constellation.Ipam
