/-
This file shows when an excluded address is never handed out. An exclusion is kept under the pool
it was made for, while the allocators serve many pool names from the same range. An address
excluded in the default pool stays excluded for calls that name it, and for calls served from a
range without the address; another call can return it.
-/

import Constellation.Ipam.Owner

namespace Constellation.Ipam

open Lib List Option ManagedScopeAllocator

namespace IPAM

/-! ### Exclusions stay -/

def SameExclusions (before after : IPAM) : Prop :=
  after.excludedIPs = before.excludedIPs ∧ after.poolDefault = before.poolDefault

variable {first second third : IPAM} {pool : Pool}

theorem SameExclusions.trans (earlier : SameExclusions first second)
    (later : SameExclusions second third) : SameExclusions first third :=
  ⟨later.1.trans earlier.1, later.2.trans earlier.2⟩

theorem sameExclusions_withAllocator (ipam : IPAM) (family : Family) (later : Allocator) :
    SameExclusions ipam (ipam.withAllocator family later) := by
  cases family <;> exact ⟨rfl, rfl⟩

theorem sameExclusions_allocateIP (ipam : IPAM) (ip : Option Addr) (owner : String)
    (pool : Pool) : SameExclusions ipam (ipam.allocateIP ip owner pool).1 := by
  fun_cases allocateIP ipam ip owner pool
  all_goals first | exact ⟨rfl, rfl⟩ | exact sameExclusions_withAllocator _ _ _

def Touches (family : Family) (before after : IPAM) : Prop :=
  SameExclusions before after ∧
    ∀ other, other ≠ family → after.allocator other = before.allocator other

variable {family : Family} {owner : String} {fuel : Nat} {ipam : IPAM}
  {allocator : Allocator} {outcome : IPAM × Except String AllocationResult} {starts : Nat → Nat}

theorem Touches.trans (earlier : Touches family first second)
    (later : Touches family second third) : Touches family first third :=
  ⟨earlier.1.trans later.1, fun other differ =>
    (later.2 other differ).trans (earlier.2 other differ)⟩

theorem touches_withAllocator (ipam : IPAM) (family : Family) (later : Allocator) :
    Touches family ipam (ipam.withAllocator family later) :=
  ⟨sameExclusions_withAllocator ipam family later, fun other differ =>
    (allocator_withAllocator ipam family other later).trans (if_neg differ)⟩

theorem touches_allocateNextLoop
    (ended : allocateNextLoop family owner pool starts fuel ipam allocator = some outcome) :
    Touches family ipam outcome.1 := by
  induction fuel generalizing ipam allocator with
  | zero => cases ended
  | succ fuel inductionHypothesis =>
    unfold allocateNextLoop at ended
    split at ended
    · cases ended
      exact touches_withAllocator _ _ _
    · dsimp only at ended
      split at ended
      · cases ended
        exact touches_withAllocator _ _ _
      · have later := inductionHypothesis ended
        exact (touches_withAllocator ipam family _).trans ⟨later.1, later.2⟩

section

variable (ipam : IPAM)

theorem touches_allocateNextFamily (metadata : Metadata) (starts : Nat → Nat)
    (family : Family) (owner : String) (pool : Pool) :
    Touches family ipam (ipam.allocateNextFamily metadata starts family owner pool).1 := by
  have same : Touches family ipam ipam := ⟨⟨rfl, rfl⟩, fun _ _ => rfl⟩
  unfold allocateNextFamily
  split
  · exact same
  · split
    · exact same
    · cases ended : allocateNextLoop family owner _ starts _ ipam _ with
      | none => exact same
      | some outcome => exact touches_allocateNextLoop ended

theorem sameExclusions_releaseIP (ip : Option Addr) (pool : Pool) :
    SameExclusions ipam (ipam.releaseIP ip pool).1 := by
  fun_cases releaseIP ipam ip pool
  all_goals first | exact ⟨rfl, rfl⟩ | exact sameExclusions_withAllocator _ _ _

theorem sameExclusions_allocateNextIPv4 (metadata : Metadata) (starts : Nat → Nat)
    (family owner : String) (pool : Pool) (ipv6Result : Option AllocationResult) :
    SameExclusions ipam (ipam.allocateNextIPv4 metadata starts family owner pool ipv6Result).1 := by
  have next := (touches_allocateNextFamily ipam metadata starts .ipv4 owner pool).1
  unfold allocateNextIPv4
  split
  · split
    case h_1 ended =>
      rw [ended] at next
      exact next
    case h_2 ended =>
      rw [ended] at next
      split
      · exact next
      · exact next.trans (sameExclusions_releaseIP _ _ _)
  · exact ⟨rfl, rfl⟩

theorem sameExclusions_call (action : Action) : SameExclusions ipam (ipam.call action).1 := by
  cases action with
  | allocateIP ip owner pool => exact sameExclusions_allocateIP ipam ip owner pool
  | allocateNextFamily metadata starts family owner pool =>
    exact (touches_allocateNextFamily ipam metadata starts family owner pool).1
  | releaseIP ip pool => exact sameExclusions_releaseIP ipam ip pool
  | allocateNext metadata starts family owner pool =>
    have next := (touches_allocateNextFamily ipam metadata (starts .ipv6) .ipv6 owner pool).1
    show SameExclusions ipam (ipam.allocateNext metadata starts family owner pool).1
    unfold allocateNext
    split
    · split
      case h_1 ended =>
        rw [ended] at next
        exact next
      case h_2 ended =>
        rw [ended] at next
        exact next.trans (sameExclusions_allocateNextIPv4 _ _ _ _ _ _ _)
    · exact sameExclusions_allocateNextIPv4 _ _ _ _ _ _ _

end

/-! ### What is returned is not excluded -/

variable {result : AllocationResult} {metadata : Metadata}

/-- A given address is only returned if it is not excluded in the pool of the call. -/
theorem isIPExcluded_of_allocateIP {ip : Option Addr}
    (succeeded : (ipam.allocateIP ip owner pool).2 = .ok result) :
    ip = some result.ip ∧ ipam.isIPExcluded result.ip pool = none := by
  unfold allocateIP at succeeded
  split at succeeded
  · cases succeeded
  · split at succeeded
    · cases succeeded
    case h_2 requested =>
      split at succeeded
      · cases succeeded
      case h_2 allowed =>
        split at succeeded
        · cases succeeded
        · split at succeeded
          · cases succeeded
          case h_2 later allocated ended =>
            obtain rfl := Except.ok.inj succeeded
            rw [withPoolDefault_ip,
              ((Allocator.allocate_outcome _ _).2 _ (congrArg Prod.snd ended)).1]
            exact ⟨rfl, allowed⟩

/-- The next address is in the CIDR from which the pool of the call is served, and it is not
excluded in that pool. -/
theorem isIPExcluded_of_allocateNextLoop {later : IPAM}
    (ended : allocateNextLoop family owner pool starts fuel ipam allocator =
      some (later, .ok result)) :
    ipam.isIPExcluded result.ip pool = none ∧
      ∃ cidr ∈ allocator.nextCIDR pool, cidr.contains result.ip = true := by
  induction fuel generalizing ipam allocator with
  | zero => cases ended
  | succ fuel inductionHypothesis =>
    unfold allocateNextLoop at ended
    split at ended
    · cases Prod.mk.inj (Option.some.inj ended) |>.2
    case h_2 next granted round =>
      have outcome := allocator.allocateNext_outcome pool (starts fuel)
      rw [round] at outcome
      have same := sameExclusions_withAllocator ipam family next
      have lookup (addr : Addr) : (ipam.withAllocator family next).isIPExcluded addr pool =
          ipam.isIPExcluded addr pool := by
        rw [isIPExcluded, same.1, isIPExcluded]
      dsimp only at ended
      split at ended
      case h_1 allowed =>
        obtain rfl := Except.ok.inj (Prod.mk.inj (Option.some.inj ended)).2
        rw [withPoolDefault_ip, ← lookup]
        exact ⟨allowed, outcome.contains rfl⟩
      · obtain ⟨allowed, inside⟩ := inductionHypothesis ended
        rw [outcome.nextCIDR] at inside
        exact ⟨(lookup result.ip).symm.trans allowed, inside⟩

/-- It names the default pool, or one that is served from a CIDR without the given address. -/
def NextAvoids (ipam : IPAM) (ip : Addr) (metadata : Metadata) (family : Family) (owner : String)
    (pool : Pool) : Prop :=
  ∀ allocator ∈ ipam.allocator family, ∀ requested ∈
    (requestedPool metadata owner family pool).toOption,
    requested = ipam.poolDefault ∨ ∀ cidr ∈ allocator.nextCIDR requested, cidr.contains ip = false
  deriving Decidable

/-- A call names the default pool, asks for another address, or asks for the next one of a pool that
is served from a CIDR without the given address. -/
def Avoids (ip : Addr) (ipam : IPAM) : Action → Prop
  | .allocateIP requested _ pool => requested ≠ some ip ∨ pool = ipam.poolDefault
  | .allocateNextFamily metadata _ family owner pool =>
    ipam.NextAvoids ip metadata family owner pool
  | .allocateNext metadata _ family owner pool =>
    (family = "ipv6" ∨ family = "" → ipam.NextAvoids ip metadata .ipv6 owner pool) ∧
      (family = "ipv4" ∨ family = "" → ipam.NextAvoids ip metadata .ipv4 owner pool)
  | .releaseIP _ _ => True

instance (ip : Addr) (ipam : IPAM) (action : Action) : Decidable (Avoids ip ipam action) := by
  cases action <;> delta Avoids <;> infer_instance

section Returned

variable {ip : Addr} (excluded : (ipam.isIPExcluded ip ipam.poolDefault).isSome = true)

include excluded

theorem ne_of_allocateNextFamily {family : Family} {owner : String}
    (avoids : ipam.NextAvoids ip metadata family owner pool)
    (succeeded : (ipam.allocateNextFamily metadata starts family owner pool).2 = .ok result) :
    result.ip ≠ ip := by
  intro same
  subst same
  unfold allocateNextFamily at succeeded
  split at succeeded
  · cases succeeded
  case h_2 allocator found =>
    split at succeeded
    · cases succeeded
    case h_2 requested request =>
      cases ended : allocateNextLoop family owner requested starts (allocator.free + 1) ipam
          allocator with
      | none =>
        rw [ended] at succeeded
        cases succeeded
      | some outcome =>
        rw [ended, getD_some] at succeeded
        have granted : outcome = (outcome.1, .ok result) := Prod.ext rfl succeeded
        rw [granted] at ended
        obtain ⟨allowed, cidr, served, inside⟩ := isIPExcluded_of_allocateNextLoop ended
        rcases avoids allocator found requested (by rw [request]; rfl) with default | outside
        · rw [default] at allowed
          rw [allowed] at excluded
          cases excluded
        · rw [outside cidr served] at inside
          cases inside

theorem ne_of_allocateNextIPv4 {family owner : String}
    (avoids : family = "ipv4" ∨ family = "" → ipam.NextAvoids ip metadata .ipv4 owner pool)
    {ipv6Result : Option AllocationResult} (returned : ∀ result ∈ ipv6Result, result.ip ≠ ip)
    (member : result ∈
      listed (ipam.allocateNextIPv4 metadata starts family owner pool ipv6Result).2) :
    result.ip ≠ ip := by
  unfold allocateNextIPv4 at member
  split at member
  case isFalse _ => exact returned result (mem_toList.mp member)
  case isTrue requested =>
    split at member
    case h_1 later ipv4Result ended =>
      rcases mem_append.mp member with first | second
      · obtain rfl := mem_singleton.mp first
        exact ne_of_allocateNextFamily excluded (avoids requested.1) (congrArg Prod.snd ended)
      · exact returned result (mem_toList.mp second)
    case h_2 later err ended =>
      split at member
      · cases member
      · cases member

/-- A call that avoids an address which is excluded in the default pool does not return it. -/
theorem ne_of_call {action : Action} (avoids : Avoids ip ipam action)
    (member : result ∈ (ipam.call action).2) : result.ip ≠ ip := by
  cases action with
  | releaseIP _ _ => cases member
  | allocateIP requested owner pool =>
    obtain ⟨asked, allowed⟩ := isIPExcluded_of_allocateIP (mem_toOption.mp member)
    intro same
    subst same
    rcases avoids with other | default
    · exact other asked
    · rw [default] at allowed
      rw [allowed] at excluded
      cases excluded
  | allocateNextFamily metadata starts family owner pool =>
    exact ne_of_allocateNextFamily excluded avoids (mem_toOption.mp member)
  | allocateNext metadata starts family owner pool =>
    rw [call, allocateNext] at member
    split at member
    case isFalse _ =>
      exact ne_of_allocateNextIPv4 excluded avoids.2 (fun _ none => by cases none) member
    case isTrue requested =>
      split at member
      · cases member
      case h_2 later ipv6Result ended =>
        have touches := touches_allocateNextFamily ipam metadata (starts .ipv6) .ipv6 owner pool
        rw [ended] at touches
        obtain ⟨same, others⟩ := touches
        refine ne_of_allocateNextIPv4 ?_ (fun requested => ?_) (fun result first => ?_) member
        · rw [isIPExcluded, same.1, same.2]
          exact excluded
        · unfold NextAvoids
          rw [others .ipv4 (by decide), same.2]
          exact avoids.2 requested
        · cases first
          exact ne_of_allocateNextFamily excluded (avoids.1 requested.1) (congrArg Prod.snd ended)

end Returned

/-- In every run of calls that avoid it, an address that was excluded in the default pool is not
returned. -/
theorem excludeIP_not_returned (ipam : IPAM) (ip : Addr) (owner : String) {actions : List Action}
    (meets : Meets (fun ipam action => (call ipam action).1) (Avoids ip)
      (ipam.excludeIP ip owner ipam.poolDefault) actions) {action : Action}
    (avoids : Avoids ip (run (fun ipam action => (call ipam action).1)
      (ipam.excludeIP ip owner ipam.poolDefault) actions) action) {result : AllocationResult}
    (returned : result ∈ ((run (fun ipam action => (call ipam action).1)
      (ipam.excludeIP ip owner ipam.poolDefault) actions).call action).2) : result.ip ≠ ip := by
  refine ne_of_call ?_ avoids returned
  refine Meets.invariant (fun ipam => (ipam.isIPExcluded ip ipam.poolDefault).isSome = true)
    (fun ipam action excluded _ => ?_) ?_ meets
  · have same := sameExclusions_call ipam action
    rw [isIPExcluded, same.1, same.2]
    exact excluded
  · rw [isIPExcluded, excludeIP, AList.lookup_insert]
    rfl

def avoidingRun : List Action :=
  [.allocateNextFamily noMetadata (fun _ => 0) .ipv4 "pod" "pawn",
    .allocateIP (some (.ofBits 0x0a000003#32)) "pod" "node",
    .releaseIP (some (.ofBits 0x0a000003#32)) "node"]

def avoidingRunState : IPAM :=
  run (fun ipam action => (call ipam action).1)
    (twoNodes.excludeIP (.ofBits 0x0a000001#32) "router" twoNodes.poolDefault) avoidingRun

/-- A later call for the next address of the default pool is served from the agent's own node, but
not the address that is excluded there. -/
theorem avoidingRun_excludeIP_not_returned :
    (avoidingRunState.call (.allocateNextFamily noMetadata (fun _ => 0) .ipv4 "pod" "default")).2 =
      [⟨⟨.ipv4, 0x0a000002, by decide⟩, "node"⟩] ∧
    (⟨⟨.ipv4, 0x0a000002, by decide⟩, "node"⟩ : AllocationResult).ip ≠
      ⟨.ipv4, 0x0a000001, by decide⟩ :=
  have returned : (avoidingRunState.call
      (.allocateNextFamily noMetadata (fun _ => 0) .ipv4 "pod" "default")).2 =
      [⟨⟨.ipv4, 0x0a000002, by decide⟩, "node"⟩] := by decide +kernel
  ⟨returned, excludeIP_not_returned twoNodes _ "router" (by decide +kernel) (by decide +kernel)
    (returned ▸ mem_singleton_self _)⟩

/-- A call for the next address of the agent's own node is served the excluded address. -/
theorem nodePool_excludeIP_returned :
    ((twoNodes.excludeIP ⟨.ipv4, 0x0a000001, by decide⟩ "router" twoNodes.poolDefault).call
      (.allocateNextFamily noMetadata (fun _ => 0) .ipv4 "pod" "node")).2 =
      [⟨⟨.ipv4, 0x0a000001, by decide⟩, "node"⟩] := by
  decide +kernel

end IPAM

end Constellation.Ipam
