/-
This file shows when the owners that the address manager keeps agree with the addresses in use. An
owner is registered under the pool that a call names, and released under the pool that the
allocation returned. In every run of calls where these are the same, an address has an owner
exactly while it is in use. Another call leaves an owner behind.
-/

import Constellation.Ipam.Allocator

namespace Constellation.Ipam

open Lib List Option ManagedScopeAllocator Allocator

namespace IPAM

/-! ### The pool of an address -/

def has (ipam : IPAM) (addr : Addr) : Bool :=
  (ipam.allocator addr.family).any fun allocator => allocator.has addr

/-- The pool of an address: the node of its range, or the default pool. -/
def poolOf (ipam : IPAM) (addr : Addr) : Option Pool :=
  (ipam.allocator addr.family).bind fun allocator =>
    (allocator.nodeFor addr).map fun node => if node = "" then ipam.poolDefault else node

def Configured (ipam : IPAM) : Prop :=
  ∀ family, ∀ allocator ∈ ipam.allocator family, allocator.CIDRsDisjoint ∧
    ∀ entry ∈ allocator.layout, entry.2.addr.family = family

/-- An address has an owner in a pool exactly if it is in use and this is its pool. -/
def OwnersExact (ipam : IPAM) : Prop :=
  ∀ pool addr, Index.Indexed ipam.owner pool addr ↔
    ipam.has addr = true ∧ ipam.poolOf addr = some pool

structure Consistent (ipam : IPAM) : Prop where
  configured : ipam.Configured
  ownersExact : ipam.OwnersExact

variable {result : AllocationResult} {metadata : Metadata} {addr ip : Addr} {owner : String}
  {starts : Nat → Nat} {before : IPAM} {pool : Pool}

section Allocators

variable {ipam : IPAM} {family : Family} {allocator later : Allocator}

@[simp]
theorem allocator_withAllocator (ipam : IPAM) (family other : Family) (later : Allocator) :
    (ipam.withAllocator family later).allocator other =
      if other = family then some later else ipam.allocator other := by
  cases family <;> cases other <;> rfl

@[simp]
theorem withAllocator_poolDefault (ipam : IPAM) (family : Family) (later : Allocator) :
    (ipam.withAllocator family later).poolDefault = ipam.poolDefault := by
  cases family <;> rfl

@[simp]
theorem withAllocator_owner (ipam : IPAM) (family : Family) (later : Allocator) :
    (ipam.withAllocator family later).owner = ipam.owner := by
  cases family <;> rfl

theorem withPoolDefault_ip (ipam : IPAM) (result : AllocationResult) :
    (ipam.withPoolDefault result).ip = result.ip := by
  unfold withPoolDefault
  split <;> rfl

theorem withAllocator_self (found : ipam.allocator family = some allocator) :
    ipam.withAllocator family allocator = ipam := by
  cases family with
  | ipv4 => exact congrArg (fun changed => { ipam with ipv4Allocator := changed }) found.symm
  | ipv6 => exact congrArg (fun changed => { ipam with ipv6Allocator := changed }) found.symm

theorem poolOf_withAllocator (found : ipam.allocator family = some allocator)
    (layout : later.layout = allocator.layout) :
    (ipam.withAllocator family later).poolOf = ipam.poolOf := by
  funext addr
  unfold poolOf
  rw [allocator_withAllocator, withAllocator_poolDefault]
  split
  case isTrue same =>
    rw [same, found]
    simp only [bind_some, Allocator.nodeFor, layout]
  · rfl

section

variable (configured : ipam.Configured) (found : ipam.allocator family = some allocator)
include configured found

theorem configured_withAllocator
    (layout : later.layout = allocator.layout) : (ipam.withAllocator family later).Configured := by
  intro other changed member
  rw [allocator_withAllocator] at member
  split at member
  case isTrue same =>
    cases member
    subst same
    unfold Allocator.CIDRsDisjoint
    rw [layout]
    exact configured other allocator found
  · exact configured other changed member

theorem family_of_nodeFor {node : String} (known : allocator.nodeFor addr = some node) :
    addr.family = family := by
  obtain ⟨entry, first, _⟩ := map_eq_some_iff.mp known
  have inside := find?_some first
  rw [((CIDR.contains_iff _ _).mp inside).1]
  exact (configured family allocator found).2 entry (mem_of_find?_eq_some first)

theorem poolOf_of_allocates (allocates : Allocator.Allocates allocator later result) :
    result.ip.family = family ∧
      ipam.poolOf result.ip = some (ipam.withPoolDefault result).ipPoolName := by
  have node := allocates.nodeFor_eq (configured family allocator found).1
  have sameFamily := family_of_nodeFor configured found node
  refine ⟨sameFamily, ?_⟩
  unfold poolOf withPoolDefault
  rw [sameFamily, found, bind_some, node, map_some]
  split
  · simp
  · simp

end

end Allocators

theorem poolOf_isSome_of_has {ipam : IPAM} (used : ipam.has addr = true) :
    (ipam.poolOf addr).isSome = true := by
  obtain ⟨allocator, found, used⟩ := (any_eq_true _ _).mp used
  rw [poolOf, found, bind_some, isSome_map]
  exact nodeFor_isSome_of_has used

/-! ### Allocations and releases keep the owners exact -/

section Steps

variable {ipam : IPAM} {family : Family} {allocator later : Allocator}

theorem has_withAllocator (ipam : IPAM) (family : Family) (later : Allocator) (addr : Addr) :
    (ipam.withAllocator family later).has addr =
      if addr.family = family then later.has addr else ipam.has addr := by
  unfold has
  rw [allocator_withAllocator]
  split <;> rfl

theorem has_eq (found : ipam.allocator family = some allocator) (same : addr.family = family) :
    ipam.has addr = allocator.has addr := by
  rw [has, same, found, any_some]

theorem Consistent.register (consistent : ipam.Consistent)
    (found : ipam.allocator family = some allocator)
    (allocates : Allocator.Allocates allocator later result)
    (own : (ipam.withPoolDefault result).ipPoolName = pool) (owner : String) :
    ((ipam.withAllocator family later).registerIPOwner result.ip owner pool).Consistent where
  configured := configured_withAllocator consistent.configured found allocates.layout_eq
  ownersExact other addr := by
    obtain ⟨sameFamily, ownPool⟩ := poolOf_of_allocates consistent.configured found allocates
    rw [own] at ownPool
    have pools : ((ipam.withAllocator family later).registerIPOwner result.ip owner pool).poolOf =
        ipam.poolOf := poolOf_withAllocator found allocates.layout_eq
    have used : ((ipam.withAllocator family later).registerIPOwner result.ip owner pool).has addr =
        (decide (addr = result.ip) || ipam.has addr) := by
      refine (has_withAllocator ipam family later addr).trans ?_
      split
      case isTrue same => rw [allocates.has_eq, has_eq found same]
      case isFalse differ =>
        have others : addr ≠ result.ip := fun same => differ (same ▸ sameFamily)
        simp [others]
    rw [pools, used]
    refine (Index.indexed_insert _ _ _ _ _ _).trans ?_
    rw [withAllocator_owner, consistent.ownersExact other addr, Bool.or_eq_true, decide_eq_true_eq]
    by_cases same : addr = result.ip
    · subst same
      rw [ownPool, Option.some.injEq]
      constructor
      · intro registered
        rcases registered with ⟨samePool, _⟩ | ⟨_, samePool⟩
        · exact ⟨.inl rfl, samePool.symm⟩
        · exact ⟨.inl rfl, samePool⟩
      · intro ⟨_, samePool⟩
        exact .inl ⟨samePool.symm, rfl⟩
    · simp [same]

theorem Consistent.releaseIP (consistent : ipam.Consistent) (own : ipam.poolOf ip = some pool) :
    (ipam.releaseIP (some ip) pool).1.Consistent := by
  unfold IPAM.releaseIP
  split
  · exact consistent
  · dsimp only
    cases found : ipam.allocator ip.family with
    | none => exact consistent
    | some allocator =>
      have layout := allocator.layout_release ip
      refine ⟨configured_withAllocator consistent.configured found layout, fun other addr => ?_⟩
      have pools : ((ipam.withAllocator ip.family (allocator.release ip)).releaseIPOwner ip
          pool).poolOf = ipam.poolOf := poolOf_withAllocator found layout
      have used : ((ipam.withAllocator ip.family (allocator.release ip)).releaseIPOwner ip
          pool).has addr = (decide (addr ≠ ip) && ipam.has addr) := by
        refine (has_withAllocator ipam ip.family _ addr).trans ?_
        split
        case isTrue same =>
          rw [has_release (consistent.configured _ _ found).1, has_eq found same]
        case isFalse differ =>
          have others : addr ≠ ip := fun same => differ (congrArg Addr.family same)
          simp [others]
      rw [pools, used]
      refine (Index.indexed_erase _ _ _ _ _).trans ?_
      rw [withAllocator_owner, consistent.ownersExact other addr, Bool.and_eq_true,
        decide_eq_true_eq]
      by_cases same : addr = ip
      · subst same
        rw [own, Option.some.injEq]
        constructor
        · intro ⟨others, _, samePool⟩
          exact absurd ⟨samePool.symm, rfl⟩ others
        · intro ⟨⟨differ, _⟩, _⟩
          exact absurd rfl differ
      · simp [same]

end Steps

/-- The owners are still exact, the pools of addresses are the same, and an address is returned with
its pool. -/
structure Granted (before : IPAM) (family : Family)
    (outcome : IPAM × Except String AllocationResult) : Prop where
  consistent : outcome.1.Consistent
  poolOf_eq : outcome.1.poolOf = before.poolOf
  poolDefault_eq : outcome.1.poolDefault = before.poolDefault
  allocator_eq : ∀ other, other ≠ family → outcome.1.allocator other = before.allocator other
  returned : ∀ result, outcome.2 = .ok result → before.poolOf result.ip = some result.ipPoolName

section Calls

variable {ipam : IPAM} {family : Family} {outcome : IPAM × Except String AllocationResult}

theorem Granted.of_later {later : IPAM} (granted : Granted later family outcome)
    (poolOf_eq : later.poolOf = ipam.poolOf) (poolDefault_eq : later.poolDefault = ipam.poolDefault)
    (allocator_eq : ∀ other, other ≠ family → later.allocator other = ipam.allocator other) :
    Granted ipam family outcome where
  consistent := granted.consistent
  poolOf_eq := granted.poolOf_eq.trans poolOf_eq
  poolDefault_eq := granted.poolDefault_eq.trans poolDefault_eq
  allocator_eq other differ := (granted.allocator_eq other differ).trans (allocator_eq other differ)
  returned result succeeded := poolOf_eq ▸ granted.returned result succeeded

theorem Consistent.granted_error (consistent : ipam.Consistent) (err : String) :
    Granted ipam family (ipam, .error err) :=
  ⟨consistent, rfl, rfl, fun _ _ => rfl, nofun⟩

/-- An address that came into use, registered under its pool and returned. -/
theorem Consistent.granted_register (consistent : ipam.Consistent) {allocator later : Allocator}
    (found : ipam.allocator family = some allocator)
    (allocates : Allocator.Allocates allocator later result)
    (own : (ipam.withPoolDefault result).ipPoolName = pool) (owner : String) :
    Granted ipam family ((ipam.withAllocator family later).registerIPOwner result.ip owner pool,
      .ok (ipam.withPoolDefault result)) where
  consistent := consistent.register found allocates own owner
  poolOf_eq := poolOf_withAllocator found allocates.layout_eq
  poolDefault_eq := withAllocator_poolDefault ipam family later
  allocator_eq other differ := (allocator_withAllocator ipam family other later).trans
    (if_neg differ)
  returned returned succeeded := by
    obtain rfl := Except.ok.inj succeeded
    rw [withPoolDefault_ip]
    exact (poolOf_of_allocates consistent.configured found allocates).2

theorem withPoolDefault_ipPoolName (ipam : IPAM) (result : AllocationResult) :
    (ipam.withPoolDefault result).ipPoolName =
      if result.ipPoolName = "" then ipam.poolDefault else result.ipPoolName := by
  unfold withPoolDefault
  split <;> rfl

/-- A call for a given address that names the pool the address is served from. -/
theorem Consistent.granted_allocateIP (consistent : ipam.Consistent)
    (serves : ∀ allocator ∈ ipam.allocator ip.family, allocator.Serves ipam.poolDefault pool ip)
    (owner : String) : Granted ipam ip.family (ipam.allocateIP (some ip) owner pool) := by
  unfold allocateIP
  split
  · exact consistent.granted_error _
  case isFalse named =>
    dsimp only
    split
    · exact consistent.granted_error _
    · split
      · exact consistent.granted_error _
      case h_2 allocator found =>
        obtain ⟨outcome, returned⟩ := allocator.allocate_outcome ip
        rcases outcome with ⟨unchanged, err, failed⟩ | ⟨result, succeeded, allocates⟩
        · have outcome : allocator.allocate ip = (allocator, .error err) :=
            Prod.ext unchanged failed
          rw [outcome]
          dsimp only
          rw [withAllocator_self found]
          exact consistent.granted_error _
        · have outcome : allocator.allocate ip = ((allocator.allocate ip).1, .ok result) :=
            Prod.ext rfl succeeded
          rw [outcome]
          obtain ⟨sameIP, own⟩ := returned result succeeded
          have granted := consistent.granted_register found allocates
            ((withPoolDefault_ipPoolName ipam result).trans
              (own _ _ (serves allocator found) named)) owner
          rwa [sameIP] at granted

/-- The loop of a call for the next address that names the pool it is served from. -/
theorem Consistent.granted_allocateNextLoop {fuel : Nat} {allocator : Allocator}
    (consistent : ipam.Consistent) (found : ipam.allocator family = some allocator)
    (serves : allocator.ServesNext ipam.poolDefault pool)
    (ended : allocateNextLoop family owner pool starts fuel ipam allocator = some outcome) :
    Granted ipam family outcome := by
  induction fuel generalizing ipam allocator with
  | zero => cases ended
  | succ fuel inductionHypothesis =>
    unfold allocateNextLoop at ended
    have next := allocator.allocateNext_outcome pool (starts fuel)
    rcases next.cases with ⟨unchanged, err, failed⟩ | ⟨result, succeeded, allocates⟩
    · have round : allocator.allocateNext pool (starts fuel) = (allocator, .error err) :=
        Prod.ext unchanged failed
      rw [round] at ended
      dsimp only at ended
      rw [withAllocator_self found] at ended
      cases ended
      exact consistent.granted_error _
    · have round : allocator.allocateNext pool (starts fuel) =
          ((allocator.allocateNext pool (starts fuel)).1, .ok result) := Prod.ext rfl succeeded
      rw [round] at ended
      dsimp only at ended
      have own : (ipam.withPoolDefault result).ipPoolName = pool :=
        (withPoolDefault_ipPoolName ipam result).trans (next.ipPoolName succeeded serves)
      split at ended
      · cases ended
        have granted := consistent.granted_register found allocates own owner
        rwa [withPoolDefault, ← withAllocator_poolDefault ipam family, ← withPoolDefault] at granted
      · have granted := inductionHypothesis
          (consistent.register found allocates own (owner ++ " (excluded)"))
          ((allocator_withAllocator ipam family family _).trans (if_pos rfl))
          ((withAllocator_poolDefault ipam family _).symm ▸ next.servesNext serves) ended
        exact granted.of_later (poolOf_withAllocator found allocates.layout_eq)
          (withAllocator_poolDefault ipam family _) fun other differ =>
            (allocator_withAllocator ipam family other _).trans (if_neg differ)

/-- The call names the pool it is served from, directly or by the metadata. -/
def NextServed (ipam : IPAM) (metadata : Metadata) (family : Family) (owner : String)
    (pool : Pool) : Prop :=
  ∀ allocator ∈ ipam.allocator family, ∀ requested ∈
    (requestedPool metadata owner family pool).toOption,
    allocator.ServesNext ipam.poolDefault requested
  deriving Decidable

theorem Consistent.granted_allocateNextFamily (consistent : ipam.Consistent)
    (served : ipam.NextServed metadata family owner pool) (starts : Nat → Nat) :
    Granted ipam family (ipam.allocateNextFamily metadata starts family owner pool) := by
  unfold allocateNextFamily
  split
  · exact consistent.granted_error _
  case h_2 allocator found =>
    split
    · exact consistent.granted_error _
    case h_2 requested request =>
      obtain ⟨outcome, ended⟩ := isSome_iff_exists.mp
        (allocateNextLoop_isSome family owner requested starts (allocator.free + 1) ipam allocator
          (Nat.lt_succ_self _))
      rw [ended, getD_some]
      refine consistent.granted_allocateNextLoop found (served allocator found requested ?_) ended
      rw [request]
      rfl

end Calls

/-! ### Runs -/

inductive Action
  | allocateIP (ip : Option Addr) (owner : String) (pool : Pool)
  | allocateNextFamily (metadata : Metadata) (starts : Nat → Nat) (family : Family)
      (owner : String) (pool : Pool)
  | allocateNext (metadata : Metadata) (starts : Family → Nat → Nat) (family owner : String)
      (pool : Pool)
  | releaseIP (ip : Option Addr) (pool : Pool)

def listed : Except String NextResults → List AllocationResult
  | .error _ => []
  | .ok (ipv4Result, ipv6Result) => ipv4Result.toList ++ ipv6Result.toList

def call (ipam : IPAM) : Action → IPAM × List AllocationResult
  | .allocateIP ip owner pool =>
    ((ipam.allocateIP ip owner pool).1, (ipam.allocateIP ip owner pool).2.toOption.toList)
  | .allocateNextFamily metadata starts family owner pool =>
    ((ipam.allocateNextFamily metadata starts family owner pool).1,
      (ipam.allocateNextFamily metadata starts family owner pool).2.toOption.toList)
  | .allocateNext metadata starts family owner pool =>
    ((ipam.allocateNext metadata starts family owner pool).1,
      listed (ipam.allocateNext metadata starts family owner pool).2)
  | .releaseIP ip pool => ((ipam.releaseIP ip pool).1, [])

theorem mem_toOption {ended : Except String AllocationResult} :
    result ∈ ended.toOption.toList ↔ ended = .ok result := by
  cases ended <;> simp [Except.toOption, eq_comm]

structure History where
  ipam : IPAM
  results : List AllocationResult

namespace History

variable (history : History)

def step (action : Action) : History :=
  ⟨(history.ipam.call action).1, (history.ipam.call action).2 ++ history.results⟩

/-- A release is given the pool that an allocation of the address returned. -/
def ReleasesReturned : Action → Prop
  | .releaseIP (some ip) pool => ⟨ip, pool⟩ ∈ history.results
  | _ => True

def PoolServed : Action → Prop
  | .allocateIP (some ip) _ pool =>
    ∀ allocator ∈ history.ipam.allocator ip.family,
      allocator.Serves history.ipam.poolDefault pool ip
  | .allocateNextFamily metadata _ family owner pool =>
    history.ipam.NextServed metadata family owner pool
  | .allocateNext metadata _ family owner pool =>
    (family = "ipv6" ∨ family = "" → history.ipam.NextServed metadata .ipv6 owner pool) ∧
      (family = "ipv4" ∨ family = "" → history.ipam.NextServed metadata .ipv4 owner pool)
  | _ => True

instance (action : Action) : Decidable (history.ReleasesReturned action) := by
  rcases action with (_ | _) | _ | _ | (_ | _) <;> delta ReleasesReturned <;> infer_instance

instance (action : Action) : Decidable (history.PoolServed action) := by
  rcases action with (_ | _) | _ | _ | (_ | _) <;> delta PoolServed <;> infer_instance

/-- The owners are exact, and every result has the pool of its address. -/
structure Exact (history : History) : Prop where
  consistent : history.ipam.Consistent
  returned : ∀ result ∈ history.results, history.ipam.poolOf result.ip = some result.ipPoolName

structure Kept (before : IPAM) (outcome : IPAM × List AllocationResult) : Prop where
  consistent : outcome.1.Consistent
  poolOf_eq : outcome.1.poolOf = before.poolOf
  returned : ∀ result ∈ outcome.2, before.poolOf result.ip = some result.ipPoolName

variable {ipam : IPAM}

theorem kept_self (consistent : ipam.Consistent) : Kept ipam (ipam, []) :=
  ⟨consistent, rfl, nofun⟩

theorem kept_of_granted {family : Family} {outcome : IPAM × Except String AllocationResult}
    (granted : Granted before family outcome) :
    Kept before (outcome.1, outcome.2.toOption.toList) :=
  ⟨granted.consistent, granted.poolOf_eq, fun result member =>
    granted.returned result (mem_toOption.mp member)⟩

variable {family : String}

section

variable (consistent : ipam.Consistent)
include consistent

theorem kept_releaseIP (own : ipam.poolOf ip = some pool) :
    Kept ipam ((ipam.releaseIP (some ip) pool).1, []) := by
  refine ⟨consistent.releaseIP own, ?_, nofun⟩
  unfold releaseIP
  split
  · rfl
  · dsimp only
    split
    · rfl
    case h_2 allocator found => exact poolOf_withAllocator found (allocator.layout_release ip)

theorem kept_allocateNextIPv4 (poolOf_eq : ipam.poolOf = before.poolOf)
    (served : family = "ipv4" ∨ family = "" → ipam.NextServed metadata .ipv4 owner pool)
    {ipv6Result : Option AllocationResult}
    (returned : ∀ result ∈ ipv6Result, before.poolOf result.ip = some result.ipPoolName) :
    Kept before ((ipam.allocateNextIPv4 metadata starts family owner pool ipv6Result).1,
        listed (ipam.allocateNextIPv4 metadata starts family owner pool ipv6Result).2) := by
  unfold allocateNextIPv4
  split
  case isFalse _ =>
    exact ⟨consistent, poolOf_eq,
      fun result member => returned result (mem_toList.mp member)⟩
  case isTrue requested =>
    have granted := consistent.granted_allocateNextFamily (served requested.1) starts
    have pools := granted.poolOf_eq.trans poolOf_eq
    split
    case h_1 later ipv4Result ended =>
      rw [ended] at granted pools
      refine ⟨granted.consistent, pools, fun result member => ?_⟩
      rcases mem_append.mp member with first | second
      · obtain rfl := mem_singleton.mp first
        exact poolOf_eq ▸ granted.returned result rfl
      · exact returned result (mem_toList.mp second)
    case h_2 later err ended =>
      rw [ended] at granted pools
      cases ipv6Result with
      | none => exact ⟨granted.consistent, pools, nofun⟩
      | some result =>
        have own : later.poolOf result.ip = some result.ipPoolName :=
          (congrFun pools result.ip).trans (returned result rfl)
        have released := kept_releaseIP granted.consistent own
        exact ⟨released.consistent, released.poolOf_eq.trans pools, nofun⟩

theorem kept_allocateNext {starts : Family → Nat → Nat}
    (served6 : family = "ipv6" ∨ family = "" → ipam.NextServed metadata .ipv6 owner pool)
    (served4 : family = "ipv4" ∨ family = "" → ipam.NextServed metadata .ipv4 owner pool) :
    Kept ipam (ipam.call (.allocateNext metadata starts family owner pool)) := by
  unfold call allocateNext
  dsimp only
  split
  case isFalse _ =>
    exact kept_allocateNextIPv4 consistent rfl served4 nofun
  case isTrue requested =>
    have granted := consistent.granted_allocateNextFamily (served6 requested.1) (starts .ipv6)
    split
    case h_1 later err ended =>
      rw [ended] at granted
      exact ⟨granted.consistent, granted.poolOf_eq, nofun⟩
    case h_2 later ipv6Result ended =>
      rw [ended] at granted
      refine kept_allocateNextIPv4 granted.consistent granted.poolOf_eq (fun requested => ?_) ?_
      · unfold NextServed
        rw [granted.allocator_eq .ipv4 (by decide), granted.poolDefault_eq]
        exact served4 requested
      · intro result member
        cases member
        exact granted.returned _ rfl

end

section

variable {history : History} {action : Action} (holds : history.Exact)
  (releases : history.ReleasesReturned action) (served : history.PoolServed action)
include holds releases served

/-- A call that names the pool it is served from, or releases what was returned. -/
theorem Exact.kept_call : Kept history.ipam (history.ipam.call action) := by
  have consistent := holds.consistent
  cases action with
  | allocateIP ip owner pool =>
    cases ip with
    | none =>
      unfold call allocateIP
      dsimp only
      split <;> exact kept_self consistent
    | some ip => exact kept_of_granted (consistent.granted_allocateIP served owner)
  | allocateNextFamily metadata starts family owner pool =>
    exact kept_of_granted (consistent.granted_allocateNextFamily served starts)
  | allocateNext metadata starts family owner pool =>
    exact kept_allocateNext consistent served.1 served.2
  | releaseIP ip pool =>
    cases ip with
    | none =>
      unfold call releaseIP
      dsimp only
      split <;> exact kept_self consistent
    | some ip => exact kept_releaseIP consistent (holds.returned _ releases)

theorem Exact.step : (history.step action).Exact := by
  have kept := holds.kept_call releases served
  refine ⟨kept.consistent, fun result member => ?_⟩
  show (history.ipam.call action).1.poolOf result.ip = _
  rw [kept.poolOf_eq]
  exact (mem_append.mp member).elim (kept.returned result) (holds.returned result)

end

/-- In every run of calls that name the pool they are served from, and of releases that are given
the pool an allocation returned, an address has an owner exactly while it is in use. -/
theorem owner_iff_has {ipam : IPAM} (configured : ipam.Configured) (noOwner : ipam.owner = ∅)
    (unused : ∀ addr, ipam.has addr = false) {actions : List Action}
    (meets : Meets step (fun history action => history.ReleasesReturned action ∧
      history.PoolServed action) ⟨ipam, []⟩ actions) (addr : Addr) :
    (∃ pool, Index.Indexed (run step ⟨ipam, []⟩ actions).ipam.owner pool addr) ↔
      (run step ⟨ipam, []⟩ actions).ipam.has addr = true := by
  have holds : (run step ⟨ipam, []⟩ actions).Exact := by
    refine Meets.invariant History.Exact (fun history action holds meets =>
      holds.step meets.1 meets.2) ⟨⟨configured, fun pool addr => ?_⟩, fun _ member => ?_⟩ meets
    · rw [unused addr, noOwner]
      simp [Index.Indexed]
    · cases member
  constructor
  · intro ⟨pool, owned⟩
    exact ((holds.consistent.ownersExact pool addr).mp owned).1
  · intro used
    obtain ⟨pool, own⟩ := isSome_iff_exists.mp (poolOf_isSome_of_has used)
    exact ⟨pool, (holds.consistent.ownersExact pool addr).mpr ⟨used, own⟩⟩

end History

/-- A range for the own node and one for a pawn, and one range of IPv6. -/
def twoNodes : IPAM where
  ipv4Allocator := some (.managedScope (((empty "node").addCIDR "node"
      (some ⟨⟨.ipv4, 0x0a000000, by decide⟩, 29, by decide⟩)).addCIDR "pawn"
      (some ⟨⟨.ipv4, 0x0a000100, by decide⟩, 29, by decide⟩)))
  ipv6Allocator := some (.hostScope
    ⟨.newCIDRRange ⟨⟨.ipv6, 0xfd000000000000000000000000000000, by decide⟩, 125, by decide⟩⟩)
  owner := ∅
  excludedIPs := ∅
  poolDefault := "default"

theorem twoNodes_configured : twoNodes.Configured := by
  intro family allocator found
  cases family with
  | ipv4 | ipv6 =>
    cases found
    exact ⟨by unfold Allocator.CIDRsDisjoint; decide +kernel, by decide +kernel⟩

theorem twoNodes_unused (addr : Addr) : twoNodes.has addr = false := by
  unfold has
  cases addr.family with
  | ipv4 =>
    show ((newSub "node" _).allocator.has addr ||
      ((newSub "pawn" _).allocator.has addr || false)) = false
    simp [newSub]
  | ipv6 => exact Range.has_newCIDRRange _ addr

def noMetadata : Metadata := fun _ _ => .error "pool not found"

def servedRun : List Action :=
  [.allocateIP (some ⟨.ipv4, 0x0a000003, by decide⟩) "pod" "node",
    .allocateNextFamily noMetadata (fun _ => 0) .ipv4 "pod" "pawn",
    .allocateNext noMetadata (fun _ _ => 0) "ipv6" "pod" "default",
    .releaseIP (some ⟨.ipv4, 0x0a000101, by decide⟩) "pawn"]

theorem servedRun_meets :
    Meets History.step (fun history action => history.ReleasesReturned action ∧
      history.PoolServed action) ⟨twoNodes, []⟩ servedRun := by
  decide +kernel

/-- The address of the pod on the agent's own node is in use and has an owner. -/
theorem servedRun_owner_iff_has :
    (run History.step ⟨twoNodes, []⟩ servedRun).ipam.has ⟨.ipv4, 0x0a000003, by decide⟩ = true ∧
      ((∃ pool, Index.Indexed (run History.step ⟨twoNodes, []⟩ servedRun).ipam.owner pool
        ⟨.ipv4, 0x0a000003, by decide⟩) ↔
      (run History.step ⟨twoNodes, []⟩ servedRun).ipam.has ⟨.ipv4, 0x0a000003, by decide⟩ = true) :=
  ⟨by decide +kernel,
    History.owner_iff_has twoNodes_configured rfl twoNodes_unused servedRun_meets _⟩

/-- A call for a pool that is not known is served from the primary node. -/
def unservedRun : List Action :=
  [.allocateNextFamily noMetadata (fun _ => 0) .ipv4 "pod" "unknown",
    .releaseIP (some (.ofBits 0x0a000001#32)) "node"]

/-- The address is released with the pool that was returned, but its owner stays registered under
the pool that was requested. -/
theorem unservedRun_keeps_owner :
    Meets History.step (fun history action => history.ReleasesReturned action) ⟨twoNodes, []⟩
        unservedRun ∧
      (run History.step ⟨twoNodes, []⟩ unservedRun).ipam.has ⟨.ipv4, 0x0a000001, by decide⟩ =
        false ∧
      Index.Indexed (run History.step ⟨twoNodes, []⟩ unservedRun).ipam.owner "unknown"
        ⟨.ipv4, 0x0a000001, by decide⟩ := by
  refine ⟨?_, ?_, ?_⟩ <;> decide +kernel

end IPAM

end Constellation.Ipam
