/-
This file proves that the multi-pool allocator gives no overlapping CIDRs to two nodes, in every
run that meets a condition. Without it, a pool that gets the CIDR of a deleted pool with another
name hands out blocks that nodes still hold.
-/

import Constellation.Lib.Run
import Constellation.Multipool.Updating

namespace Constellation.Multipool

open Ipam (Addr CIDR Family)
open Lib Option PoolAllocator

/-! ### Runs -/

inductive Call
  | upsertPool (name : String) (configs : Dual (List PoolCIDRConfig)) (maskSize : Dual Nat)
      (allowFirstIP allowLastIP : Bool)
  | deletePool (name : String)
  | restoreFinished
  | allocateToNode (node : String) (spec : IPAMPoolSpec)
  | releaseNode (node : String)
  | allocatedPools (node : String)

/-- The allocator, with what it last published for each node. -/
structure Publishing where
  allocator : PoolAllocator
  published : GoMap String (List IPAMPoolAllocation)

namespace Publishing

def initial (enableIPv4 enableIPv6 : Bool) : Publishing :=
  ⟨newPoolAllocator enableIPv4 enableIPv6, ∅⟩

/-- A call that crashes leaves no state. -/
def call (runtime : Runtime) (state : Publishing) : Call → Option Publishing
  | .upsertPool name configs maskSize allowFirstIP allowLastIP =>
    (state.allocator.upsertPool runtime name configs maskSize allowFirstIP allowLastIP).map
      fun (allocator, _) => { state with allocator := allocator }
  | .deletePool name =>
    (state.allocator.deletePool runtime name).map
      fun (allocator, _) => { state with allocator := allocator }
  | .restoreFinished => some { state with allocator := state.allocator.restoreFinished }
  | .allocateToNode node spec =>
    (state.allocator.allocateToNode runtime node spec).map
      fun (allocator, _) => { state with allocator := allocator }
  | .releaseNode node =>
    (state.allocator.releaseNode runtime node).map
      fun (allocator, _) => { state with allocator := allocator }
  | .allocatedPools node =>
    some { state with
      published := state.published.insert node (state.allocator.allocatedPools node) }

def step (runtime : Runtime) (state : Option Publishing) (call : Call) : Option Publishing :=
  state.bind (·.call runtime call)

/-- Every reported CIDR is among those last published to the node. -/
def Reports (published allocated : List IPAMPoolAllocation) : Prop :=
  ∀ allocation ∈ allocated, ∀ cidr ∈ allocation.cidrs, ∃ other ∈ published,
    other.pool = allocation.pool ∧ cidr ∈ other.cidrs

variable (state : Publishing)

/-- What the allocator may expect of a call: the CIDRs of the pools are disjoint, and nodes report
what was published to them. -/
def Expected : Call → Prop
  | .upsertPool name configs _ _ _ => state.allocator.ListsDisjoint name configs
  | .allocateToNode node spec => Reports ((state.published.lookup node).getD []) spec.allocated
  | _ => True

/-- The orphans in the range of an updated pool come from that pool and are single blocks of it; its
IPv4 sets have fewer than `2 ^ 32` blocks; an update of a pool that exists does not fail once it has
changed sets; and a node reports CIDRs that it holds, or that have the size of the blocks of their
pool. -/
def Admissible : Call → Prop
  | .upsertPool name configs maskSize _ _ =>
    state.allocator.OrphansReclaimable name configs maskSize ∧
      PoolAllocator.Indexable configs maskSize ∧ state.allocator.Completes name configs maskSize
  | .allocateToNode node spec =>
    ∀ allocation ∈ spec.allocated, ∀ cidr ∈ allocation.cidrs.filterMap id,
      state.allocator.Reportable node allocation.pool cidr
  | _ => True

instance (call : Call) : Decidable (state.Expected call) := by
  cases call <;> dsimp only [Expected, ListsDisjoint, Reports] <;> infer_instance

instance (call : Call) : Decidable (state.Admissible call) := by
  unfold Admissible OrphansReclaimable Indexable Completes
  split <;> infer_instance

def Condition (state : Option Publishing) (call : Call) : Prop :=
  ∀ reached ∈ state.toList, reached.Expected call ∧ reached.Admissible call
  deriving Decidable

def Holds (node pool : String) (cidr : CIDR) : Prop :=
  state.allocator.isAllocated node pool cidr = true ∨ state.allocator.isOrphan node pool cidr = true
  deriving Decidable

/-- No CIDR of one node overlaps a CIDR of another. -/
def HeldApart (state : Option Publishing) : Prop :=
  ∀ reached ∈ state, ∀ node other, node ≠ other → ∀ pool otherPool cidr otherCidr,
    reached.Holds node pool cidr → reached.Holds other otherPool otherCidr →
      cidr.overlaps otherCidr = false

theorem kept_initial (enableIPv4 enableIPv6 : Bool) :
    (initial enableIPv4 enableIPv6).allocator.Kept := by
  have noSet : ∀ {pool family set},
      set ∉ (initial enableIPv4 enableIPv6).allocator.sets pool family :=
    fun {_ _ _} => List.not_mem_nil
  have noEntry : ∀ {node pool family cidr}, ¬Table.Holds ∅ node pool family cidr :=
    fun {_ _ _ _} held => Table.not_holds_of_lookup rfl held
  refine ⟨⟨fun member => absurd member noSet, fun member => absurd member noSet,
    fun member => absurd member noSet, fun _ _ => .nil,
    fun _ member => absurd member noSet, fun held => absurd held noEntry,
    fun held => absurd held noEntry, fun held => absurd held noEntry,
    fun held => absurd held noEntry, fun held => absurd held noEntry,
    fun held => absurd held noEntry⟩, ?_, fun member => absurd member noSet⟩
  exact fun held => absurd held noEntry

/-- A call that is expected and admissible keeps what the allocator keeps. -/
theorem call_kept {runtime : Runtime} {state next : Publishing} {call : Call}
    (kept : state.allocator.Kept) (expected : state.Expected call)
    (admissible : state.Admissible call) (called : state.call runtime call = some next) :
    next.allocator.Kept := by
  cases call with
  | upsertPool name configs maskSize allowFirstIP allowLastIP =>
    obtain ⟨result, updated, rfl⟩ := map_eq_some_iff.mp called
    exact upsertPool_kept kept expected admissible.1 admissible.2.1 admissible.2.2 updated
  | deletePool name =>
    obtain ⟨result, deleted, rfl⟩ := map_eq_some_iff.mp called
    exact deletePool_kept kept deleted
  | restoreFinished =>
    cases called
    exact kept.fewer rfl rfl le_rfl le_rfl
  | allocateToNode node spec =>
    obtain ⟨result, allocated, rfl⟩ := map_eq_some_iff.mp called
    refine allocateToNode_kept kept ?_ allocated
    intro allocation listed cidr reported
    exact admissible allocation listed cidr (List.mem_filterMap.mpr ⟨some cidr, reported, rfl⟩)
  | releaseNode node =>
    obtain ⟨result, released, rfl⟩ := map_eq_some_iff.mp called
    exact releaseNode_kept kept released
  | allocatedPools node =>
    cases called
    exact kept

theorem heldApart_of_kept {state : Publishing} (kept : state.allocator.Kept) {node other : String}
    (differ : node ≠ other) {pool otherPool : String} {cidr otherCidr : CIDR}
    (held : state.Holds node pool cidr) (otherHeld : state.Holds other otherPool otherCidr) :
    cidr.overlaps otherCidr = false := by
  simp only [Holds, isAllocated_iff, isOrphan_iff] at held otherHeld
  refine Bool.eq_false_iff.mpr fun overlap => ?_
  rcases held with regular | orphan
  · rcases otherHeld with otherRegular | otherOrphan
    · exact differ (kept.separate.regular_unique regular otherRegular overlap).1.symm
    · rw [kept.separate.regular_orphan regular otherOrphan] at overlap
      cases overlap
  · rcases otherHeld with otherRegular | otherOrphan
    · rw [CIDR.overlaps_comm, kept.separate.regular_orphan otherRegular orphan] at overlap
      cases overlap
    · exact differ (kept.separate.orphan_unique orphan otherOrphan overlap).1.symm

/-- In every run whose calls are expected and admissible, no CIDR held by one node overlaps a CIDR
held by another. -/
theorem run_heldApart (runtime : Runtime) (enableIPv4 enableIPv6 : Bool) (calls : List Call)
    (meets : Meets (step runtime) Condition (some (initial enableIPv4 enableIPv6)) calls) :
    HeldApart (run (step runtime) (some (initial enableIPv4 enableIPv6)) calls) := by
  have kept := meets.invariant (fun state => ∀ reached ∈ state, reached.allocator.Kept) ?_ ?_
  · exact fun reached there node other differ pool otherPool cidr otherCidr held otherHeld =>
      heldApart_of_kept (kept reached there) differ held otherHeld
  · intro state call before condition next there
    obtain ⟨reached, isReached, called⟩ := bind_eq_some_iff.mp there
    obtain ⟨expected, admissible⟩ := condition reached (mem_toList.mpr isReached)
    exact call_kept (before reached isReached) expected admissible called
  · intro reached there
    cases there
    exact kept_initial enableIPv4 enableIPv6

/-! ### Examples -/

/-- Visits maps in the order of their keys and grows slices to what is needed. -/
def plainRuntime : Runtime := ⟨IterationOrder.listed, fun _ length => length, fun _ _ => le_rfl⟩

def cidr24 : CIDR := ⟨.ofBits 0x0a000000#32, 24, by decide⟩

/-- A pool with that CIDR, in blocks of 64 addresses. -/
def upsert24 (name : String) : Call := .upsertPool name ⟨[⟨cidr24, []⟩], []⟩ ⟨26, 64⟩ false false

def requestFrom (node pool : String) (allocated : List IPAMPoolAllocation) : Call :=
  .allocateToNode node ⟨[⟨pool, ⟨1, 0⟩⟩], allocated⟩

def firstBlock : CIDR := ⟨.ofBits 0x0a000000#32, 26, by decide⟩

def secondBlock : CIDR := ⟨⟨.ipv4, 0x0a000040, by decide⟩, 26, by decide⟩

/-- A pool is deleted while a node holds a block of it, and made anew. -/
def recreatedPool : List Call :=
  [upsert24 "a", .restoreFinished, requestFrom "one" "a" [], .allocatedPools "one", .deletePool "a",
    upsert24 "a", requestFrom "two" "a" [],
    requestFrom "one" "a" [⟨"a", false, false, [some firstBlock]⟩]]

/-- The block of the deleted pool is taken out of the new one, and the second node gets another. -/
theorem recreatedPool_heldApart :
    Meets (step plainRuntime) Condition (some (initial true false)) recreatedPool ∧
      (∃ reached ∈ (run (step plainRuntime) (some (initial true false)) recreatedPool).toList,
        reached.Holds "one" "a" firstBlock ∧ reached.Holds "two" "a" secondBlock) ∧
      HeldApart (run (step plainRuntime) (some (initial true false)) recreatedPool) := by
  have meets : Meets (step plainRuntime) Condition (some (initial true false)) recreatedPool := by
    decide +kernel
  exact ⟨meets, by decide +kernel, run_heldApart plainRuntime true false recreatedPool meets⟩

/-- A pool is deleted while a node holds a block of it, and a pool with another name gets its
CIDR. -/
def renamedPool : List Call :=
  [upsert24 "a", .restoreFinished, requestFrom "one" "a" [], .allocatedPools "one", .deletePool "a",
    upsert24 "b", requestFrom "two" "b" []]

/-- The orphan is looked up in the pool that is gone, and both nodes hold the same block. -/
theorem renamedPool_not_heldApart :
    Meets (step plainRuntime) (fun state call => ∀ reached ∈ state.toList, reached.Expected call)
        (some (initial true false)) renamedPool ∧
      ¬HeldApart (run (step plainRuntime) (some (initial true false)) renamedPool) := by
  refine ⟨by decide +kernel, fun apart => ?_⟩
  have both : ∃ reached ∈ (run (step plainRuntime) (some (initial true false)) renamedPool).toList,
      reached.Holds "one" "a" firstBlock ∧ reached.Holds "two" "b" firstBlock := by
    decide +kernel
  obtain ⟨reached, there, first, second⟩ := both
  have disjoint := apart reached (mem_toList.mp there) "one" "two" (by decide) "a" "b"
    firstBlock firstBlock first second
  cases disjoint

end Publishing

end Constellation.Multipool
