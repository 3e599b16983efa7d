/-
This file is about CIDRs that the agent hands back: no address of such a CIDR should be handed out
until a version of the node resource without it, and then one with it again, has been observed.
The released set does not guard a CIDR that is reclaimed because addresses are short, whose pool
is deleted or replaced, or that comes back under another pool or within another CIDR. In every run
without such a step, CIDRs that were handed back are not used again too early.
-/

import Constellation.Ipam.Places

namespace Constellation.Ipam.MultiPool

open Lib Manager List Option Family

variable {ν : Type} {m : Manager ν}

/-! ### Runs -/

/-- `updateLocalNode` is the part of the source function up to its request; whether the request is
accepted is an event of its own. -/
inductive Event (ν : Type)
  | ciliumNodeUpdated (node : ν)
  | setNodeSynced
  | restoreFinished (family : Family)
  | updateLocalNode (now : Nat)
  | updateAccepted
  | updateRefused
  | allocateNext (now : Nat) (owner : String) (pool : Pool) (family : Family)
      (skipMasquerade : Except String Bool) (start : Nat)
  | allocateIP (now : Nat) (addr : Addr) (owner : String) (pool : Pool) (family : Family)
  | releaseIP (addr : Addr) (pool : Pool) (family : Family)

def handedOut (m : Manager ν) : Event ν → Option Addr
  | .allocateNext now owner pool family skipMasquerade start =>
    (m.allocateNext now owner pool family skipMasquerade start).2.toOption.map fun result =>
      result.ip
  | .allocateIP now addr owner pool family =>
    (m.allocateIP now addr owner pool family).2.toOption.map fun result => result.ip
  | _ => none

/-- A manager, with the CIDRs that have been in use since a version without them was last observed,
those that were handed back since, and those that were handed back and that the last version is
without. -/
structure Record (ν : Type) where
  manager : Manager ν
  held : List MaskedCIDR
  handedBack : List MaskedCIDR
  withdrawn : List MaskedCIDR

namespace Record

def initial (preallocatedIPsPerPool : GoMap Pool Int) : Record ν where
  manager := .new preallocatedIPsPerPool
  held := []
  handedBack := []
  withdrawn := []

variable (record : Record ν)

def withManager (manager : Manager ν) : Record ν :=
  { record with manager := manager, held := manager.inUseCIDRs ++ record.held }

def observed (manager : Manager ν) (listed : List MaskedCIDR) : Record ν where
  manager := manager
  held := manager.inUseCIDRs ++ record.held.filter (· ∈ listed)
  handedBack := record.handedBack.filter (· ∈ listed)
  withdrawn := (record.handedBack ++ record.withdrawn).filter (· ∉ listed)

def written (listed : List MaskedCIDR) : Record ν where
  manager := { record.manager with writing := none }
  held := record.held.filter (· ∈ listed)
  handedBack := record.handedBack ++ record.held.filter (· ∉ listed)
  withdrawn := record.withdrawn

variable (config : Config ν) (record : Record ν)

def step : Event ν → Record ν
  | .ciliumNodeUpdated node =>
    record.observed (record.manager.ciliumNodeUpdated config node)
      (blocksOf (config.fromResource node).allocated)
  | .setNodeSynced => record.withManager { record.manager with nodeSynced := true }
  | .restoreFinished family =>
    record.withManager { record.manager with
      finishedRestore := Function.update record.manager.finishedRestore family true }
  | .updateLocalNode now => record.withManager (record.manager.updateLocalNode config now)
  | .updateAccepted =>
    match record.manager.writing with
    | none => record
    | some allocated => record.written (blocksOf allocated)
  | .updateRefused => record.withManager { record.manager with writing := none }
  | .allocateNext now owner pool family skipMasquerade start =>
    record.withManager (record.manager.allocateNext now owner pool family skipMasquerade start).1
  | .allocateIP now addr owner pool family =>
    record.withManager (record.manager.allocateIP now addr owner pool family).1
  | .releaseIP addr pool family => record.withManager (record.manager.releaseIP addr pool family).1

/-- No call hands out an address of a CIDR that was handed back, unless a version without the CIDR
and then one with it have been observed. -/
def NotUsedAgain : Prop :=
  ∀ event addr, handedOut record.manager event = some addr →
    ∀ block ∈ record.handedBack ++ record.withdrawn, block.val.contains addr = false

/-! ### The condition -/

/-- The pools of a version have distinct names, their CIDRs overlap only themselves and neither a
CIDR that is known at another place nor another one that was withdrawn, and no pool is replaced
by a new one while one of its released CIDRs is listed. -/
def VersionFits (allocated : List IPAMPoolAllocation) : Prop :=
  (allocated.map IPAMPoolAllocation.pool).Nodup ∧
  (∀ place ∈ listings allocated, ∀ other ∈ listings allocated ++ record.manager.knownPlaces,
    place.block.val.overlaps other.block.val = true → place = other) ∧
  (∀ place ∈ listings allocated, ∀ block ∈ record.withdrawn,
    place.block.val.overlaps block.val = true → place.block = block) ∧
  record.manager.SettingsKept allocated
  deriving Decidable

/-- A write reclaims no CIDR that was handed back, every pool that has a CIDR which was in use or
handed back keeps a CIDR in use, and until the node is synced, it lists every known CIDR. -/
def WriteFits (now : Nat) : Prop :=
  (∀ entry ∈ record.manager.pools.entries, ∀ family ∈ [ipv4, ipv6],
    ∀ pool ∈ (entry.2.ofFamily family).toList, Short config record.manager now entry.1 family pool →
        ∀ block ∈ record.handedBack ++ record.withdrawn, block ∉ pool.released) ∧
  (∀ entry ∈ record.manager.pools.entries, KeepsCIDR config record.manager now entry.1 entry.2 ∨
      ∀ family ∈ [ipv4, ipv6], ∀ pool ∈ (entry.2.ofFamily family).toList,
        ∀ block ∈ record.held ++ record.handedBack, ¬pool.Knows block) ∧
  (record.manager.nodeSynced = true ∨
    ∀ node ∈ record.manager.node.toList, ∀ place ∈ record.manager.knownPlaces,
      place.block ∈ blocksOf (config.fromResource node).allocated)
  deriving Decidable

def Condition : Event ν → Prop
  | .ciliumNodeUpdated node => record.VersionFits (config.fromResource node).allocated
  | .updateLocalNode now => record.WriteFits config now
  | _ => True

instance (event : Event ν) : Decidable (record.Condition config event) := by
  cases event <;> delta Condition <;> infer_instance

/-! ### The invariant -/

/-- Known CIDRs overlap only themselves; those in use are known; those handed back are in a released
set; a known CIDR that overlaps a withdrawn one is that one, and not in use; and a write under way
has every CIDR in use. -/
structure Kept (record : Record ν) : Prop where
  apart : ∀ place other, record.manager.Knows place → record.manager.Knows other →
    place.block.val.overlaps other.block.val = true → place = other
  held : ∀ block ∈ record.held, ∃ place : Place, place.block = block ∧ record.manager.Knows place
  handedBack : ∀ block ∈ record.handedBack,
    ∃ place : Place, place.block = block ∧ record.manager.Released place
  withdrawn : ∀ block ∈ record.withdrawn, ∀ place, record.manager.Knows place →
    place.block.val.overlaps block.val = true → place.block = block ∧ record.manager.Released place
  writing : ∀ allocated, record.manager.writing = some allocated →
    ∀ place, record.manager.InUse place → place.block ∈ blocksOf allocated

theorem overlaps_self (block : MaskedCIDR) : block.val.overlaps block.val = true := by
  have inside : block.val.contains block.val.addr = true := (CIDR.contains_iff _ _).mpr ⟨rfl, rfl⟩
  exact CIDR.overlaps_of_contains inside inside

theorem kept_initial (preallocatedIPsPerPool : GoMap Pool Int) :
    (initial preallocatedIPsPerPool : Record ν).Kept where
  apart place _ knows := by
    obtain ⟨pool, found, _⟩ := knows
    cases found
  held _ member := nomatch member
  handedBack _ member := nomatch member
  withdrawn _ member := nomatch member
  writing _ none := by cases none

variable {record : Record ν}

/-- A manager with the same places, and with the same write under way or none, is as good. -/
theorem Kept.withManager (kept : record.Kept) {manager : Manager ν}
    (same : Unmoved record.manager manager) : (record.withManager manager).Kept := by
  have knows (place : Place) : manager.Knows place ↔ record.manager.Knows place := by
    rw [knows_iff, knows_iff, same.inUse, same.released]
  refine ⟨fun place other first second => ?_, fun block member => ?_, fun block member => ?_,
    fun block member place known overlap => ?_, fun allocated under place inUse => ?_⟩
  · exact kept.apart place other ((knows place).mp first) ((knows other).mp second)
  · rcases mem_append.mp member with inUse | before
    · exact exists_knows_of_mem_inUseCIDRs inUse
    · obtain ⟨place, rfl, known⟩ := kept.held block before
      exact ⟨place, rfl, (knows place).mpr known⟩
  · obtain ⟨place, rfl, released⟩ := kept.handedBack block member
    exact ⟨place, rfl, (same.released place).mpr released⟩
  · obtain ⟨rfl, released⟩ := kept.withdrawn block member place ((knows place).mp known) overlap
    exact ⟨rfl, (same.released place).mpr released⟩
  · refine kept.writing allocated ?_ place ((same.inUse place).mp inUse)
    rcases same.writing with unchanged | none
    · exact unchanged.symm.trans under
    · cases none.symm.trans under

variable {config : Config ν}

/-- A version keeps what was handed back out of use until it is listed again. -/
theorem Kept.observed (kept : record.Kept) {node : ν}
    (fits : record.VersionFits (config.fromResource node).allocated) :
    (record.observed (record.manager.ciliumNodeUpdated config node)
      (blocksOf (config.fromResource node).allocated)).Kept := by
  obtain ⟨distinct, lists, notWithdrawn, settings⟩ := fits
  have observes := ciliumNodeUpdated_observes distinct settings
  have listedApart (place other : Place) (listed : place ∈ listings _)
      (known : record.manager.Knows other)
      (overlap : place.block.val.overlaps other.block.val = true) : place = other :=
    lists place listed other (mem_append_right _ (mem_knownPlaces.mpr known)) overlap
  have stillOut (place : Place) (released : record.manager.Released place)
      (absent : place.block ∉ blocksOf (config.fromResource node).allocated)
      (known : (record.manager.ciliumNodeUpdated config node).Knows place) :
      (record.manager.ciliumNodeUpdated config node).Released place := by
    refine (knows_iff.mp known).resolve_left fun inUse => ?_
    rcases observes.fresh place inUse with before | ⟨listed, _⟩
    · exact before.not_released released
    · exact absent (mem_blocksOf.mpr ⟨place, listed, rfl⟩)
  refine ⟨fun place other first second overlap => ?_, fun block member => ?_,
    fun block member => ?_, fun block member place known overlap => ?_, fun _ none => ?_⟩
  · rcases observes.origin place first with before | listed
    · rcases observes.origin other second with otherBefore | otherListed
      · exact kept.apart place other before otherBefore overlap
      · rw [CIDR.overlaps_comm] at overlap
        exact (listedApart other place otherListed before overlap).symm
    · rcases observes.origin other second with otherBefore | otherListed
      · exact listedApart place other listed otherBefore overlap
      · exact lists place listed other (mem_append_left _ otherListed) overlap
  · rcases mem_append.mp member with inUse | before
    · exact exists_knows_of_mem_inUseCIDRs inUse
    · obtain ⟨before, listed⟩ := mem_filter.mp before
      obtain ⟨place, rfl, known⟩ := kept.held block before
      obtain ⟨other, inList, same⟩ := mem_blocksOf.mp (of_decide_eq_true listed)
      obtain rfl := listedApart other place inList known (same ▸ overlaps_self _)
      exact ⟨other, rfl, observes.knows other inList known⟩
  · obtain ⟨before, listed⟩ := mem_filter.mp member
    obtain ⟨place, rfl, released⟩ := kept.handedBack block before
    obtain ⟨other, inList, same⟩ := mem_blocksOf.mp (of_decide_eq_true listed)
    obtain rfl := listedApart other place inList released.knows (same ▸ overlaps_self _)
    exact ⟨other, rfl, observes.released other inList released⟩
  · obtain ⟨before, notListed⟩ := mem_filter.mp member
    have absent := of_decide_eq_true notListed
    rcases mem_append.mp before with handedBack | withdrawn
    · obtain ⟨home, rfl, released⟩ := kept.handedBack block handedBack
      have same : place = home := by
        rcases observes.origin place known with earlier | listed
        · exact kept.apart place home earlier released.knows overlap
        · exact listedApart place home listed released.knows overlap
      subst same
      exact ⟨rfl, stillOut place released absent known⟩
    · rcases observes.origin place known with earlier | listed
      · obtain ⟨rfl, released⟩ := kept.withdrawn block withdrawn place earlier overlap
        exact ⟨rfl, stillOut place released absent known⟩
      · obtain rfl := notWithdrawn place listed block withdrawn overlap
        exact absurd (mem_blocksOf.mpr ⟨place, listed, rfl⟩) absent
  · cases none

theorem exists_pair {place : Place} (known : m.Knows place) :
    ∃ pair pool, m.pools.lookup place.pool = some pair ∧
      pair.ofFamily place.family = some pool ∧ pool.Knows place.block := by
  obtain ⟨pool, found, knows⟩ := known
  obtain ⟨pair, lookup, ofFamily⟩ := bind_eq_some_iff.mp found
  exact ⟨pair, pool, lookup, ofFamily, knows⟩

theorem mem_families (family : Family) : family ∈ [ipv4, ipv6] := by
  cases family <;> simp

/-- Preparing a write forgets no CIDR that matters and reclaims none. -/
theorem Kept.prepared (kept : record.Kept) {now : Nat} (fits : record.WriteFits config now) :
    (record.withManager (record.manager.updateLocalNode config now)).Kept := by
  obtain ⟨notReclaimed, poolsKept, lists⟩ := fits
  have writes := record.manager.updateLocalNode_writes config now
  have stillKnown (place : Place) (tracked : place.block ∈ record.held ++ record.handedBack)
      (known : record.manager.Knows place) :
      (record.manager.updateLocalNode config now).Knows place := by
    obtain ⟨pair, pool, lookup, ofFamily, knows⟩ := exists_pair known
    refine writes.kept place pair lookup ?_ known
    refine (poolsKept ⟨place.pool, pair⟩ (mem_entries_iff.mpr lookup)).resolve_right ?_
    intro unknown
    exact unknown place.family (mem_families _) pool (mem_toList.mpr ofFamily) _ tracked knows
  have stillOut (place : Place) (tracked : place.block ∈ record.handedBack ++ record.withdrawn)
      (released : record.manager.Released place) :
      ¬(record.manager.updateLocalNode config now).InUse place := by
    intro inUse
    rcases writes.fresh place inUse with before | ⟨_, pool, found, short⟩
    · exact before.not_released released
    · obtain ⟨again, sameFound, inReleased⟩ := released
      obtain rfl := Option.some.inj (found.symm.trans sameFound)
      obtain ⟨pair, lookup, ofFamily⟩ := bind_eq_some_iff.mp found
      exact notReclaimed ⟨place.pool, pair⟩ (mem_entries_iff.mpr lookup) place.family
        (mem_families _) pool (mem_toList.mpr ofFamily) short _ tracked inReleased
  refine ⟨fun place other first second => ?_, fun block member => ?_, fun block member => ?_,
    fun block member place known overlap => ?_, fun allocated writing place inUse => ?_⟩
  · exact kept.apart place other (writes.origin place first) (writes.origin other second)
  · rcases mem_append.mp member with inUse | before
    · exact exists_knows_of_mem_inUseCIDRs inUse
    · obtain ⟨place, rfl, known⟩ := kept.held block before
      exact ⟨place, rfl, stillKnown place (mem_append_left _ before) known⟩
  · obtain ⟨place, rfl, released⟩ := kept.handedBack block member
    have known := stillKnown place (mem_append_right _ member) released.knows
    exact ⟨place, rfl, (knows_iff.mp known).resolve_left
      (stillOut place (mem_append_left _ member) released)⟩
  · obtain ⟨rfl, released⟩ := kept.withdrawn block member place (writes.origin place known) overlap
    exact ⟨rfl, (knows_iff.mp known).resolve_left
      (stillOut place (mem_append_right _ member) released)⟩
  · cases node : record.manager.node with
    | none =>
      have same : record.manager.updateLocalNode config now = record.manager := by
        unfold updateLocalNode
        rw [node]
      rw [show (record.withManager (record.manager.updateLocalNode config now)).manager =
        record.manager from same] at writing inUse
      exact kept.writing allocated writing place inUse
    | some curNode =>
      cases synced : record.manager.nodeSynced with
      | true => exact mem_blocksOf_writing synced writing node inUse
      | false =>
        obtain rfl := writing_of_not_synced synced writing node
        rw [synced] at lists
        exact lists.resolve_left Bool.noConfusion curNode (mem_toList.mpr node) place
          (mem_knownPlaces.mpr (writes.origin place inUse.knows))

/-- A CIDR that an accepted write is without is in a released set. -/
theorem Kept.written (kept : record.Kept) {allocated : List IPAMPoolAllocation}
    (writing : record.manager.writing = some allocated) :
    (record.written (blocksOf allocated)).Kept := by
  obtain ⟨apart, held, handedBack, withdrawn, inWrite⟩ := kept
  refine ⟨apart, fun block member => held block (mem_filter.mp member).1,
    fun block member => ?_, withdrawn, nofun⟩
  rcases mem_append.mp member with before | dropped
  · exact handedBack block before
  · obtain ⟨before, absent⟩ := mem_filter.mp dropped
    obtain ⟨place, rfl, known⟩ := held block before
    refine ⟨place, rfl, (knows_iff.mp known).resolve_left fun inUse => ?_⟩
    exact of_decide_eq_true absent (inWrite allocated writing place inUse)

theorem Kept.step (kept : record.Kept) {event : Event ν} (fits : record.Condition config event) :
    (record.step config event).Kept := by
  cases event with
  | ciliumNodeUpdated node => exact kept.observed fits
  | setNodeSynced | restoreFinished family =>
    exact kept.withManager (.of_pools_eq rfl (.inl rfl))
  | updateLocalNode now => exact kept.prepared fits
  | updateAccepted =>
    show (match record.manager.writing with
      | none => record
      | some allocated => record.written (blocksOf allocated)).Kept
    cases writing : record.manager.writing with
    | none => exact kept
    | some allocated => exact kept.written writing
  | updateRefused => exact kept.withManager (.of_pools_eq rfl (.inr rfl))
  | allocateNext now owner pool family skipMasquerade start =>
    exact kept.withManager (allocateNext_spec ..).1
  | allocateIP now addr owner pool family => exact kept.withManager (allocateIP_spec ..).1
  | releaseIP addr pool family => exact kept.withManager (releaseIP_unmoved ..)

theorem exists_inUse_of_handedOut {event : Event ν} {addr : Addr}
    (out : handedOut m event = some addr) :
    ∃ place : Place, m.InUse place ∧ place.block.val.contains addr = true := by
  have fromResult {result : Except String PoolAllocationResult} (inUse : m.FromInUse result)
      (found : result.toOption.map (fun result => result.ip) = some addr) :
      ∃ place : Place, m.InUse place ∧ place.block.val.contains addr = true := by
    cases result with
    | error error => cases found
    | ok allocation =>
      cases found
      exact inUse allocation rfl
  cases event with
  | allocateNext now owner pool family skipMasquerade start =>
    exact fromResult (allocateNext_spec ..).2 out
  | allocateIP now addr owner pool family => exact fromResult (allocateIP_spec ..).2 out
  | ciliumNodeUpdated node | setNodeSynced | restoreFinished family | updateLocalNode now
  | updateAccepted | updateRefused | releaseIP addr pool family =>
    cases out

theorem Kept.notUsedAgain (kept : record.Kept) : record.NotUsedAgain := by
  intro event addr out block member
  obtain ⟨place, inUse, inside⟩ := exists_inUse_of_handedOut out
  refine Bool.eq_false_iff.mpr fun inBlock => ?_
  have overlap := CIDR.overlaps_of_contains inside inBlock
  rcases mem_append.mp member with handedBack | withdrawn
  · obtain ⟨home, rfl, released⟩ := kept.handedBack block handedBack
    obtain rfl := kept.apart place home inUse.knows released.knows overlap
    exact inUse.not_released released
  · exact inUse.not_released (kept.withdrawn block withdrawn place inUse.knows overlap).2

/-- In every run whose steps meet the condition, no address of a CIDR that was handed back is
handed out until a version without the CIDR and then one with it have been observed. -/
theorem run_notUsedAgain (config : Config ν) (preallocatedIPsPerPool : GoMap Pool Int)
    (events : List (Event ν))
    (meets : Meets (step config) (Condition config) (initial preallocatedIPsPerPool) events) :
    (run (step config) (initial preallocatedIPsPerPool) events).NotUsedAgain :=
  (meets.invariant Kept (fun _ _ kept fits => kept.step fits)
    (kept_initial preallocatedIPsPerPool)).notUsedAgain

/-! ### A run that fits, and one that does not -/

def version (resourceVersion : Nat) (cidrs : List MaskedCIDR) : CiliumNode where
  resourceVersion := resourceVersion
  pools := ⟨[], [⟨"blue", false, false, cidrs.map (some ·.val)⟩]⟩
  preAllocate := 0

def onlyIPv4 : Config CiliumNode := multiPoolAccessor true false false

def next (owner : String) : Event CiliumNode := .allocateNext 0 owner "blue" .ipv4 (.ok false) 0

/-- Two CIDRs are listed, one address is handed out, and the CIDR without addresses in use is
handed back. -/
def handBackRun : List (Event CiliumNode) :=
  [.ciliumNodeUpdated (version 1 [quad 0, quad 1]), .setNodeSynced,
    .restoreFinished .ipv4, next "first", .updateLocalNode 0, .updateAccepted]

/-- The CIDR that was handed back is withdrawn, and the first CIDR is used up. -/
def withdrawnRun : List (Event CiliumNode) :=
  handBackRun ++ [.ciliumNodeUpdated (version 2 [quad 0]), next "second"]

theorem withdrawnRun_notUsedAgain :
    Meets (step onlyIPv4) (Condition onlyIPv4) (initial ∅) withdrawnRun ∧
      quad 1 ∈ (run (step onlyIPv4) (initial ∅) withdrawnRun).withdrawn ∧
      (run (step onlyIPv4) (initial ∅) withdrawnRun).NotUsedAgain := by
  have meets : Meets (step onlyIPv4) (Condition onlyIPv4) (initial ∅) withdrawnRun := by
    decide +kernel
  exact ⟨meets, by decide +kernel, run_notUsedAgain onlyIPv4 ∅ withdrawnRun meets⟩

/-- The next write, before any other version is observed, reclaims the CIDR that was handed back. -/
def reclaimedRun : List (Event CiliumNode) :=
  handBackRun ++ [next "second", next "third", .updateLocalNode 1]

/-- An address of the CIDR that was handed back is then handed out, although no version without the
CIDR has been observed. -/
theorem reclaimedRun_usedAgain :
    ¬(run (step onlyIPv4) (initial ∅) reclaimedRun).NotUsedAgain := by
  intro notUsedAgain
  have out : handedOut (run (step onlyIPv4) (initial ∅) reclaimedRun).manager (next "third") =
      some ⟨.ipv4, 5, by decide⟩ := by decide +kernel
  have handedBack : quad 1 ∈
      (run (step onlyIPv4) (initial ∅) reclaimedRun).handedBack := by decide +kernel
  have apart := notUsedAgain _ _ out _ (mem_append_left _ handedBack)
  revert apart
  decide +kernel

end Record

end Constellation.Ipam.MultiPool
