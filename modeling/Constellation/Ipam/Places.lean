/-
This file says what the calls of the manager make of the CIDRs it knows. A place is a CIDR in the
pool of a name and family. A version of the node resource brings a CIDR into use only if it is
listed and not released at its place; a write moves CIDRs between in use and released, and forgets
one only together with a pool.
-/

import Constellation.Ipam.MultiPool

namespace Constellation.Ipam.MultiPool

open Lib List IPAMPoolAllocation PoolPair Family

namespace Manager

variable {ν : Type}

/-! ### Where a CIDR is -/

structure Place where
  pool : Pool
  family : Family
  block : MaskedCIDR
  deriving DecidableEq

def InUse (m : Manager ν) (place : Place) : Prop :=
  ∃ pool, m.poolByFamilyLocked place.pool place.family = some pool ∧ place.block ∈ pool.inUseCIDRs

def Released (m : Manager ν) (place : Place) : Prop :=
  ∃ pool, m.poolByFamilyLocked place.pool place.family = some pool ∧ place.block ∈ pool.released

def Knows (m : Manager ν) (place : Place) : Prop :=
  ∃ pool, m.poolByFamilyLocked place.pool place.family = some pool ∧ pool.Knows place.block

variable {config : Config ν} {m : Manager ν} {place : Place}

theorem knows_iff : m.Knows place ↔ m.InUse place ∨ m.Released place := by
  unfold Knows InUse Released CidrPool.Knows
  rw [← exists_or]
  exact exists_congr fun pool => and_or_left

theorem InUse.knows (inUse : m.InUse place) : m.Knows place := knows_iff.mpr (.inl inUse)

theorem Released.knows (released : m.Released place) : m.Knows place :=
  knows_iff.mpr (.inr released)

theorem InUse.not_released (inUse : m.InUse place) : ¬m.Released place := by
  rintro ⟨pool, found, released⟩
  obtain ⟨same, again, member⟩ := inUse
  obtain rfl := Option.some.inj (again.symm.trans found)
  exact same.separate _ member released

def inUseCIDRs (m : Manager ν) : List MaskedCIDR :=
  m.pools.entries.flatMap fun entry => entry.2.inUseCIDRs

variable {name : Pool} {pair : PoolPair}

theorem mem_entries_iff {pools : GoMap Pool PoolPair} :
    (⟨name, pair⟩ : Sigma fun _ : Pool => PoolPair) ∈ pools.entries ↔
      pools.lookup name = some pair :=
  AList.mem_lookup_iff.symm

theorem mem_inUseCIDRs (block : MaskedCIDR) :
    block ∈ m.inUseCIDRs ↔ ∃ place : Place, place.block = block ∧ m.InUse place := by
  unfold inUseCIDRs
  rw [mem_flatMap]
  constructor
  · rintro ⟨⟨name, pair⟩, member, inUse⟩
    obtain ⟨family, pool, found, inPool⟩ := (pair.mem_inUseCIDRs block).mp inUse
    refine ⟨⟨name, family, block⟩, rfl, pool, ?_, inPool⟩
    show (m.pools.lookup name).bind _ = _
    rw [mem_entries_iff.mp member]
    exact found
  · rintro ⟨⟨name, family, other⟩, rfl, pool, found, inPool⟩
    obtain ⟨pair, lookup, ofFamily⟩ := Option.bind_eq_some_iff.mp found
    exact ⟨⟨name, pair⟩, mem_entries_iff.mpr lookup,
      (pair.mem_inUseCIDRs _).mpr ⟨family, pool, ofFamily, inPool⟩⟩

variable {block : MaskedCIDR}

theorem exists_knows_of_mem_inUseCIDRs (member : block ∈ m.inUseCIDRs) :
    ∃ place : Place, place.block = block ∧ m.Knows place := by
  obtain ⟨place, same, inUse⟩ := (mem_inUseCIDRs block).mp member
  exact ⟨place, same, inUse.knows⟩

def knownPlaces (m : Manager ν) : List Place :=
  m.pools.entries.flatMap fun entry =>
    [ipv4, ipv6].flatMap fun family =>
      (entry.2.ofFamily family).toList.flatMap fun pool =>
        (pool.inUseCIDRs ++ pool.released.keys).map fun block => ⟨entry.1, family, block⟩

theorem mem_knownPlaces : place ∈ m.knownPlaces ↔ m.Knows place := by
  unfold knownPlaces
  simp only [mem_flatMap]
  constructor
  · rintro ⟨⟨name, pair⟩, member, family, _, pool, ofFamily, known⟩
    obtain ⟨block, inPool, rfl⟩ := mem_map.mp known
    refine ⟨pool, ?_, mem_append.mp inPool⟩
    exact Option.bind_eq_some_iff.mpr
      ⟨pair, mem_entries_iff.mp member, Option.mem_toList.mp ofFamily⟩
  · rintro ⟨pool, found, known⟩
    obtain ⟨pair, lookup, ofFamily⟩ := Option.bind_eq_some_iff.mp found
    refine ⟨⟨place.pool, pair⟩, mem_entries_iff.mpr lookup, place.family, ?_, pool,
      Option.mem_toList.mpr ofFamily,
      mem_map.mpr ⟨place.block, mem_append.mpr known, rfl⟩⟩
    cases place.family <;> simp

/-! ### What a version makes of the places -/

theorem preparedPair_congr {later : Manager ν}
    (same : later.pools.lookup name = m.pools.lookup name) (allowFirstIP allowLastIP : Bool) :
    later.preparedPair config name allowFirstIP allowLastIP =
      m.preparedPair config name allowFirstIP allowLastIP := by
  unfold preparedPair
  rw [same]

def upserted (config : Config ν) (m : Manager ν) (entry : IPAMPoolAllocation) : PoolPair :=
  (m.preparedPair config entry.pool entry.allowFirstIP entry.allowLastIP).mapPools
    fun family pool => pool.updatePool (prefixesOf family entry.cidrs)

variable (entry : IPAMPoolAllocation)

theorem lookup_upsertPoolLocked (name : Pool) :
    (m.upsertPoolLocked config entry).pools.lookup name =
      if name = entry.pool then some (upserted config m entry) else m.pools.lookup name :=
  GoMap.lookup_insert_if _ _ _ _

variable {allocated : List IPAMPoolAllocation}

/-- A version changes the pools it lists, each as if it were the only one. -/
theorem lookup_foldl_upsertPoolLocked (distinct : (allocated.map pool).Nodup) :
    (∀ name ∉ allocated.map pool,
      (allocated.foldl (upsertPoolLocked config) m).pools.lookup name = m.pools.lookup name) ∧
    ∀ entry ∈ allocated, (allocated.foldl (upsertPoolLocked config) m).pools.lookup entry.pool =
        some (upserted config m entry) := by
  induction allocated generalizing m with
  | nil => exact ⟨fun _ _ => rfl, forall_mem_nil _⟩
  | cons first rest inductionHypothesis =>
    obtain ⟨fresh, distinctRest⟩ := nodup_cons.mp distinct
    obtain ⟨others, listed⟩ :=
      @inductionHypothesis (m.upsertPoolLocked config first) distinctRest
    refine ⟨fun name absent => ?_, fun entry member => ?_⟩
    · obtain ⟨differs, absentRest⟩ := ne_and_not_mem_of_not_mem_cons absent
      refine (others name absentRest).trans ?_
      rw [lookup_upsertPoolLocked, if_neg differs]
    · rcases mem_cons.mp member with rfl | later
      · refine (others entry.pool fresh).trans ?_
        rw [lookup_upsertPoolLocked, if_pos rfl]
      · refine (listed entry later).trans (congrArg some ?_)
        have differs : entry.pool ≠ first.pool := by
          intro same
          exact fresh (same ▸ mem_map_of_mem later)
        unfold upserted
        rw [preparedPair_congr]
        rw [lookup_upsertPoolLocked, if_neg differs]

/-- The settings of the first and last address that an entry of a version has for a pool differ
from those the pool was made with. -/
def SettingsDiffer (pair : PoolPair) : Prop :=
  pair.allowFirstIP ≠ entry.allowFirstIP ∨ pair.allowLastIP ≠ entry.allowLastIP
  deriving Decidable

variable {entry : IPAMPoolAllocation} {family : Family}

/-- A pool that is updated is the one before, or a new one: if there was none, or in place of one
without addresses in use whose settings differ. -/
theorem preparedPair_ofFamily {base : CidrPool}
    (found : (m.preparedPair config entry.pool entry.allowFirstIP entry.allowLastIP).ofFamily
      family = some base) :
    m.poolByFamilyLocked entry.pool family = some base ∨
      base = .newCIDRPool entry.allowFirstIP entry.allowLastIP ∧
        ∀ pair, m.pools.lookup entry.pool = some pair → SettingsDiffer entry pair ∧
            ∀ pool, pair.ofFamily family = some pool → pool.inUseIPCount = 0 := by
  unfold preparedPair at found
  unfold poolByFamilyLocked
  cases lookup : m.pools.lookup entry.pool with
  | none =>
    rw [lookup] at found
    refine .inr ⟨?_, nofun⟩
    cases family with
    | ipv4 | ipv6 => exact Option.some.inj (Option.ite_none_right_eq_some.mp found).2.symm
  | some pair =>
    rw [lookup] at found
    dsimp only at found
    split at found
    case isFalse _ => exact .inl found
    case isTrue differ =>
      have mapped : (pair.ofFamily family).map (fun pool =>
          if pool.inUseIPCount = 0 then
            CidrPool.newCIDRPool entry.allowFirstIP entry.allowLastIP else pool) = some base := by
        cases family <;> exact found
      obtain ⟨pool, ofFamily, changed⟩ := Option.map_eq_some_iff.mp mapped
      split at changed
      case isTrue unused =>
        refine .inr ⟨changed.symm, fun other same => ?_⟩
        cases same
        refine ⟨differ, fun again sameFamily => ?_⟩
        obtain rfl := Option.some.inj (ofFamily.symm.trans sameFamily)
        exact unused
      case isFalse _ =>
        refine .inl ?_
        rw [← changed]
        exact ofFamily

variable {pool : CidrPool}

theorem exists_prepared (config : Config ν)
    (found : m.poolByFamilyLocked entry.pool family = some pool) :
    ∃ base, (m.preparedPair config entry.pool entry.allowFirstIP entry.allowLastIP).ofFamily
      family = some base := by
  rw [← Option.isSome_iff_exists]
  obtain ⟨pair, lookup, ofFamily⟩ := Option.bind_eq_some_iff.mp found
  unfold preparedPair
  rw [lookup]
  dsimp only
  split
  · cases family <;> exact Option.isSome_map.trans (Option.isSome_of_eq_some ofFamily)
  · exact Option.isSome_of_eq_some ofFamily

def blocksOf (allocated : List IPAMPoolAllocation) : List MaskedCIDR :=
  allocated.flatMap fun entry => (entry.cidrs.filterMap id).map CIDR.toMasked

def listings (allocated : List IPAMPoolAllocation) : List Place :=
  allocated.flatMap fun entry => ((entry.cidrs.filterMap id).map CIDR.toMasked).map
    fun block => ⟨entry.pool, block.val.addr.family, block⟩

theorem mem_listings :
    place ∈ listings allocated ↔ ∃ entry ∈ allocated, entry.pool = place.pool ∧
        place.block ∈ prefixesOf place.family entry.cidrs := by
  unfold listings prefixesOf
  simp only [mem_flatMap, mem_filter, decide_eq_true_eq]
  refine exists_congr fun entry => and_congr_right fun _ => ?_
  rw [mem_map]
  constructor
  · rintro ⟨block, member, rfl⟩
    exact ⟨rfl, member, rfl⟩
  · rintro ⟨sameName, member, sameFamily⟩
    refine ⟨place.block, member, ?_⟩
    rw [sameName, sameFamily]

theorem mem_blocksOf :
    block ∈ blocksOf allocated ↔ ∃ place ∈ listings allocated, place.block = block := by
  unfold blocksOf listings
  simp only [mem_flatMap]
  constructor
  · rintro ⟨entry, member, listed⟩
    exact ⟨_, ⟨entry, member, mem_map_of_mem listed⟩, rfl⟩
  · rintro ⟨place, ⟨entry, member, listed⟩, rfl⟩
    obtain ⟨block, inEntry, rfl⟩ := mem_map.mp listed
    exact ⟨entry, member, inEntry⟩

/-- No pool is replaced by a new one while one of its released CIDRs is listed. -/
def SettingsKept (m : Manager ν) (allocated : List IPAMPoolAllocation) : Prop :=
  ∀ entry ∈ allocated, ∀ pair ∈ (m.pools.lookup entry.pool).toList, SettingsDiffer entry pair →
    ∀ family ∈ [ipv4, ipv6], ∀ pool ∈ (pair.ofFamily family).toList,
      pool.inUseIPCount = 0 → ∀ block ∈ prefixesOf family entry.cidrs, block ∉ pool.released
  deriving Decidable

/-- A CIDR comes into use only if it is listed and was not released, stays released as long as it is
listed, and is known afterwards only if it was known or is listed. -/
structure Observes (allocated : List IPAMPoolAllocation) (before after : Manager ν) : Prop where
  fresh : ∀ place, after.InUse place →
    before.InUse place ∨ place ∈ listings allocated ∧ ¬before.Released place
  released : ∀ place ∈ listings allocated, before.Released place → after.Released place
  origin : ∀ place, after.Knows place → before.Knows place ∨ place ∈ listings allocated
  knows : ∀ place ∈ listings allocated, before.Knows place → after.Knows place

variable {later : CidrPool} {node : ν}
  (distinct : ((config.fromResource node).allocated.map IPAMPoolAllocation.pool).Nodup)

include distinct in
/-- The pool of a listed name after a version is the prepared one, updated. -/
theorem poolByFamilyLocked_of_listed (listed : entry ∈ (config.fromResource node).allocated) :
    (m.ciliumNodeUpdated config node).poolByFamilyLocked entry.pool family =
      ((m.preparedPair config entry.pool entry.allowFirstIP entry.allowLastIP).ofFamily
        family).map (·.updatePool (prefixesOf family entry.cidrs)) := by
  have lookup := (@lookup_foldl_upsertPoolLocked ν config m _ distinct).2 entry listed
  exact (congrArg (Option.bind · _) lookup).trans (ofFamily_mapPools _ _ _)

include distinct in
/-- A pool after a version is the one before if its name is not listed, and an updated one if it
is. -/
theorem poolByFamilyLocked_ciliumNodeUpdated
    (found : (m.ciliumNodeUpdated config node).poolByFamilyLocked name family = some later) :
    m.poolByFamilyLocked name family = some later ∨
      ∃ entry ∈ (config.fromResource node).allocated, entry.pool = name ∧
        ∃ base, (m.preparedPair config entry.pool entry.allowFirstIP entry.allowLastIP).ofFamily
          family = some base ∧ later = base.updatePool (prefixesOf family entry.cidrs) := by
  by_cases member : name ∈ (config.fromResource node).allocated.map pool
  · obtain ⟨entry, inList, rfl⟩ := mem_map.mp member
    rw [poolByFamilyLocked_of_listed distinct inList] at found
    obtain ⟨base, prepared, rfl⟩ := Option.map_eq_some_iff.mp found
    exact .inr ⟨entry, inList, rfl, base, prepared, rfl⟩
  · have lookup := (@lookup_foldl_upsertPoolLocked ν config m _ distinct).1 name member
    exact .inl ((congrArg (Option.bind · _) lookup).symm.trans found)

/-- If a listed CIDR was released, its pool is not replaced by a new one. -/
theorem SettingsKept.not_replaced (kept : m.SettingsKept allocated) (member : entry ∈ allocated)
    (listed : block ∈ prefixesOf family entry.cidrs)
    (found : m.poolByFamilyLocked entry.pool family = some pool) (released : block ∈ pool.released)
    (replaced : ∀ pair, m.pools.lookup entry.pool = some pair → SettingsDiffer entry pair ∧
        ∀ pool, pair.ofFamily family = some pool → pool.inUseIPCount = 0) : False := by
  obtain ⟨pair, lookup, ofFamily⟩ := Option.bind_eq_some_iff.mp found
  obtain ⟨differ, unused⟩ := replaced pair lookup
  refine kept entry member pair (Option.mem_toList.mpr lookup) differ family ?_ pool
    (Option.mem_toList.mpr ofFamily) (unused pool ofFamily) block listed released
  cases family <;> simp

include distinct in
theorem ciliumNodeUpdated_observes (kept : m.SettingsKept (config.fromResource node).allocated) :
    Observes (config.fromResource node).allocated m (m.ciliumNodeUpdated config node) := by
  have fresh (place : Place) (inUse : (m.ciliumNodeUpdated config node).InUse place) :
      m.InUse place ∨
        place ∈ listings (config.fromResource node).allocated ∧ ¬m.Released place := by
    obtain ⟨later, found, member⟩ := inUse
    rcases poolByFamilyLocked_ciliumNodeUpdated distinct found with
      same | ⟨entry, inList, sameName, base, prepared, rfl⟩
    · exact .inl ⟨later, same, member⟩
    · have updates := base.updatePool_updates (prefixesOf place.family entry.cidrs)
      rcases preparedPair_ofFamily prepared with before | ⟨rfl, replaced⟩
      · rw [sameName] at before
        refine (updates.fresh _ member).imp (fun inUse => ⟨base, before, inUse⟩) ?_
        rintro ⟨listed, fresh⟩
        refine ⟨mem_listings.mpr ⟨entry, inList, sameName, listed⟩, ?_⟩
        rintro ⟨pool, again, released⟩
        obtain rfl := Option.some.inj (again.symm.trans before)
        exact fresh released
      · rcases updates.fresh _ member with absurdity | ⟨listed, _⟩
        · exact nomatch absurdity
        · refine .inr ⟨mem_listings.mpr ⟨entry, inList, sameName, listed⟩, ?_⟩
          rintro ⟨pool, before, released⟩
          rw [← sameName] at before
          exact kept.not_replaced inList listed before released replaced
  refine ⟨fresh, ?released, ?origin, ?knows⟩
  case released =>
    rintro place listed ⟨pool, found, released⟩
    obtain ⟨entry, inList, sameName, inEntry⟩ := mem_listings.mp listed
    rw [← sameName] at found
    obtain ⟨base, prepared⟩ := exists_prepared config found
    have after := @poolByFamilyLocked_of_listed ν config m entry place.family node distinct inList
    rw [prepared, sameName] at after
    refine ⟨_, after, ?_⟩
    rcases preparedPair_ofFamily prepared with before | ⟨_, replaced⟩
    · obtain rfl := Option.some.inj (found.symm.trans before)
      exact (pool.updatePool_updates _).released _ released inEntry
    · exact (kept.not_replaced inList inEntry found released replaced).elim
  case origin =>
    rintro place ⟨later, found, inUse | released⟩
    · exact (fresh place ⟨later, found, inUse⟩).imp InUse.knows And.left
    · rcases poolByFamilyLocked_ciliumNodeUpdated distinct found with
        same | ⟨entry, inList, sameName, base, _, rfl⟩
      · exact .inl ⟨later, same, .inr released⟩
      · have listed := (base.updatePool_updates _).origin _ released
        exact .inr (mem_listings.mpr ⟨entry, inList, sameName, listed⟩)
  case knows =>
    rintro place listed ⟨pool, found, _⟩
    obtain ⟨entry, inList, sameName, inEntry⟩ := mem_listings.mp listed
    rw [← sameName] at found
    obtain ⟨base, prepared⟩ := exists_prepared config found
    have after := @poolByFamilyLocked_of_listed ν config m entry place.family node distinct inList
    rw [prepared, sameName] at after
    exact ⟨_, after, (base.updatePool_updates _).knows _ inEntry⟩

/-! ### What a write makes of the places -/

/-- A pool without CIDRs is deleted. -/
def trimmedOrDeleted (m : Manager ν) (needed : GoMap Pool IPAMPoolDemand) (name : Pool)
    (pair : PoolPair) : Option PoolPair :=
  let pair := m.trimmed ((needed.lookup name).getD .zero) pair
  if pair.inUseCIDRs = [] then none else some pair

/-- The loop over the pools changes each pool on its own, and lists those that are left. -/
theorem foldl_trimRound {needed : GoMap Pool IPAMPoolDemand}
    {entries : List (Sigma fun _ : Pool => PoolPair)} (distinct : entries.NodupKeys)
    (state : GoMap Pool PoolPair × List IPAMPoolAllocation) :
    let result := entries.foldl (m.trimRound needed) state
    (∀ name ∉ entries.keys, result.1.lookup name = state.1.lookup name) ∧
    (∀ entry ∈ entries, result.1.lookup entry.1 = m.trimmedOrDeleted needed entry.1 entry.2) ∧
    (∀ listed ∈ state.2, listed ∈ result.2) ∧
    ∀ entry ∈ entries, ∀ pair, m.trimmedOrDeleted needed entry.1 entry.2 = some pair →
      allocation entry.1 pair ∈ result.2 := by
  induction entries generalizing state with
  | nil =>
    exact ⟨fun _ _ => rfl, forall_mem_nil _, fun _ => id, forall_mem_nil _⟩
  | cons first rest inductionHypothesis =>
    obtain ⟨fresh, distinctRest⟩ := nodupKeys_cons.mp distinct
    obtain ⟨others, visited, still, listed⟩ :=
      inductionHypothesis distinctRest (m.trimRound needed state first)
    have lookup (name : Pool) : (m.trimRound needed state first).1.lookup name =
        if name = first.1 then m.trimmedOrDeleted needed first.1 first.2
        else state.1.lookup name := by
      unfold trimRound trimmedOrDeleted
      dsimp only
      split
      · exact GoMap.lookup_erase_if _ _ _
      · exact GoMap.lookup_insert_if _ _ _ _
    refine ⟨fun name absent => ?_, fun entry member => ?_, fun entry member => still entry ?_,
      fun entry member pair kept => ?_⟩
    · rw [keys_cons, mem_cons, not_or] at absent
      exact (others name absent.2).trans ((lookup name).trans (if_neg absent.1))
    · rcases mem_cons.mp member with rfl | later
      · exact (others entry.1 fresh).trans ((lookup entry.1).trans (if_pos rfl))
      · exact visited entry later
    · unfold trimRound
      dsimp only
      split
      · exact member
      · exact mem_append_left _ member
    · rcases mem_cons.mp member with rfl | later
      · refine still _ ?_
        unfold trimmedOrDeleted at kept
        unfold trimRound
        dsimp only at kept ⊢
        split at kept
        · cases kept
        case isFalse some =>
          cases kept
          rw [if_neg some]
          exact mem_append_right _ (.head _)
      · exact listed entry later pair kept

section

variable (config : Config ν) (m : Manager ν)

def demand (now : Nat) (name : Pool) : IPAMPoolDemand :=
  (((m.withoutExpired now).computeNeededIPsPerPoolLocked config).lookup name).getD .zero

def Short (now : Nat) (name : Pool) (family : Family) (pool : CidrPool) : Prop :=
  m.finishedRestore family = true ∧
    (pool.totalFree : Int) < freeNeeded (demand config m now name) family pool
  deriving Decidable

/-- One of the pools has an allocator, and is not restored yet, has an address in use or needs free
addresses. -/
def KeepsCIDR (now : Nat) (name : Pool) (pair : PoolPair) : Prop :=
  ∃ family ∈ [ipv4, ipv6], ∃ pool ∈ (pair.ofFamily family).toList, pool.ipAllocators ≠ [] ∧
      (m.finishedRestore family = false ∨ (∃ range ∈ pool.ipAllocators, range.used ≠ 0) ∨
        0 < freeNeeded (demand config m now name) family pool)
  deriving Decidable

end

/-- A write learns no CIDR, forgets one only together with a pool that keeps none, and takes one
into use only if it was released and addresses are short. -/
structure Writes (config : Config ν) (now : Nat) (before after : Manager ν) : Prop where
  origin : ∀ place, after.Knows place → before.Knows place
  kept : ∀ place pair, before.pools.lookup place.pool = some pair →
    KeepsCIDR config before now place.pool pair → before.Knows place → after.Knows place
  fresh : ∀ place, after.InUse place → before.InUse place ∨ before.Released place ∧
    ∃ pool, before.poolByFamilyLocked place.pool place.family = some pool ∧
      Short config before now place.pool place.family pool

theorem trimmed_ofFamily (needed : IPAMPoolDemand) (pair : PoolPair) (family : Family) :
    (m.trimmed needed pair).ofFamily family =
      (pair.ofFamily family).map (m.trimPool needed family) :=
  ofFamily_mapPools _ _ _

theorem trimPool_knows (needed : IPAMPoolDemand) (family : Family) (pool : CidrPool)
    (block : MaskedCIDR) : (m.trimPool needed family pool).Knows block ↔ pool.Knows block := by
  unfold trimPool
  split
  · exact (pool.releaseExcessCIDRsMultiPool_trims _).knows block
  · exact .rfl

variable {now : Nat}

theorem KeepsCIDR.inUseCIDRs_ne_nil (keeps : KeepsCIDR config m now name pair) :
    (m.trimmed (demand config m now name) pair).inUseCIDRs ≠ [] := by
  obtain ⟨family, _, pool, found, some, reason⟩ := keeps
  have ofFamily := m.trimmed_ofFamily (demand config m now name) pair family
  rw [Option.mem_toList.mp found, Option.map_some] at ofFamily
  have left : (m.trimPool (demand config m now name) family pool).ipAllocators ≠ [] := by
    unfold trimPool
    split
    case isFalse _ => exact some
    case isTrue restored =>
      refine CidrPool.releaseExcessCIDRsMultiPool_ne_nil some (reason.resolve_left ?_)
      rw [restored]
      exact Bool.noConfusion
  obtain ⟨range, member⟩ := exists_mem_of_ne_nil _ left
  exact ne_nil_of_mem ((PoolPair.mem_inUseCIDRs _ range.block).mpr
    ⟨family, _, ofFamily, mem_map_of_mem member⟩)

variable {curNode : ν}

theorem lookup_updateLocalNode (known : m.node = some curNode) (now : Nat) (name : Pool) :
    (m.updateLocalNode config now).pools.lookup name = (m.pools.lookup name).bind fun pair =>
        let pair := m.trimmed (demand config m now name) pair
        if pair.inUseCIDRs = [] then none else some pair := by
  obtain ⟨others, visited, _⟩ := @foldl_trimRound ν (m.withoutExpired now)
    ((m.withoutExpired now).computeNeededIPsPerPoolLocked config) m.pools.entries
    m.pools.nodupKeys (m.pools, [])
  have pools : (m.updateLocalNode config now).pools = (m.pools.entries.foldl
      ((m.withoutExpired now).trimRound
        ((m.withoutExpired now).computeNeededIPsPerPoolLocked config)) (m.pools, [])).1 := by
    unfold updateLocalNode
    rw [known]
    rfl
  rw [pools]
  cases lookup : m.pools.lookup name with
  | none => exact (others name (AList.lookup_eq_none.mp lookup)).trans lookup
  | some pair => exact visited ⟨name, pair⟩ (mem_entries_iff.mpr lookup)

/-- The pool of a family after a write comes from the one before. -/
theorem poolByFamilyLocked_updateLocalNode (known : m.node = some curNode)
    (found : (m.updateLocalNode config now).poolByFamilyLocked name family = some later) :
    ∃ pool, m.poolByFamilyLocked name family = some pool ∧
      later = m.trimPool (demand config m now name) family pool := by
  obtain ⟨trimmedPair, lookup, ofFamily⟩ := Option.bind_eq_some_iff.mp found
  rw [lookup_updateLocalNode known] at lookup
  obtain ⟨pair, before, left⟩ := Option.bind_eq_some_iff.mp lookup
  dsimp only at left
  split at left
  · cases left
  · cases left
    rw [trimmed_ofFamily] at ofFamily
    obtain ⟨pool, ofPair, same⟩ := Option.map_eq_some_iff.mp ofFamily
    exact ⟨pool, Option.bind_eq_some_iff.mpr ⟨pair, before, ofPair⟩, same.symm⟩

/-- The pools after a write know what they knew, and a CIDR that comes into use was released while
addresses were short. -/
theorem updateLocalNode_writes (config : Config ν) (m : Manager ν) (now : Nat) :
    Writes config now m (m.updateLocalNode config now) := by
  cases known : m.node with
  | none =>
    have same : m.updateLocalNode config now = m := by
      unfold updateLocalNode
      rw [known]
    rw [same]
    exact ⟨fun _ => id, fun _ _ _ _ => id, fun _ => .inl⟩
  | some curNode =>
    refine ⟨?origin, ?kept, ?fresh⟩
    case origin =>
      rintro place ⟨later, found, knows⟩
      obtain ⟨pool, before, rfl⟩ := poolByFamilyLocked_updateLocalNode known found
      exact ⟨pool, before, (trimPool_knows _ _ _ _).mp knows⟩
    case kept =>
      rintro place pair lookup keeps ⟨pool, found, knows⟩
      obtain ⟨again, sameLookup, ofFamily⟩ := Option.bind_eq_some_iff.mp found
      obtain rfl := Option.some.inj (lookup.symm.trans sameLookup)
      have left := @lookup_updateLocalNode ν config m curNode known now place.pool
      rw [lookup, Option.bind_some] at left
      rw [if_neg keeps.inUseCIDRs_ne_nil] at left
      refine ⟨m.trimPool (demand config m now place.pool) place.family pool,
        Option.bind_eq_some_iff.mpr ⟨_, left, ?_⟩, (trimPool_knows _ _ _ _).mpr knows⟩
      rw [trimmed_ofFamily, ofFamily]
      rfl
    case fresh =>
      rintro place ⟨later, found, inUse⟩
      obtain ⟨pool, before, rfl⟩ := poolByFamilyLocked_updateLocalNode known found
      unfold trimPool at inUse
      split at inUse
      case isFalse _ => exact .inl ⟨pool, before, inUse⟩
      case isTrue restored =>
        refine ((pool.releaseExcessCIDRsMultiPool_trims _).fresh _ inUse).imp
          (fun earlier => ⟨pool, before, earlier⟩) ?_
        rintro ⟨released, short⟩
        exact ⟨⟨pool, before, released⟩, pool, before, restored, short⟩

variable {written : List IPAMPoolAllocation} {after : Manager ν}

/-- Once the node is synced, the list that is written has every CIDR that is in use. -/
theorem mem_blocksOf_writing (synced : m.nodeSynced = true)
    (writing : (m.updateLocalNode config now).writing = some written)
    (known : m.node = some curNode) (inUse : (m.updateLocalNode config now).InUse place) :
    place.block ∈ blocksOf written := by
  obtain ⟨pool, found, member⟩ := inUse
  obtain ⟨trimmedPair, lookup, ofFamily⟩ := Option.bind_eq_some_iff.mp found
  rw [lookup_updateLocalNode known] at lookup
  obtain ⟨pair, before, left⟩ := Option.bind_eq_some_iff.mp lookup
  obtain ⟨_, _, _, listed⟩ := @foldl_trimRound ν (m.withoutExpired now)
    ((m.withoutExpired now).computeNeededIPsPerPoolLocked config) m.pools.entries
    m.pools.nodupKeys (m.pools, [])
  have inList := listed ⟨place.pool, pair⟩ (mem_entries_iff.mpr before) trimmedPair left
  unfold updateLocalNode at writing
  rw [known] at writing
  obtain ⟨_, _, rfl⟩ := Option.map_eq_some_iff.mp writing
  rw [if_pos (show (m.withoutExpired now).nodeSynced = true from synced)]
  refine mem_flatMap.mpr ⟨_, (mem_insertionSort _).mpr inList, ?_⟩
  have inPair := (trimmedPair.mem_inUseCIDRs place.block).mpr ⟨_, pool, ofFamily, member⟩
  refine mem_map.mpr ⟨place.block.val, ?_, Subtype.ext place.block.property⟩
  exact mem_filterMap.mpr ⟨some place.block.val, mem_map_of_mem inPair, rfl⟩

/-- Before that, the list that is written is the one of the node. -/
theorem writing_of_not_synced (notSynced : m.nodeSynced = false)
    (writing : (m.updateLocalNode config now).writing = some written)
    (known : m.node = some curNode) : written = (config.fromResource curNode).allocated := by
  unfold updateLocalNode at writing
  rw [known] at writing
  obtain ⟨_, _, rfl⟩ := Option.map_eq_some_iff.mp writing
  refine if_neg ?_
  show ¬m.nodeSynced = true
  rw [notSynced]
  exact Bool.noConfusion

/-! ### Addresses leave the places as they are -/

structure SamePlaces (before after : Manager ν) : Prop where
  inUse : ∀ place, after.InUse place ↔ before.InUse place
  released : ∀ place, after.Released place ↔ before.Released place

/-- The places stay the same, and a write that is under way goes on or ends. -/
structure Unmoved (before after : Manager ν) : Prop extends SamePlaces before after where
  writing : after.writing = before.writing ∨ after.writing = none

theorem SamePlaces.of_pools (same : ∀ name family, ∃ change : CidrPool → CidrPool,
      after.poolByFamilyLocked name family = (m.poolByFamilyLocked name family).map change ∧
        ∀ pool, m.poolByFamilyLocked name family = some pool →
          CidrPool.SameCIDRs pool (change pool)) : SamePlaces m after := by
  refine ⟨fun place => ?_, fun place => ?_⟩
  all_goals
    obtain ⟨change, changed, sameCIDRs⟩ := same place.pool place.family
    first | unfold InUse | unfold Released
    rw [changed]
    cases found : m.poolByFamilyLocked place.pool place.family with
    | none => simp
    | some pool => simp [(sameCIDRs pool found).inUseCIDRs, (sameCIDRs pool found).released]

theorem Unmoved.of_pools_eq (same : after.pools = m.pools)
    (writing : after.writing = m.writing ∨ after.writing = none) : Unmoved m after := by
  refine ⟨SamePlaces.of_pools fun name family => ⟨id, ?_, fun pool _ => ⟨rfl, rfl⟩⟩, writing⟩
  unfold poolByFamilyLocked
  rw [same, Option.map_id]
  rfl

section

variable (found : m.poolByFamilyLocked name family = some pool)
  (sameCIDRs : CidrPool.SameCIDRs pool later)
include found sameCIDRs

theorem unmoved_withPool : Unmoved m (m.withPool name family later) := by
  obtain ⟨pair, lookup, ofFamily⟩ := Option.bind_eq_some_iff.mp found
  refine ⟨SamePlaces.of_pools fun otherName otherFamily => ?_, .inl ?_⟩
  case refine_2 => rw [withPool, lookup]
  refine ⟨fun before => if otherName = name ∧ otherFamily = family then later else before, ?_, ?_⟩
  · unfold withPool poolByFamilyLocked
    rw [lookup]
    rw [GoMap.lookup_insert_if]
    by_cases sameName : otherName = name
    · subst sameName
      rw [if_pos rfl, lookup, Option.bind_some, Option.bind_some, ofFamily_mapPools]
      simp only [true_and]
    · rw [if_neg sameName]
      simp only [sameName, false_and, if_false, Option.map_id']
  · intro before here
    split
    case isTrue same =>
      obtain ⟨rfl, rfl⟩ := same
      obtain rfl := Option.some.inj (found.symm.trans here)
      exact sameCIDRs
    · exact ⟨rfl, rfl⟩

theorem unmoved_withAllocated {owner : String} :
    Unmoved m (m.withAllocated name owner family later) := by
  obtain ⟨⟨inUse, released⟩, writing⟩ := unmoved_withPool found sameCIDRs
  exact ⟨⟨inUse, released⟩, writing⟩

end

section

variable (m : Manager ν)

def FromInUse (result : Except String PoolAllocationResult) : Prop :=
  ∀ allocation, result = .ok allocation →
    ∃ place : Place, m.InUse place ∧ place.block.val.contains allocation.ip = true

variable (now : Nat) (owner : String) (name : Pool) (family : Family)

theorem withPending_spec (error : String) :
    Unmoved m (m.withPending now name owner family) ∧ m.FromInUse (.error error) :=
  ⟨.of_pools_eq rfl (.inl rfl), nofun⟩

theorem allocateNext_spec (skipMasquerade : Except String Bool) (start : Nat) :
    Unmoved m (m.allocateNext now owner name family skipMasquerade start).1 ∧
      m.FromInUse (m.allocateNext now owner name family skipMasquerade start).2 := by
  unfold allocateNext
  cases found : m.poolByFamilyLocked name family with
  | none => exact withPending_spec ..
  | some pool =>
    cases skipMasquerade with
    | error error => exact withPending_spec ..
    | ok skipMasq =>
      dsimp only
      cases allocated : pool.allocateNext start with
      | error error => exact withPending_spec ..
      | ok reserved =>
        obtain ⟨⟨sameCIDRs, _⟩, block, inUse, inside, -⟩ := CidrPool.allocateNext_spec allocated
        refine ⟨unmoved_withAllocated found sameCIDRs, fun allocation same => ?_⟩
        cases same
        exact ⟨⟨name, family, block⟩, ⟨pool, found, inUse⟩, inside⟩

theorem allocateIP_spec (addr : Addr) :
    Unmoved m (m.allocateIP now addr owner name family).1 ∧
      m.FromInUse (m.allocateIP now addr owner name family).2 := by
  unfold allocateIP
  cases found : m.poolByFamilyLocked name family with
  | none => exact withPending_spec ..
  | some pool =>
    dsimp only
    cases allocated : pool.allocate addr with
    | error error => exact withPending_spec ..
    | ok later =>
      obtain ⟨⟨sameCIDRs, _⟩, block, inUse, inside⟩ := CidrPool.allocate_spec allocated
      refine ⟨unmoved_withAllocated found sameCIDRs, fun allocation same => ?_⟩
      cases same
      exact ⟨⟨name, family, block⟩, ⟨pool, found, inUse⟩, inside⟩

theorem releaseIP_unmoved (addr : Addr) : Unmoved m (m.releaseIP addr name family).1 := by
  unfold releaseIP
  cases found : m.poolByFamilyLocked name family with
  | none => exact .of_pools_eq rfl (.inl rfl)
  | some pool => exact unmoved_withPool found (pool.release_sameCIDRs addr)

end

end Manager

end Constellation.Ipam.MultiPool
