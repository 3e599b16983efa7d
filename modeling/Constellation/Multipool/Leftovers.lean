/-
This file is about what a failed update of a pool leaves behind. An update edits the slices of
sets in place and makes orphans, first for IPv4 and then for IPv6, before it sets the reserved
ranges. So a failure leaves no trace if the pool is new, or if all sets that have been looked at
before it stay as they are. Else the pool may be left with nil entries, and the next request
crashes.
-/

import Constellation.Multipool.Disjoint

namespace Constellation.Multipool

open Ipam (Addr CIDR Family)
open Lib Option List
open Publishing (cidr24 plainRuntime)

namespace PoolAllocator

variable {allocator later : PoolAllocator} {runtime : Runtime} {name : String}
  {configs : Dual (List PoolCIDRConfig)} {maskSize : Dual Nat} {allowFirstIP allowLastIP : Bool}
  {errors : List PoolError} {sets : Dual (List CidrSet)}

/-! ### Updates that fail -/

/-- The errors of the last step of an update, which come after the pool has been replaced. -/
def IsReconciling : PoolError → Prop
  | .orphanInUse _ _ _ => True
  | _ => False

theorem reconcileNode_errors {pool node : String} {state result : Collecting}
    (before : ∀ error ∈ state.2, IsReconciling error)
    (visited : reconcileNode runtime pool sets state node = some result) :
    ∀ error ∈ result.2, IsReconciling error := by
  obtain ⟨last, folded, mapped⟩ := bind_eq_some_iff.mp visited
  cases mapped
  refine foldlM_invariant (fun state => ∀ error ∈ state.2, IsReconciling error) ?_ folded before
  intro current orphanPool _ next kept round
  refine foldlM_invariant (fun state => ∀ error ∈ state.2, IsReconciling error) ?_ round kept
  rintro state ⟨family, cidr⟩ _ next kept round
  dsimp only at round
  split at round
  · obtain ⟨⟨changed, reason⟩, called, rfl⟩ := map_eq_some_iff.mp round
    intro error member
    rcases mem_append.mp member with earlier | isReason
    · exact kept error earlier
    · obtain ⟨⟨taken, refused⟩, _, mapped⟩ := map_eq_some_iff.mp called
      rw [mem_toList] at isReason
      cases refused with
      | none => cases mapped; cases isReason
      | some refused => cases mapped; cases isReason; trivial
  · cases round
    exact kept

theorem installPool_errors {pool : CidrPool}
    (installed : installPool runtime allocator name pool sets = some (later, errors)) :
    ∀ error ∈ errors, IsReconciling error :=
  foldlM_invariant (fun state => ∀ error ∈ state.2, IsReconciling error)
    (fun _ _ _ _ before visited => reconcileNode_errors before visited) installed
    fun _ member => nomatch member

section Early

variable {family : Family} {slice : Slice} {cidrs : List CIDR} {size : Nat} {update : Update}
  {changed : List CidrSet} {error : PoolError}

/-- A slice has only sets whose CIDRs are listed, up to nil entries at its end. -/
def Whole (slice : Slice) (cidrs : List CIDR) : Prop :=
  ∃ (kept : List CidrSet) (spare : Nat), slice.allocators = kept.map some ++ replicate spare none ∧
    ∀ set ∈ kept, isKept cidrs set = true

/-- The sets of the listed CIDRs that have none yet cannot be made. -/
def Refused (family : Family) (slice : Slice) (cidrs : List CIDR) (size : Nat) : Prop :=
  ∃ missing ∈ missingCIDRs slice.allocators cidrs, (newCIDRSets family size missing []).isOk = false

/-- The IPv4 sets cannot be made; or all IPv4 sets stay and the IPv6 sets cannot be made; or all
sets stay, and setting the reserved ranges changes none of them up to the first error. -/
def WritesNothing (slices : Dual Slice) (configs : Dual (List PoolCIDRConfig))
    (maskSize : Dual Nat) : Prop :=
  Refused .ipv4 slices.v4 (configs.v4.map (·.cidr)) maskSize.v4 ∨
    Whole slices.v4 (configs.v4.map (·.cidr)) ∧
      (Refused .ipv6 slices.v6 (configs.v6.map (·.cidr)) maskSize.v6 ∨
        Whole slices.v6 (configs.v6.map (·.cidr)) ∧
          let sets := slices.v4.allocators.filterMap id
          (setReservedRanges configs.v4 sets).1 = sets ∧
            ∀ missing ∈ missingCIDRs slices.v4.allocators (configs.v4.map (·.cidr)),
              ∀ added, newCIDRSets .ipv4 maskSize.v4 missing [] = .ok added →
                (setReservedRanges configs.v4 (sets ++ added)).2 = none →
                  (setReservedRanges configs.v6 (slices.v6.allocators.filterMap id)).1 =
                    slices.v6.allocators.filterMap id)

/-- An update is of a pool that is new, or fails before it writes to the slices of its pool. -/
def FailsEarly (allocator : PoolAllocator) (name : String) (configs : Dual (List PoolCIDRConfig))
    (maskSize : Dual Nat) (allowFirstIP allowLastIP : Bool) : Prop :=
  ∀ pool ∈ allocator.pools.lookup name,
    (refusal name pool maskSize allowFirstIP allowLastIP).isSome = true ∨
      WritesNothing pool.allocators configs maskSize

theorem refused_iff : Refused family slice cidrs size ↔
    ∃ error, updateCIDRSets runtime allocator family slice cidrs size = some (.error error) := by
  constructor
  · rintro ⟨missing, missingFound, notMade⟩
    cases made : newCIDRSets family size missing [] with
    | ok added =>
      rw [made] at notMade
      cases notMade
    | error reason =>
      refine ⟨reason, ?_⟩
      rw [updateCIDRSets, missingFound, bind_eq_bind, bind_some, made]
      rfl
  · rintro ⟨error, failed⟩
    obtain ⟨missing, missingFound, failed⟩ := bind_eq_some_iff.mp failed
    split at failed
    case h_1 made => exact ⟨missing, missingFound, by rw [made]; rfl⟩
    · obtain ⟨_, _, failed⟩ := bind_eq_some_iff.mp failed
      cases failed

theorem filterMap_entries (kept : List CidrSet) (spare : Nat) :
    (kept.map some ++ replicate spare none).filterMap id = kept := by
  simp [filterMap_append, filterMap_map]

/-- An update of sets that all stay removes none, and adds none before a nil entry. -/
theorem Whole.updateCIDRSets (whole : Whole slice cidrs)
    (updated : updateCIDRSets runtime allocator family slice cidrs size = some (.ok update)) :
    update.allocator = allocator ∧ update.errors = [] ∧
      update.kept = slice.allocators.filterMap id ∧
      (∃ missing ∈ missingCIDRs slice.allocators cidrs,
        newCIDRSets family size missing [] = .ok update.added) ∧
      ∃ spare, slice.allocators = update.kept.map some ++ replicate spare none ∧
        (spare = 0 ∨ update.added = []) := by
  obtain ⟨kept, spare, entries, stays⟩ := whole
  have sets : slice.allocators.filterMap id = kept := entries ▸ filterMap_entries kept spare
  obtain ⟨missing, missingFound, updated⟩ := bind_eq_some_iff.mp updated
  split at updated
  · cases updated
  case h_2 added made =>
    dsimp only at updated
    rw [sets, filter_eq_nil_iff.mpr fun set member => by simp [stays set member],
      filter_eq_self.mpr stays] at updated
    cases updated
    refine ⟨rfl, rfl, sets.symm, ⟨missing, missingFound, made⟩, spare, entries, ?_⟩
    refine (Nat.eq_zero_or_pos spare).imp_right fun positive => ?_
    have entry : none ∈ slice.allocators := by
      rw [entries]
      exact mem_append_right _ (mem_replicate.mpr ⟨positive.ne', rfl⟩)
    have none : missing = [] := eq_nil_iff_forall_not_mem.mpr fun cidr member =>
      (missingCIDRs_spec missingFound cidr member).2.1 entry
    rw [none] at made
    exact (Except.ok.inj made).symm

/-- A slice whose sets all stay shows the same after an update iff its sets have not changed. -/
theorem overwritten_eq_iff {kept added : List CidrSet} {spare : Nat}
    (entries : slice.allocators = kept.map some ++ replicate spare none)
    (fits : spare = 0 ∨ added = []) (length : changed.length = kept.length + added.length) :
    slice.overwritten kept.length changed = slice ↔ changed.take kept.length = kept := by
  have size : slice.allocators.length = kept.length + spare := by simp [entries]
  unfold Slice.overwritten
  rw [size]
  generalize isVisible :
    (if changed.length ≤ slice.cap then changed else changed.take kept.length) = visible
  obtain ⟨takes, atLeast, whenFull⟩ : visible.take kept.length = changed.take kept.length ∧
      kept.length ≤ visible.length ∧ (added = [] → visible.length = kept.length) := by
    rw [← isVisible]
    split <;> simp +contextual [length, take_take]
  constructor
  · intro same
    have sets := congrArg (·.allocators.filterMap id) same
    rw [filterMap_entries, entries, filterMap_entries] at sets
    calc changed.take kept.length
      _ = (visible.take (kept.length + spare)).take kept.length := by
        rw [take_take, min_eq_left (Nat.le_add_right _ _), takes]
      _ = kept := by rw [sets, take_length]
  · intro same
    have sets : visible.take (kept.length + spare) = kept := by
      rcases fits with rfl | none
      · exact takes.trans same
      · have full := (whenFull none).le
        rw [take_of_length_le (full.trans (Nat.le_add_right _ _)), ← same, ← takes,
          take_of_length_le full]
    have rest : kept.length + spare - visible.length = spare := by
      rcases fits with rfl | none
      · omega
      · rw [whenFull none, Nat.add_sub_cancel_left]
    dsimp only
    rw [sets, rest, ← entries]

theorem whole_of_overwritten {length : Nat} (listed : ∀ set ∈ changed, isKept cidrs set = true)
    (same : slice.overwritten length changed = slice) : Whole slice cidrs := by
  refine ⟨_, _, (congrArg Slice.allocators same).symm, fun set member => listed set ?_⟩
  have member := mem_of_mem_take member
  split at member
  · exact member
  · exact mem_of_mem_take member

theorem lookup_replace {α β : Type} [DecidableEq α] {map : AList fun _ : α => β} {key : α}
    {old : β} (value : β) (found : map.lookup key = some old) :
    (map.replace key value).lookup key = some value := by
  obtain ⟨entries, nodup⟩ := map
  change entries.dlookup key = some old at found
  change (entries.kreplace key value).dlookup key = some value
  induction entries with
  | nil => cases found
  | cons entry rest inductionHypothesis =>
    obtain ⟨own, first⟩ := entry
    by_cases same : key = own
    · subst same
      simp [kreplace, lookmap_cons_some]
    · rw [dlookup_cons_ne _ _ same] at found
      have skipped : kreplace key value (⟨own, first⟩ :: rest) =
          ⟨own, first⟩ :: rest.kreplace key value := lookmap_cons_none _ _ (if_neg same)
      rw [skipped, dlookup_cons_ne _ _ same]
      exact inductionHypothesis (nodupKeys_cons.mp nodup).2 found

theorem lookup_abandon {length : Nat} :
    (allocator.abandon name family length changed).pools.lookup name =
      (allocator.pools.lookup name).map fun pool =>
        { pool with
          allocators := pool.allocators.set family
            ((pool.allocators.of family).overwritten length changed) } := by
  unfold abandon
  split
  case h_1 missing => rw [missing, map_none]
  case h_2 pool found => rw [lookup_replace _ found, found, map_some]

theorem abandon_eq {length : Nat}
    (same : ∀ pool ∈ allocator.pools.lookup name,
      (pool.allocators.of family).overwritten length changed = pool.allocators.of family) :
    allocator.abandon name family length changed = allocator := by
  unfold abandon
  split
  · rfl
  case h_2 pool found =>
    have own : pool.allocators.set family (pool.allocators.of family) = pool.allocators := by
      cases family <;> rfl
    rw [same pool found, own]
    have kept : allocator.pools.replace name pool = allocator.pools :=
      AList.ext (kreplace_self allocator.pools.nodupKeys (AList.mem_lookup_iff.mp found))
    rw [kept]

theorem clusters_setReservedRanges (configs : List PoolCIDRConfig) (sets : List CidrSet) :
    (setReservedRanges configs sets).1.map (·.clusterPrefix) = sets.map (·.clusterPrefix) := by
  induction sets with
  | nil => rfl
  | cons set rest inductionHypothesis =>
    unfold setReservedRanges
    split
    · rfl
    case h_2 next made =>
      obtain ⟨_, _, rfl⟩ := map_eq_some_iff.mp made
      exact congrArg (set.clusterPrefix :: ·) inductionHypothesis

theorem take_setReservedRanges (configs : List PoolCIDRConfig) (first rest : List CidrSet) :
    (setReservedRanges configs (first ++ rest)).1.take first.length =
      (setReservedRanges configs first).1 := by
  induction first with
  | nil => rfl
  | cons set first inductionHypothesis =>
    rw [cons_append, setReservedRanges, setReservedRanges]
    split
    · simp
    · exact congrArg (_ :: ·) inductionHypothesis

theorem length_setReservedRanges (configs : List PoolCIDRConfig) (sets : List CidrSet) :
    (setReservedRanges configs sets).1.length = sets.length := by
  rw [← length_map, clusters_setReservedRanges, length_map]

/-- A pool shows the same after an update of sets that all stay if these have not changed. -/
theorem Whole.abandon (whole : Whole slice cidrs)
    (updated : PoolAllocator.updateCIDRSets runtime allocator family slice cidrs size =
      some (.ok update))
    (own : ∀ pool ∈ allocator.pools.lookup name, pool.allocators.of family = slice)
    (length : changed.length = update.sets.length)
    (same : changed.take update.kept.length = update.kept) :
    allocator.abandon name family update.kept.length changed = allocator := by
  obtain ⟨_, _, _, _, spare, entries, fits⟩ := whole.updateCIDRSets updated
  refine abandon_eq fun pool found => ?_
  rw [own pool found, overwritten_eq_iff entries fits (length.trans length_append), same]

theorem writesNothing_nil : WritesNothing ⟨Slice.nil, Slice.nil⟩ configs maskSize :=
  .inr ⟨⟨[], 0, rfl, forall_mem_nil _⟩,
    .inr ⟨⟨[], 0, rfl, forall_mem_nil _⟩, rfl, fun _ _ _ _ _ => rfl⟩⟩

/-- A failed update that fails early changes nothing. -/
theorem upsertPool_eq_of_failsEarly
    (early : allocator.FailsEarly name configs maskSize allowFirstIP allowLastIP)
    (called : allocator.upsertPool runtime name configs maskSize allowFirstIP allowLastIP =
      some (later, errors))
    (failed : errors ≠ []) (update : ∀ error ∈ errors, ¬IsReconciling error) :
    later = allocator := by
  unfold upsertPool at called
  dsimp only at called
  obtain ⟨previous, isPrevious⟩ : ∃ previous, ((allocator.pools.lookup name).map
    (·.allocators)).getD ⟨Slice.nil, Slice.nil⟩ = previous := ⟨_, rfl⟩
  have own (family : Family) (pool : CidrPool) (found : pool ∈ allocator.pools.lookup name) :
      pool.allocators.of family = previous.of family := by
    rw [← isPrevious, mem_def.mp found]
    rfl
  rw [isPrevious] at called
  split at called
  · cases called
    rfl
  case h_2 allowed =>
    -- a pool that is new has no sets to write to
    have quiet : WritesNothing previous configs maskSize := by
      cases found : allocator.pools.lookup name with
      | none =>
        rw [← isPrevious, found]
        exact writesNothing_nil
      | some pool =>
        rw [← isPrevious, found]
        rw [found, bind_some] at allowed
        exact (early pool found).resolve_left (by simp [allowed])
    split at called
    · cases called
    · cases called
      rfl
    case h_3 v4 updatedV4 =>
      rcases quiet with refused | ⟨wholeV4, quiet⟩
      · obtain ⟨_, refused⟩ := refused_iff.mp refused
        cases updatedV4.symm.trans refused
      obtain ⟨sameV4, noErrors, keptV4, ⟨missing, missingFound, made⟩, _⟩ :=
        wholeV4.updateCIDRSets updatedV4
      rw [sameV4, if_neg (not_not.mpr noErrors),
        wholeV4.abandon updatedV4 (own .ipv4) rfl take_left] at called
      split at called
      · cases called
      · cases called
        rfl
      case h_3 v6 updatedV6 =>
        rcases quiet with refused | ⟨wholeV6, reservedV4, reservedV6⟩
        · obtain ⟨_, refused⟩ := refused_iff.mp refused
          cases updatedV6.symm.trans refused
        obtain ⟨sameV6, noErrors, keptV6, _⟩ := wholeV6.updateCIDRSets updatedV6
        rw [← keptV4] at reservedV4 reservedV6
        rw [← keptV6] at reservedV6
        rw [if_neg (not_not.mpr noErrors)] at called
        dsimp only [reservePool] at called
        -- the sets of both families stay, and the reserved ranges of one of them are refused
        have leavesV4 := wholeV4.abandon updatedV4 (own .ipv4) (length_setReservedRanges _ _)
          ((take_setReservedRanges configs.v4 _ _).trans reservedV4)
        split at called
        · cases called
          rw [sameV6, leavesV4, wholeV6.abandon updatedV6 (own .ipv6) rfl take_left]
        case h_2 noError _ =>
          cases called
          rw [sameV6, leavesV4, wholeV6.abandon updatedV6 (own .ipv6)
            (length_setReservedRanges _ _) ((take_setReservedRanges configs.v6 _ _).trans
              (reservedV6 missing missingFound v4.added made noError))]
        · obtain ⟨error, member⟩ := exists_mem_of_ne_nil errors failed
          exact absurd (installPool_errors called error member) (update error member)

theorem Whole.reserved {configs : List PoolCIDRConfig} (whole : Whole slice cidrs)
    (updated : PoolAllocator.updateCIDRSets runtime allocator family slice cidrs size =
      some (.ok update))
    (same : slice.overwritten update.kept.length (setReservedRanges configs update.sets).1 =
      slice) :
    (setReservedRanges configs (slice.allocators.filterMap id)).1 =
      slice.allocators.filterMap id := by
  obtain ⟨_, _, kept, _, spare, entries, fits⟩ := whole.updateCIDRSets updated
  rw [← kept, ← take_setReservedRanges configs update.kept update.added]
  exact (overwritten_eq_iff entries fits
    ((length_setReservedRanges _ _).trans length_append)).mp same

/-- The listed CIDRs are the addresses of networks. -/
def Masked (configs : Dual (List PoolCIDRConfig)) : Prop :=
  ∀ family, ∀ config ∈ configs.of family, config.cidr.masked = config.cidr

theorem listed_sets (masked : ∀ cidr ∈ cidrs, cidr.masked = cidr)
    (updated : updateCIDRSets runtime allocator family slice cidrs size = some (.ok update)) :
    ∀ set ∈ update.sets, isKept cidrs set = true := by
  obtain ⟨missing, missingFound, updated⟩ := bind_eq_some_iff.mp updated
  split at updated
  · cases updated
  case h_2 added made =>
    obtain ⟨_, _, updated⟩ := bind_eq_some_iff.mp updated
    cases updated
    intro set member
    rcases mem_append.mp member with kept | new
    · exact (mem_filter.mp kept).2
    · rcases (newCIDRSets_spec made .nil).2 set new with none | ⟨cidr, listed, _, isNew⟩
      · cases none
      · have listed := (missingCIDRs_spec missingFound cidr listed).1
        rw [isKept, List.any_eq_true]
        exact ⟨cidr, listed, decide_eq_true
          ((CidrSet.newCIDRSet_spec isNew).1.trans (masked cidr listed)).symm⟩

theorem isKept_setReservedRanges {configs : List PoolCIDRConfig} {sets : List CidrSet}
    (listed : ∀ set ∈ sets, isKept cidrs set = true) :
    ∀ set ∈ (setReservedRanges configs sets).1, isKept cidrs set = true := by
  intro set member
  have own := mem_map_of_mem (f := (·.clusterPrefix)) member
  rw [clusters_setReservedRanges] at own
  obtain ⟨old, oldMember, same⟩ := mem_map.mp own
  have kept := listed old oldMember
  unfold isKept CidrSet.isClusterCIDR at kept ⊢
  rwa [← same]

theorem foldlM_pools {α : Type} {elements : List α} {step : Collecting → α → Option Collecting}
    (round : ∀ state element next, step state element = some next →
      next.1.pools = state.1.pools) (state last : Collecting)
    (done : elements.foldlM step state = some last) : last.1.pools = state.1.pools :=
  foldlM_invariant (fun later : Collecting => later.1.pools = state.1.pools)
    (fun _ _ _ _ kept taken => (round _ _ _ taken).trans kept) done rfl

theorem pools_orphanCIDR {old : CidrSet} {node pool : String} (state : Collecting) (cidr : CIDR)
    (next : Collecting) (moved : orphanCIDR old family node pool state cidr = some next) :
    next.1.pools = state.1.pools := by
  unfold orphanCIDR at moved
  dsimp only at moved
  split at moved
  · cases moved
    rfl
  split at moved
  · cases moved
    rfl
  · cases moved
    rfl
  · obtain ⟨marked, isMarked, rfl⟩ := map_eq_some_iff.mp moved
    exact (markOrphan_spec isMarked).1

/-- Removing sets leaves the pools to the end of an update. -/
theorem pools_updateCIDRSets
    (updated : updateCIDRSets runtime allocator family slice cidrs size = some (.ok update)) :
    update.allocator.pools = allocator.pools := by
  obtain ⟨missing, missingFound, updated⟩ := bind_eq_some_iff.mp updated
  split at updated
  · cases updated
  · obtain ⟨⟨last, errors⟩, folded, updated⟩ := bind_eq_some_iff.mp updated
    cases updated
    exact foldlM_pools (fun state _ => foldlM_pools (fun state _ => foldlM_pools
      (fun state _ => foldlM_pools pools_orphanCIDR state) state) state) _ _ folded

section Unchanged

variable {pool : CidrPool} {start : PoolAllocator} {length lengthV6 : Nat}
  {changedV6 : List CidrSet} (pools : start.pools = allocator.pools)
  (found : allocator.pools.lookup name = some pool)
include pools found

theorem overwritten_of_abandon
    (same : start.abandon name .ipv4 length changed = allocator) :
    pool.allocators.v4.overwritten length changed = pool.allocators.v4 := by
  have looked := congrArg (AList.lookup name ·.pools) same
  rw [lookup_abandon, pools, found] at looked
  exact congrArg (·.allocators.v4) (some.inj looked)

theorem overwritten_of_abandon_abandon
    (same : (start.abandon name .ipv4 length changed).abandon name .ipv6 lengthV6 changedV6 =
      allocator) :
    pool.allocators.v4.overwritten length changed = pool.allocators.v4 ∧
      pool.allocators.v6.overwritten lengthV6 changedV6 = pool.allocators.v6 := by
  have looked := congrArg (AList.lookup name ·.pools) same
  rw [lookup_abandon, lookup_abandon, pools, found] at looked
  exact ⟨congrArg (·.allocators.v4) (some.inj looked),
    congrArg (·.allocators.v6) (some.inj looked)⟩

end Unchanged

/-- A failed update with networks that changes nothing fails early. -/
theorem failsEarly_of_upsertPool_eq (masked : Masked configs)
    (called : allocator.upsertPool runtime name configs maskSize allowFirstIP allowLastIP =
      some (allocator, errors))
    (failed : errors ≠ []) (update : ∀ error ∈ errors, ¬IsReconciling error) :
    allocator.FailsEarly name configs maskSize allowFirstIP allowLastIP := by
  intro pool found
  rw [mem_def] at found
  have networks (family : Family) :
      ∀ cidr ∈ (configs.of family).map (·.cidr), cidr.masked = cidr :=
    forall_mem_map.mpr (masked family)
  simp only [upsertPool, found, bind_some, map_some, getD_some] at called
  split at called
  case h_1 refused => exact .inl (by rw [refused]; rfl)
  refine .inr ?_
  split at called
  · cases called
  case h_2 refused => exact .inl (refused_iff.mpr ⟨_, refused⟩)
  case h_3 v4 updatedV4 =>
    have poolsV4 := pools_updateCIDRSets updatedV4
    have listedV4 := listed_sets (networks .ipv4) updatedV4
    split at called
    case isTrue failedV4 =>
      -- only a set that is removed makes orphans, and thus errors
      have same := overwritten_of_abandon poolsV4 found (Prod.mk.inj (some.inj called)).1
      have wholeV4 := whole_of_overwritten listedV4 same
      exact absurd (wholeV4.updateCIDRSets updatedV4).2.1 failedV4
    split at called
    · cases called
    case h_2 refused =>
      have same := overwritten_of_abandon poolsV4 found (Prod.mk.inj (some.inj called)).1
      exact .inr ⟨whole_of_overwritten listedV4 same, .inl (refused_iff.mpr ⟨_, refused⟩)⟩
    case h_3 v6 updatedV6 =>
      have poolsV6 := (pools_updateCIDRSets updatedV6).trans poolsV4
      have listedV6 := listed_sets (networks .ipv6) updatedV6
      split at called
      case isTrue failedV6 =>
        have same := (overwritten_of_abandon_abandon poolsV6 found
          (Prod.mk.inj (some.inj called)).1).2
        have wholeV6 := whole_of_overwritten listedV6 same
        exact absurd (wholeV6.updateCIDRSets updatedV6).2.1 failedV6
      dsimp only [reservePool] at called
      split at called
      case h_1 error _ hasError =>
        -- an IPv4 range is refused, before any IPv6 range is set
        obtain ⟨sameV4, sameV6⟩ := overwritten_of_abandon_abandon poolsV6 found
          (Prod.mk.inj (some.inj called)).1
        have wholeV4 := whole_of_overwritten (isKept_setReservedRanges listedV4) sameV4
        obtain ⟨_, _, keptV4, ⟨missing, missingFound, made⟩, _⟩ :=
          wholeV4.updateCIDRSets updatedV4
        refine .inr ⟨wholeV4, .inr ⟨whole_of_overwritten listedV6 sameV6,
          wholeV4.reserved updatedV4 sameV4, fun others isMissing added isAdded noError => ?_⟩⟩
        cases missingFound.symm.trans isMissing
        cases made.symm.trans isAdded
        rw [← keptV4] at noError
        cases hasError.symm.trans noError
      case h_2 noError _ =>
        obtain ⟨sameV4, sameV6⟩ := overwritten_of_abandon_abandon poolsV6 found
          (Prod.mk.inj (some.inj called)).1
        have wholeV4 := whole_of_overwritten (isKept_setReservedRanges listedV4) sameV4
        have wholeV6 := whole_of_overwritten (isKept_setReservedRanges listedV6) sameV6
        exact .inr ⟨wholeV4, .inr ⟨wholeV6, wholeV4.reserved updatedV4 sameV4,
          fun _ _ _ _ _ => wholeV6.reserved updatedV6 sameV6⟩⟩
      · obtain ⟨error, member⟩ := exists_mem_of_ne_nil errors failed
        exact absurd (installPool_errors called error member) (update error member)

end Early

/-- An update with an IPv4 CIDR among the IPv6 ones. -/
def mixedUpdate (v4 : List PoolCIDRConfig) (allocator : PoolAllocator) : Option Collecting :=
  allocator.upsertPool plainRuntime "a" ⟨v4, [⟨cidr24, []⟩]⟩ ⟨26, 64⟩ false false

end PoolAllocator

end Constellation.Multipool
