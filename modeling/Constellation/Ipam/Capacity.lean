/-
This file is about the addresses that an agent's pool of CIDRs can hand out. Nothing takes a CIDR
out of the removed ones, so it is never served again, and its free addresses are lost if it is
advertised later. Up to that, the next address can be allocated whenever an advertised CIDR that
is not released has a free one.

The removed CIDRs are also why releasing excess CIDRs does not keep the buffer it is asked for: it
counts the free addresses of all allocators, the capacity only those that serve.
-/

import Constellation.Ipam.CidrPool
import Constellation.Lib.Progression
import Constellation.Lib.Run

namespace Constellation.Ipam

open Lib List Range

variable {range : Range} {ranges : List Range} {addr : Addr}

/-! ### The next address of a range -/

theorem AllocationBitmap.exists_allocateBit (bitmap : AllocationBitmap) (start : Nat)
    (room : bitmap.count < bitmap.max) : ∃ offset, bitmap.allocateBit start = some offset := by
  obtain ⟨offset, inside, free⟩ :
      ∃ offset ∈ Finset.range bitmap.max, offset ∉ bitmap.allocated := by
    refine Finset.exists_mem_notMem_of_card_lt_card ?_
    rw [Finset.card_range, ← bitmap.count_eq]
    exact room
  have reduced := Nat.mod_lt start (Nat.zero_lt_of_lt room)
  -- the offsets are visited as a progression with step one
  have visited : offset ∈ progression bitmap.max 1 bitmap.max (start % bitmap.max) :=
    (progression_perm_range reduced (Nat.coprime_one_right _)).mem_iff.mpr
      (mem_range.mpr (Finset.mem_range.mp inside))
  rw [progression_eq_map 1 _ reduced] at visited
  obtain ⟨step, bound, here⟩ := mem_map.mp visited
  unfold allocateBit
  rw [if_neg (Nat.not_le_of_lt room)]
  refine Option.isSome_iff_exists.mp (find?_isSome.mpr
    ⟨offset, mem_map.mpr ⟨step, bound, ?_⟩, decide_eq_true free⟩)
  rw [← here, Nat.mul_one, Nat.mod_add_mod]

theorem Range.exists_allocateNext (start : Nat) (room : range.free ≠ 0) :
    ∃ result, range.allocateNext start = .ok result := by
  obtain ⟨offset, found⟩ := range.alloc.exists_allocateBit start (by
    rw [range.alloc_max]
    exact Nat.lt_of_sub_ne_zero room)
  unfold allocateNext
  split
  case h_1 full =>
    unfold AllocationBitmap.allocateNext at full
    split at full
    case h_1 none => exact absurd (none.symm.trans found) (Option.some_ne_none _).symm
    · cases full
  · exact ⟨_, rfl⟩

namespace CidrPool

variable {pool : CidrPool} {start : Nat} {later : CidrPool}

/-- An allocator that is not removed and has a free address serves the next one, unless an earlier
one does. -/
theorem exists_allocateNextIn {removed : GoSet MaskedCIDR} (member : range ∈ ranges)
    (kept : range.block ∉ removed) (room : range.free ≠ 0) :
    ∃ result, allocateNextIn removed start ranges = .ok result := by
  induction ranges with
  | nil => cases member
  | cons head rest inductionHypothesis =>
    unfold allocateNextIn
    split
    case isTrue skipped =>
      have later : range ∈ rest := by
        refine (mem_cons.mp member).resolve_left ?_
        rintro rfl
        exact skipped.elim kept room
      obtain ⟨result, allocated⟩ := inductionHypothesis later
      rw [allocated]
      exact ⟨_, rfl⟩
    case isFalse serves =>
      obtain ⟨result, allocated⟩ :=
        exists_allocateNext start fun full => serves (.inr full)
      rw [allocated]
      exact ⟨_, rfl⟩

theorem exists_allocateNext (member : range ∈ pool.ipAllocators)
    (kept : range.block ∉ pool.removed) (room : range.free ≠ 0) :
    ∃ result, pool.allocateNext start = .ok result := by
  obtain ⟨result, allocated⟩ : ∃ result, allocateNextIn _ start _ = .ok result :=
    exists_allocateNextIn member kept room
  unfold allocateNext
  split
  case h_1 _ failed => exact absurd (failed.symm.trans allocated) (by simp)
  · exact ⟨_, rfl⟩

/-! ### The removed CIDRs -/

theorem removed_reclaim (pool : CidrPool) (neededIPs : Int) :
    (pool.reclaim neededIPs).1.removed = pool.removed := by
  unfold reclaim
  split
  case isFalse _ => rfl
  case isTrue _ =>
    refine List.foldlRecOn
      (motive := fun state : CidrPool × Nat => state.1.removed = pool.removed) _ _ rfl ?_
    intro state same block _
    unfold reclaimRound
    split_ifs <;> exact same

/-- An update removes the CIDRs that are in use and not listed, and no others. -/
theorem mem_removed_updatePool (pool : CidrPool) (prefixes : List MaskedCIDR) (block : MaskedCIDR) :
    block ∈ (pool.updatePool prefixes).removed ↔
      (∃ range ∈ pool.ipAllocators, (range.block ∉ prefixes ∧ range.used ≠ 0) ∧
        range.block = block) ∨ block ∈ pool.removed := by
  have enrolled : (pool.updatePool prefixes).removed =
      ((pool.forget prefixes).dropMissing prefixes).removed := by
    refine List.foldlRecOn (motive := fun later : CidrPool => later.removed = _) _ _ rfl ?_
    intro later same listed _
    unfold enroll
    split_ifs <;> exact same
  rw [enrolled]
  show block ∈ List.foldl _ pool.removed _ ↔ _
  rw [GoMap.mem_foldl_insert]
  simp only [mem_map, mem_filter, decide_eq_true_eq, and_assoc]
  rfl

def quads (numbers : List (BitVec 32)) : CidrPool :=
  (newCIDRPool false false).updatePool (numbers.map quad)

/-! ### Runs -/

structure Advertised where
  pool : CidrPool
  listed : List MaskedCIDR

inductive Call
  | updatePool (prefixes : List MaskedCIDR)
  | allocate (addr : Addr)
  | allocateNext (start : Nat)
  | release (addr : Addr)
  | releaseExcessCIDRsMultiPool (neededIPs : Int)

namespace Advertised

def initial (allowFirstIP allowLastIP : Bool) : Advertised :=
  ⟨newCIDRPool allowFirstIP allowLastIP, []⟩

/-- A failed allocation changes nothing. -/
def step (state : Advertised) : Call → Advertised
  | .updatePool prefixes => ⟨state.pool.updatePool prefixes, prefixes⟩
  | .allocate addr =>
    match state.pool.allocate addr with
    | .ok pool => { state with pool }
    | .error _ => state
  | .allocateNext start =>
    match state.pool.allocateNext start with
    | .ok (_, pool) => { state with pool }
    | .error _ => state
  | .release addr => { state with pool := state.pool.release addr }
  | .releaseExcessCIDRsMultiPool neededIPs =>
    { state with pool := state.pool.releaseExcessCIDRsMultiPool neededIPs }

/-- No CIDR is advertised again after it was removed while in use. -/
def ListsNoRemoved (state : Advertised) : Call → Prop
  | .updatePool prefixes => ∀ block ∈ prefixes, block ∉ state.pool.removed
  | _ => True

instance (state : Advertised) (call : Call) : Decidable (state.ListsNoRemoved call) := by
  cases call <;> delta ListsNoRemoved <;> infer_instance

/-- The pool knows the listed CIDRs, others only as removed ones, and no listed one is removed. -/
structure Current (state : Advertised) : Prop where
  knows : ∀ block ∈ state.listed, state.pool.Knows block
  origin : ∀ block, state.pool.Knows block → block ∈ state.listed ∨ block ∈ state.pool.removed
  served : ∀ block ∈ state.listed, block ∉ state.pool.removed

variable {state : Advertised}

theorem Current.withPool (current : state.Current)
    (knows : ∀ block, later.Knows block ↔ state.pool.Knows block)
    (removed : later.removed = state.pool.removed) : Current { state with pool := later } where
  knows block listed := (knows block).mpr (current.knows block listed)
  origin block known := by
    rw [removed]
    exact current.origin block ((knows block).mp known)
  served := by
    rw [removed]
    exact current.served

theorem Current.sameCIDRs (current : state.Current)
    (same : SameCIDRs state.pool later ∧ later.removed = state.pool.removed) :
    Current { state with pool := later } := by
  refine current.withPool (fun block => ?_) same.2
  unfold Knows
  rw [same.1.inUseCIDRs, same.1.released]

theorem Current.updatePool {prefixes : List MaskedCIDR}
    (kept : ∀ block ∈ prefixes, block ∉ state.pool.removed) :
    Current ⟨state.pool.updatePool prefixes, prefixes⟩ where
  knows := (state.pool.updatePool_updates prefixes).knows
  origin block known := by
    have enrolls :=
      foldl_enroll_enrolls prefixes ((state.pool.forget prefixes).dropMissing prefixes)
    rcases known with inUse | released
    · rcases enrolls.fresh block inUse with before | ⟨listed, -⟩
      · obtain ⟨range, member, rfl⟩ := mem_map.mp before
        obtain ⟨inside, stays⟩ := mem_filter.mp member
        by_cases listed : range.block ∈ prefixes
        · exact .inl listed
        · have inUse := (of_decide_eq_true stays).resolve_left listed
          exact .inr ((mem_removed_updatePool _ _ _).mpr
            (.inl ⟨range, inside, ⟨listed, inUse⟩, rfl⟩))
      · exact .inl listed
    · exact .inl ((state.pool.updatePool_updates prefixes).origin block released)
  served block listed := by
    rw [mem_removed_updatePool]
    rintro (⟨range, -, ⟨missing, -⟩, rfl⟩ | removed)
    · exact missing listed
    · exact kept block listed removed

theorem Current.step (current : state.Current) (call : Call) (kept : state.ListsNoRemoved call) :
    (state.step call).Current := by
  cases call with
  | updatePool prefixes => exact Current.updatePool kept
  | allocate addr =>
    unfold Advertised.step
    dsimp only
    split
    case h_1 later allocated =>
      exact current.sameCIDRs (allocate_spec allocated).1
    · exact current
  | allocateNext start =>
    unfold Advertised.step
    dsimp only
    split
    case h_1 addr later allocated =>
      exact current.sameCIDRs (allocateNext_spec allocated).1
    · exact current
  | release addr => exact current.sameCIDRs ⟨state.pool.release_sameCIDRs addr, rfl⟩
  | releaseExcessCIDRsMultiPool neededIPs =>
    exact current.withPool (releaseExcessCIDRsMultiPool_trims neededIPs state.pool).knows
      (removed_reclaim state.pool neededIPs)

/-- A listed CIDR that the pool has not released and that is not used up. -/
def Serves (state : Advertised) (block : MaskedCIDR) : Prop :=
  block ∈ state.listed ∧ block ∉ state.pool.released ∧
    ∀ range ∈ state.pool.ipAllocators, range.block = block → range.free ≠ 0
  deriving Decidable

/-- The next address is found if some listed CIDR has one, and it is one of a listed CIDR that is
not released. -/
structure FollowsListed (state : Advertised) : Prop where
  succeeds : ∀ start, (∃ block, state.Serves block) →
    ∃ result, state.pool.allocateNext start = .ok result
  inside : ∀ start addr later, state.pool.allocateNext start = .ok (addr, later) →
    ∃ block ∈ state.listed, block ∉ state.pool.released ∧ block.val.contains addr = true

theorem Current.followsListed (current : state.Current) : state.FollowsListed where
  succeeds start := by
    rintro ⟨block, listed, kept, room⟩
    have inUse := (current.knows block listed).resolve_right kept
    obtain ⟨range, member, rfl⟩ := mem_map.mp inUse
    exact exists_allocateNext member (current.served _ listed) (room range member rfl)
  inside start addr later allocated := by
    obtain ⟨-, block, inUse, inside, kept⟩ := allocateNext_spec allocated
    exact ⟨block, (current.origin block (.inl inUse)).resolve_right kept,
      state.pool.separate block inUse, inside⟩

/-- In every run in which no CIDR that was removed while in use is advertised again, the addresses
that can be allocated follow the advertised CIDRs. -/
theorem run_followsListed (allowFirstIP allowLastIP : Bool) (calls : List Call)
    (kept : Meets step ListsNoRemoved (initial allowFirstIP allowLastIP) calls) :
    (run step (initial allowFirstIP allowLastIP) calls).FollowsListed := by
  refine Current.followsListed (kept.invariant Current (fun _ call current => current.step call) ?_)
  refine ⟨forall_mem_nil _, fun block known => ?_, forall_mem_nil _⟩
  exact known.elim (absurd · not_mem_nil) (absurd · (AList.notMem_empty block))

theorem grownRun_followsListed :
    Meets step ListsNoRemoved (initial false false)
        [.updatePool [quad 1], .allocateNext 0, .updatePool [quad 1, quad 2]] ∧
      (run step (initial false false)
        [.updatePool [quad 1], .allocateNext 0, .updatePool [quad 1, quad 2]]).FollowsListed :=
  ⟨by decide +kernel, run_followsListed false false _ (by decide +kernel)⟩

/-- A CIDR is removed while an address of it is in use, and comes back. -/
def returnedCalls : List Call :=
  [.updatePool [quad 1], .allocateNext 0, .updatePool [], .updatePool [quad 1]]

/-- Its other address cannot be allocated. -/
theorem returnedCalls_exhausted :
    ¬ (run step (initial false false) returnedCalls).FollowsListed := by
  intro follows
  obtain ⟨result, allocated⟩ := follows.succeeds 0 ⟨quad 1, by decide +kernel⟩
  have failed :
      ((run step (initial false false) returnedCalls).pool.allocateNext 0).isOk = false := by
    decide +kernel
  rw [allocated] at failed
  cases failed

end Advertised

/-! ### The buffer of free addresses -/

/-- The free addresses of the CIDRs that were not removed. -/
def capacity (pool : CidrPool) : Nat :=
  ((pool.ipAllocators.filter fun range => range.block ∉ pool.removed).map free).sum

/-- No CIDR with an address in use is dropped, the free addresses stay as many as needed, none is
dropped if that leaves fewer, and the CIDRs that stay keep their order, before those that are
reclaimed. -/
structure KeepsBuffer (neededIPs : Int) (before after : CidrPool) : Prop where
  inUse : ∀ range ∈ before.ipAllocators, range.used ≠ 0 → range ∈ after.ipAllocators
  capacity : neededIPs ≤ before.capacity → neededIPs ≤ after.capacity
  drops : (∃ block ∈ before.inUseCIDRs, block ∉ after.inUseCIDRs) → neededIPs ≤ after.capacity
  order : after.inUseCIDRs.Sublist (before.inUseCIDRs ++ sorted before.released.keys)

/-- The allocators that released CIDRs with a usable address would get. -/
def reclaimable (pool : CidrPool) (blocks : List MaskedCIDR) : List Range :=
  (blocks.map pool.newRange).filter fun range => range.free ≠ 0

/-- The allocators of a pool, followed by those that its released CIDRs would get. -/
def candidates (pool : CidrPool) : List Range :=
  pool.ipAllocators ++ pool.reclaimable (sorted pool.released.keys)

/-- One CIDR may remain alone: it has enough free addresses; it is in use, or those before it have
not enough; no other CIDR is in use; and it serves, unless there is no other or none is needed. -/
structure Remains (pool : CidrPool) (neededIPs : Int) (before : List Range) (range : Range) :
    Prop where
  enough : neededIPs ≤ range.free
  kept : range.used ≠ 0 ∨ ((before.map free).sum : Int) < neededIPs
  unused : ∀ other ∈ pool.ipAllocators, other ≠ range → other.used = 0
  serves : range.block ∈ pool.removed → 0 < neededIPs → ∀ other ∈ pool.ipAllocators, other = range

/-- At most one CIDR is there or can be reclaimed and has not enough free addresses, or none is
needed or in use, or one may remain alone. -/
def Fits (pool : CidrPool) (neededIPs : Int) : Prop :=
  (pool.candidates.length ≤ 1 ∧ ((pool.candidates.map free).sum : Int) < neededIPs) ∨
    (neededIPs ≤ 0 ∧ ∀ range ∈ pool.ipAllocators, range.used = 0) ∨
    ∃ before range after, pool.candidates = before ++ range :: after ∧
      pool.Remains neededIPs before range

variable {neededIPs : Int}

/-! #### The CIDRs that are reclaimed -/

theorem used_newRange (pool : CidrPool) (block : MaskedCIDR) : (pool.newRange block).used = 0 := by
  unfold newRange newCIDRRangeWith
  split <;> exact Nat.sub_self _

theorem used_of_mem_reclaimable {blocks : List MaskedCIDR}
    (member : range ∈ pool.reclaimable blocks) : range.used = 0 := by
  obtain ⟨block, -, rfl⟩ := mem_map.mp (mem_of_mem_filter member)
  exact pool.used_newRange block

/-- The loop reclaims the first of the released CIDRs, until enough addresses are free. -/
theorem foldl_reclaimRound_spec {blocks : List MaskedCIDR} (distinct : blocks.Nodup)
    (within : ∀ block ∈ blocks, block ∈ pool.released) :
    let result := blocks.foldl (reclaimRound neededIPs) (pool, pool.totalFree)
    ∃ taken rest, pool.reclaimable blocks = taken ++ rest ∧
      result.1.ipAllocators = pool.ipAllocators ++ taken ∧
      (rest = [] ∨ neededIPs ≤ result.1.totalFree) := by
  induction blocks generalizing pool with
  | nil => exact ⟨[], [], rfl, (append_nil _).symm, .inl rfl⟩
  | cons block blocks inductionHypothesis =>
    obtain ⟨fresh, distinct⟩ := nodup_cons.mp distinct
    obtain ⟨released, within⟩ := forall_mem_cons.mp within
    by_cases enough : neededIPs ≤ pool.totalFree
    · have fixed (block : MaskedCIDR) : reclaimRound neededIPs (pool, pool.totalFree) block =
          (pool, pool.totalFree) := if_pos enough
      rw [foldl_fixed' fixed]
      exact ⟨[], _, rfl, (append_nil _).symm, .inr enough⟩
    · rw [foldl_cons, reclaimRound, if_neg enough]
      dsimp only
      unfold reclaimable
      by_cases empty : (pool.newRange block).free = 0
      · rw [if_pos empty, map_cons, filter_cons_of_neg (by simpa using empty)]
        exact inductionHypothesis distinct within
      · rw [if_neg empty, dif_pos released, map_cons, filter_cons_of_pos (by simpa using empty)]
        have total : pool.totalFree + (pool.newRange block).free =
            (pool.reopen block released).totalFree := by
          show _ = ((pool.ipAllocators ++ [pool.newRange block]).map free).sum
          rw [map_append, sum_append, map_singleton, sum_singleton]
          rfl
        obtain ⟨taken, rest, same, allocators, enough⟩ := @inductionHypothesis
          (pool.reopen block released) distinct fun other member =>
            AList.mem_erase.mpr ⟨fun same => fresh (same ▸ member), within other member⟩
        rw [total]
        refine ⟨pool.newRange block :: taken, rest, congrArg _ same, allocators.trans ?_, enough⟩
        exact append_assoc _ _ _

theorem reclaim_spec (pool : CidrPool) (neededIPs : Int) :
    ∃ taken rest, pool.reclaimable (sorted pool.released.keys) = taken ++ rest ∧
      (pool.reclaim neededIPs).1.ipAllocators = pool.ipAllocators ++ taken ∧
      (rest = [] ∨ neededIPs ≤ (pool.reclaim neededIPs).1.totalFree) := by
  unfold reclaim
  split
  · exact foldl_reclaimRound_spec ((perm_insertionSort _ _).nodup_iff.mpr pool.released.keys_nodup)
      fun block member => (mem_sorted _ _).mp member
  case isFalse enough =>
    refine ⟨[], _, rfl, (append_nil _).symm, ?_⟩
    rw [not_and_or, not_lt, not_not] at enough
    refine enough.symm.imp_left fun none => ?_
    rw [none]
    rfl

theorem candidates_eq {taken rest : List Range}
    (same : pool.reclaimable (sorted pool.released.keys) = taken ++ rest)
    (allocators : (pool.reclaim neededIPs).1.ipAllocators = pool.ipAllocators ++ taken) :
    pool.candidates = (pool.reclaim neededIPs).1.ipAllocators ++ rest := by
  rw [candidates, same, allocators, append_assoc]

theorem sublist_reclaim (pool : CidrPool) (neededIPs : Int) :
    ((pool.reclaim neededIPs).1.ipAllocators.map block).Sublist
      (pool.inUseCIDRs ++ sorted pool.released.keys) := by
  obtain ⟨taken, rest, same, allocators, -⟩ := pool.reclaim_spec neededIPs
  rw [allocators, map_append]
  refine (Sublist.refl _).append ?_
  have part : taken.Sublist (pool.reclaimable (sorted pool.released.keys)) :=
    same ▸ sublist_append_left _ _
  have blocks : ((sorted pool.released.keys).map pool.newRange).map block =
      sorted pool.released.keys := by
    rw [map_map]
    exact (map_congr_left fun block _ => pool.newRange_block block).trans (map_id _)
  rw [← blocks]
  exact (part.trans filter_sublist).map block

/-! #### The walk over the allocators -/

theorem retain_sublist (totalFree : Int) :
    (retain neededIPs ranges totalFree).1.Sublist ranges := by
  induction ranges generalizing totalFree with
  | nil => exact .refl _
  | cons range rest inductionHypothesis =>
    unfold retain
    split
    · exact (inductionHypothesis _).cons _
    · exact (inductionHypothesis _).cons_cons _

/-- A walk that can release all of the first allocators does so. -/
theorem retain_append_of_spare {first : List Range} {totalFree : Int}
    (unused : ∀ range ∈ first, range.used = 0)
    (spare : neededIPs + ((first.map free).sum : Nat) ≤ totalFree) :
    (retain neededIPs (first ++ ranges) totalFree).1 =
      (retain neededIPs ranges (totalFree - ((first.map free).sum : Nat))).1 := by
  induction first generalizing totalFree with
  | nil => simp
  | cons range first inductionHypothesis =>
    obtain ⟨unusedHead, unused⟩ := forall_mem_cons.mp unused
    rw [map_cons, sum_cons, Int.natCast_add] at spare ⊢
    rw [cons_append, retain, if_pos ⟨unusedHead, by omega⟩]
    dsimp only
    rw [inductionHypothesis unused (by omega), Int.sub_sub]

/-- A walk over too few free addresses retains all allocators. -/
theorem retain_of_lt {totalFree : Int} (few : totalFree < neededIPs) :
    (retain neededIPs ranges totalFree).1 = ranges := by
  induction ranges with
  | nil => rfl
  | cons range rest inductionHypothesis =>
    rw [retain, if_neg fun spare => by omega]
    exact congrArg _ inductionHypothesis

/-- The first allocator that a walk retains has an address in use or is needed when it is
visited. -/
theorem exists_of_retain_eq_cons {totalFree : Int} {rest : List Range}
    (retained : (retain neededIPs ranges totalFree).1 = range :: rest) :
    ∃ first last, ranges = first ++ range :: last ∧ (range.used ≠ 0 ∨
      totalFree - ((first.map free).sum : Nat) - range.free < neededIPs) := by
  induction ranges generalizing totalFree with
  | nil => cases retained
  | cons head tail inductionHypothesis =>
    unfold retain at retained
    split at retained
    · obtain ⟨first, last, rfl, kept⟩ := inductionHypothesis retained
      refine ⟨head :: first, last, rfl, kept.imp_right fun needed => ?_⟩
      rw [map_cons, sum_cons, Int.natCast_add]
      omega
    case isFalse kept =>
      cases retained
      refine ⟨[], tail, rfl, ?_⟩
      rw [not_and_or] at kept
      refine kept.imp_right fun needed => ?_
      simpa using needed

/-- A walk retains one allocator if it has enough free addresses alone, and is in use or needed when
it is visited, while the others are not in use. -/
theorem retain_eq_singleton {first last : List Range}
    (unused : ∀ other ∈ first ++ last, other.used = 0) (enough : neededIPs ≤ range.free)
    (kept : range.used ≠ 0 ∨ ((last.map free).sum : Int) < neededIPs) :
    (retain neededIPs (first ++ range :: last)
      (((first ++ range :: last).map free).sum : Nat)).1 = [range] := by
  obtain ⟨unusedFirst, unusedLast⟩ := forall_mem_append.mp unused
  rw [map_append, map_cons, sum_append, sum_cons, Int.natCast_add, Int.natCast_add,
    retain_append_of_spare unusedFirst (by omega), retain, if_neg (by omega)]
  dsimp only
  rw [← append_nil last, retain_append_of_spare unusedLast (by rw [append_nil]; omega)]
  rfl

/-- The walk leaves as many free addresses as needed, here and elsewhere, if there were as many. -/
theorem le_free_retain {totalFree elsewhere : Int}
    (counted : totalFree = elsewhere + ((ranges.map free).sum : Nat))
    (enough : neededIPs ≤ totalFree) :
    neededIPs ≤ elsewhere + (((retain neededIPs ranges totalFree).1.map free).sum : Nat) := by
  induction ranges generalizing totalFree elsewhere with
  | nil => exact counted ▸ enough
  | cons range rest inductionHypothesis =>
    rw [map_cons, sum_cons, Int.natCast_add] at counted
    unfold retain
    split
    case isTrue spare => exact inductionHypothesis (by omega) spare.2
    case isFalse needed =>
      have recounted :
          totalFree = (elsewhere + range.free) + ((rest.map free).sum : Nat) := by
        rw [counted, add_assoc]
      have later := inductionHypothesis recounted enough
      rw [map_cons, sum_cons, Int.natCast_add]
      omega

theorem retain_reclaim (pool : CidrPool) (neededIPs : Int) :
    (pool.releaseExcessCIDRsMultiPool neededIPs).ipAllocators =
      (retain neededIPs (pool.reclaim neededIPs).1.ipAllocators.reverse
        (((pool.reclaim neededIPs).1.ipAllocators.reverse.map free).sum : Nat)).1 := by
  rw [map_reverse, sum_reverse]
  show (retain _ _ ((pool.reclaim neededIPs).2 : Int)).1 = _
  rw [(pool.reclaim_reclaims neededIPs).2]
  rfl

/-- Two elements of a list without duplicates stand in one order only. -/
theorem not_sublist_swap {α : Type} {first second : α} {list : List α} (distinct : list.Nodup)
    (one : [first, second].Sublist list) : ¬[second, first].Sublist list := by
  induction list with
  | nil => cases one
  | cons head tail inductionHypothesis =>
    obtain ⟨fresh, distinct⟩ := nodup_cons.mp distinct
    intro two
    cases one with
    | cons _ one =>
      cases two with
      | cons _ two => exact inductionHypothesis distinct one two
      | cons_cons _ _ => exact fresh (one.subset (mem_cons_of_mem _ (.head _)))
    | cons_cons _ one =>
      cases two with
      | cons _ two => exact fresh (two.subset (mem_cons_of_mem _ (.head _)))
      | cons_cons _ two => exact fresh (two.subset (.head _))

/-- The list of the CIDRs that may be in use after a call has none of them twice. -/
theorem nodup_inUseCIDRs_sorted (pool : CidrPool) :
    (pool.inUseCIDRs ++ sorted pool.released.keys).Nodup := by
  refine nodup_append.mpr ⟨pool.distinct, (perm_insertionSort _ _).nodup_iff.mpr
    pool.released.keys_nodup, ?_⟩
  rintro block inUse _ released rfl
  exact pool.separate block inUse ((mem_sorted _ _).mp released)

/-- The order is kept only if there is at most one allocator left to be in order. -/
theorem order_iff (pool : CidrPool) (neededIPs : Int) :
    (pool.releaseExcessCIDRsMultiPool neededIPs).inUseCIDRs.Sublist
        (pool.inUseCIDRs ++ sorted pool.released.keys) ↔
      (pool.releaseExcessCIDRsMultiPool neededIPs).ipAllocators.length ≤ 1 := by
  have visited : (pool.releaseExcessCIDRsMultiPool neededIPs).ipAllocators.Sublist
      (pool.reclaim neededIPs).1.ipAllocators.reverse := retain_sublist _
  unfold inUseCIDRs
  constructor
  · intro ordered
    match same : (pool.releaseExcessCIDRsMultiPool neededIPs).ipAllocators with
    | [] | [_] => simp
    | first :: second :: rest =>
      rw [same] at ordered visited
      have two : [first, second].Sublist (first :: second :: rest) := by simp
      have back := (two.trans visited).reverse
      rw [reverse_reverse] at back
      exact absurd ((back.map block).trans (pool.sublist_reclaim neededIPs))
        (not_sublist_swap pool.nodup_inUseCIDRs_sorted ((two.map block).trans ordered))
  · intro short
    match same : (pool.releaseExcessCIDRsMultiPool neededIPs).ipAllocators with
    | [] => exact nil_sublist _
    | [last] =>
      refine singleton_sublist.mpr ((pool.sublist_reclaim neededIPs).subset ?_)
      exact mem_map_of_mem (mem_reverse.mp (visited.subset (same ▸ .head _)))
    | _ :: _ :: _ => rw [same] at short; simp at short

/-! #### A single allocator -/

theorem capacity_of_single
    (alone : (pool.releaseExcessCIDRsMultiPool neededIPs).ipAllocators = [range]) :
    (pool.releaseExcessCIDRsMultiPool neededIPs).capacity =
      if range.block ∈ pool.removed then 0 else range.free := by
  have removed : (pool.releaseExcessCIDRsMultiPool neededIPs).removed = pool.removed :=
    pool.removed_reclaim neededIPs
  rw [capacity, alone, removed]
  split <;> simp [*]

theorem KeepsBuffer.remains_of_single
    (keeps : KeepsBuffer neededIPs pool (pool.releaseExcessCIDRsMultiPool neededIPs))
    (alone : (pool.releaseExcessCIDRsMultiPool neededIPs).ipAllocators = [range])
    (left : neededIPs ≤ range.free) :
    ∃ before after, pool.candidates = before ++ range :: after ∧
      pool.Remains neededIPs before range := by
  obtain ⟨taken, rest, same, allocators, -⟩ := pool.reclaim_spec neededIPs
  obtain ⟨first, last, visited, kept⟩ :=
    exists_of_retain_eq_cons ((pool.retain_reclaim neededIPs).symm.trans alone)
  have order := congrArg reverse visited
  rw [reverse_reverse, reverse_append, reverse_cons] at order
  refine ⟨last.reverse, first.reverse ++ rest, ?_, left, ?_, ?_, ?_⟩
  · rw [candidates_eq same allocators, order]
    simp
  · refine kept.imp_right fun needed => ?_
    rw [visited, map_append, map_cons, sum_append, sum_cons, Int.natCast_add,
      Int.natCast_add] at needed
    rw [map_reverse, sum_reverse]
    omega
  · intro other member differ
    by_contra inUse
    have kept := keeps.inUse other member inUse
    rw [alone] at kept
    exact differ (mem_singleton.mp kept)
  · intro removed needed other member
    by_contra differ
    have gone : other.block ∉ (pool.releaseExcessCIDRsMultiPool neededIPs).inUseCIDRs := by
      rw [inUseCIDRs, alone, map_singleton, mem_singleton]
      intro equal
      refine differ (inj_on_of_nodup_map (pool.reclaim neededIPs).1.distinct ?_ ?_ equal)
      · rw [allocators]
        exact mem_append_left _ member
      · rw [order]
        simp
    have served := keeps.drops ⟨other.block, mem_map_of_mem member, gone⟩
    rw [capacity_of_single alone, if_pos removed] at served
    exact absurd served (not_le.mpr needed)

/-- What a call that keeps the buffer finds. -/
theorem KeepsBuffer.remains
    (keeps : KeepsBuffer neededIPs pool (pool.releaseExcessCIDRsMultiPool neededIPs)) :
    pool.Fits neededIPs := by
  obtain ⟨taken, rest, same, allocators, enough⟩ := pool.reclaim_spec neededIPs
  have stays := pool.retain_reclaim neededIPs
  have total : (((pool.reclaim neededIPs).1.ipAllocators.reverse.map free).sum : Nat) =
      (pool.reclaim neededIPs).1.totalFree := by
    rw [map_reverse, sum_reverse]
    rfl
  have short := (pool.order_iff neededIPs).mp keeps.order
  rcases lt_or_ge ((pool.reclaim neededIPs).1.totalFree : Int) neededIPs with few | many
  · have split := candidates_eq same allocators
    rw [enough.resolve_right (not_le.mpr few), append_nil] at split
    rw [stays, retain_of_lt (by rw [total]; exact few), length_reverse] at short
    refine .inl ⟨?_, ?_⟩ <;> rw [split]
    · exact short
    · exact few
  · refine .inr ?_
    have left : neededIPs ≤ 0 +
        (((pool.releaseExcessCIDRsMultiPool neededIPs).ipAllocators.map free).sum : Nat) := by
      rw [stays]
      exact le_free_retain (zero_add _).symm (by rw [total]; exact many)
    match alone : (pool.releaseExcessCIDRsMultiPool neededIPs).ipAllocators with
    | [] =>
      rw [alone] at left
      refine .inl ⟨left, fun range member => ?_⟩
      by_contra inUse
      have kept := keeps.inUse range member inUse
      rw [alone] at kept
      cases kept
    | [range] =>
      rw [alone] at left
      obtain ⟨before, after, remains⟩ := keeps.remains_of_single alone (by simpa using left)
      exact .inr ⟨before, range, after, remains⟩
    | _ :: _ :: _ =>
      rw [alone] at short
      simp at short

/-- A call that finds an allocator that may remain alone retains just that one. -/
theorem Remains.alone {before after : List Range} (remains : pool.Remains neededIPs before range)
    (place : pool.candidates = before ++ range :: after) :
    (pool.releaseExcessCIDRsMultiPool neededIPs).ipAllocators = [range] := by
  obtain ⟨taken, rest, same, allocators, enough⟩ := pool.reclaim_spec neededIPs
  obtain ⟨serves, kept, unused, -⟩ := remains
  have split := place.symm.trans (candidates_eq same allocators)
  -- the allocator was there before or is reclaimed
  obtain ⟨others, within⟩ : ∃ others,
      (pool.reclaim neededIPs).1.ipAllocators = before ++ range :: others := by
    by_contra outside
    obtain ⟨between, start, later⟩ : ∃ between,
        before = (pool.reclaim neededIPs).1.ipAllocators ++ between ∧ range ∈ rest := by
      rcases append_eq_append_iff.mp split with ⟨tail, within, later⟩ | ⟨tail, start, later⟩
      · cases tail with
        | nil => exact ⟨[], by simpa using within.symm, (nil_append rest ▸ later) ▸ mem_cons_self⟩
        | cons head tail =>
          cases later
          exact absurd ⟨tail, within⟩ outside
      · exact ⟨tail, start, by simp [later]⟩
    have fresh : range.used = 0 :=
      used_of_mem_reclaimable (same ▸ mem_append_right _ later)
    have few := kept.resolve_left (absurd fresh)
    have many := enough.resolve_left (ne_nil_of_mem later)
    rw [start, map_append, sum_append, Int.natCast_add] at few
    have total : (((pool.reclaim neededIPs).1.ipAllocators.map free).sum : Int) =
      (pool.reclaim neededIPs).1.totalFree := rfl
    omega
  have distinct := (pool.reclaim neededIPs).1.distinct
  rw [within, map_append, map_cons, nodup_middle, nodup_cons, ← map_append] at distinct
  rw [retain_reclaim, within, reverse_append, reverse_cons, append_assoc, singleton_append]
  refine retain_eq_singleton (fun other member => ?_) serves ?_
  · have member : other ∈ before ++ others := by
      simpa [or_comm] using member
    have inside : other ∈ pool.ipAllocators ++ taken := by
      rw [← allocators, within]
      exact (mem_append.mp member).elim (mem_append_left _)
        fun later => mem_append_right _ (mem_cons_of_mem _ later)
    rcases mem_append.mp inside with old | new
    · refine unused other old ?_
      rintro rfl
      exact distinct.1 (mem_map_of_mem member)
    · exact used_of_mem_reclaimable (same ▸ mem_append_left _ new)
  · rw [map_reverse, sum_reverse]
    exact kept

theorem mem_release_of_used (member : range ∈ pool.ipAllocators) (used : range.used ≠ 0) :
    range ∈ (pool.releaseExcessCIDRsMultiPool neededIPs).ipAllocators := by
  obtain ⟨taken, rest, -, allocators, -⟩ := pool.reclaim_spec neededIPs
  have visited : range ∈ (pool.reclaim neededIPs).1.ipAllocators := by
    rw [allocators]
    exact mem_append_left _ member
  exact mem_retain_of_used used (mem_reverse.mpr visited)

theorem capacity_le_totalFree (pool : CidrPool) : pool.capacity ≤ pool.totalFree :=
  (filter_sublist.map free).sum_le_sum fun _ _ => Nat.zero_le _

theorem keepsBuffer_of_few (short : pool.candidates.length ≤ 1)
    (few : ((pool.candidates.map free).sum : Int) < neededIPs) :
    KeepsBuffer neededIPs pool (pool.releaseExcessCIDRsMultiPool neededIPs) := by
  obtain ⟨taken, rest, same, allocators, -⟩ := pool.reclaim_spec neededIPs
  have total : ((pool.reclaim neededIPs).1.ipAllocators.map free).sum =
      pool.totalFree + (taken.map free).sum := by
    rw [allocators, map_append, sum_append]
    rfl
  rw [candidates_eq same allocators, map_append, sum_append, Int.natCast_add, total] at few
  rw [candidates_eq same allocators, length_append] at short
  have stays : (pool.releaseExcessCIDRsMultiPool neededIPs).ipAllocators =
      (pool.reclaim neededIPs).1.ipAllocators.reverse := by
    rw [retain_reclaim, retain_of_lt]
    rw [map_reverse, sum_reverse, total]
    omega
  have least := pool.capacity_le_totalFree
  refine ⟨fun _ => mem_release_of_used, fun served => by omega,
    fun ⟨block, member, gone⟩ => absurd ?_ gone, (pool.order_iff neededIPs).mpr ?_⟩
  · obtain ⟨range, inside, rfl⟩ := mem_map.mp member
    rw [inUseCIDRs, stays, allocators]
    exact mem_map_of_mem (mem_reverse.mpr (mem_append_left _ inside))
  · rw [stays, length_reverse]
    omega

theorem keepsBuffer_of_none (none : neededIPs ≤ 0)
    (unused : ∀ range ∈ pool.ipAllocators, range.used = 0) :
    KeepsBuffer neededIPs pool (pool.releaseExcessCIDRsMultiPool neededIPs) := by
  have unchanged : pool.reclaim neededIPs = (pool, pool.totalFree) :=
    if_neg fun few => by omega
  have nothing : (pool.releaseExcessCIDRsMultiPool neededIPs).ipAllocators = [] := by
    rw [retain_reclaim, unchanged, ← append_nil pool.ipAllocators.reverse,
      retain_append_of_spare (by simpa using unused) (by rw [append_nil]; omega)]
    rfl
  refine ⟨fun _ => mem_release_of_used, fun _ => by omega, fun _ => by omega,
    (pool.order_iff neededIPs).mpr ?_⟩
  rw [nothing]
  exact Nat.zero_le 1

theorem Remains.keepsBuffer {before after : List Range}
    (remains : pool.Remains neededIPs before range)
    (place : pool.candidates = before ++ range :: after) :
    KeepsBuffer neededIPs pool (pool.releaseExcessCIDRsMultiPool neededIPs) := by
  have alone := remains.alone place
  have single := capacity_of_single alone
  refine ⟨fun _ => mem_release_of_used, fun some => ?_, fun ⟨block, member, gone⟩ => ?_,
    (pool.order_iff neededIPs).mpr ?_⟩
  · rw [single]
    split
    case isTrue removed =>
      by_contra needed
      have none : pool.capacity = 0 := by
        rw [capacity, filter_eq_nil_iff.mpr, map_nil, sum_nil]
        intro other member
        rw [remains.serves removed (not_le.mp needed) other member]
        simpa using removed
      exact needed (none ▸ some)
    · exact remains.enough
  · rw [single]
    split
    case isTrue removed =>
      by_contra needed
      obtain ⟨other, inside, rfl⟩ := mem_map.mp member
      rw [inUseCIDRs, alone, remains.serves removed (not_le.mp needed) other inside] at gone
      exact gone (.head _)
    · exact remains.enough
  · rw [alone]
    exact Nat.le_refl 1

/-- Releasing keeps the buffer exactly if the pool fits, as the walk leaves the allocators in
reverse order and counts the free addresses of removed CIDRs. -/
theorem keepsBuffer_iff (pool : CidrPool) (neededIPs : Int) :
    KeepsBuffer neededIPs pool (pool.releaseExcessCIDRsMultiPool neededIPs) ↔
      pool.Fits neededIPs := by
  refine ⟨KeepsBuffer.remains, ?_⟩
  rintro (⟨short, few⟩ | ⟨none, unused⟩ | ⟨before, range, after, place, remains⟩)
  · exact keepsBuffer_of_few short few
  · exact keepsBuffer_of_none none unused
  · exact remains.keepsBuffer place

/-- Two advertised CIDRs, both needed, change places; and the one that serves is released in favour
of one that was removed. -/
theorem twoQuads_not_keepsBuffer :
    (¬ KeepsBuffer 4 (quads [1, 2]) ((quads [1, 2]).releaseExcessCIDRsMultiPool 4)) ∧
      ∃ pool, pool = (run Advertised.step (Advertised.initial false false)
          [.updatePool [quad 1], .allocateNext 0, .updatePool [quad 2]]).pool ∧
        1 ≤ pool.capacity ∧ (pool.releaseExcessCIDRsMultiPool 1).capacity = 0 := by
  refine ⟨fun keeps => ?_, _, rfl, by decide +kernel, by decide +kernel⟩
  have order := keeps.order
  revert order
  decide +kernel

end CidrPool

end Constellation.Ipam
