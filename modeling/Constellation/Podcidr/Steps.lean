/-
This file says what the functions of the manager of pod CIDRs can do to the record of the nodes
and to the sets of blocks. All that is proved about runs of the manager is proved from these
descriptions.
-/
import Constellation.Podcidr.Manager

namespace Constellation.Podcidr

open Ipam (Addr CIDR Family)
open Multipool (CidrSet Dual)
open Lib List

theorem forall_family {P : Family → Prop} (v4 : P .ipv4) (v6 : P .ipv6) (family : Family) :
    P family := by
  cases family with
  | ipv4 => exact v4
  | ipv6 => exact v6

namespace Manager

/-! ### The allocation for one family -/

def Outcome.cidrs : Outcome → List CIDR
  | .allocated cidrs _ => cidrs
  | _ => []

variable {outcome : Outcome}

theorem Outcome.record_eq (none : outcome.isAllocated = false) (family : Family) (old : NodeCIDRs) :
    outcome.record family old = old := by
  cases outcome with
  | allocated cidrs stack => cases none
  | skipped | conflict error | failed error => rfl

theorem Outcome.cidrs_eq (none : outcome.isAllocated = false) :
    outcome.cidrs = [] := by
  cases outcome with
  | allocated cidrs stack => cases none
  | skipped | conflict error | failed error => rfl

theorem Outcome.record_of_self (outcome : Outcome) (family : Family) (old : NodeCIDRs)
    (empty : outcome.isAllocated = true → old.of family = []) :
    (outcome.record family old).of family = old.of family ++ outcome.cidrs := by
  cases allocated : outcome.isAllocated with
  | false => rw [record_eq allocated, cidrs_eq allocated, append_nil]
  | true =>
    rw [empty allocated, nil_append]
    cases outcome with
    | allocated cidrs stack => exact Dual.of_set_self old family cidrs
    | skipped | conflict error | failed error => cases allocated

theorem Outcome.record_of_ne (outcome : Outcome) {other : Family} (different : other ≠ family)
    (old : NodeCIDRs) :
    (outcome.record family old).of other = old.of other := by
  cases outcome with
  | allocated cidrs stack =>
    show (old.set family cidrs).of other = _
    rw [Dual.of_set, if_neg different]
  | skipped | conflict error | failed error => rfl

variable {can : Bool} {family : Family} {sets : List CidrSet} {cidrs : List CIDR}

/-- An allocation is skipped if it is not permitted or the family is not configured. -/
theorem attempt_eq_skipped (idle : can = false ∨ sets = []) :
    attempt can family sets cidrs = (sets, .skipped) := by
  unfold attempt
  rw [if_pos]
  rcases idle with rfl | rfl
  · rfl
  · exact Bool.or_true _

/-- An allocation that is not skipped and does not fail either finds a conflict or allocates. -/
theorem attempt_ne_skipped (able : can = true) (configured : sets ≠ []) :
    (∃ error, (attempt can family sets cidrs).2 = .conflict error) ∨
      (∃ error, (attempt can family sets cidrs).2 = .failed error) ∨
      ∃ allocated stack, (attempt can family sets cidrs).2 = .allocated allocated stack ∧
        allocated ≠ [] := by
  have rejected : ∀ error : AllocError,
      (∃ e, (if error.isConflict then Outcome.conflict error else .failed error) = .conflict e) ∨
      (∃ e, (if error.isConflict then Outcome.conflict error else .failed error) = .failed e) := by
    intro error
    split
    · exact .inl ⟨error, rfl⟩
    · exact .inr ⟨error, rfl⟩
  unfold attempt
  rw [able, Bool.not_true, Bool.false_or, if_neg (by rwa [List.isEmpty_iff])]
  split
  · split
    case h_1 error _ => exact (rejected error).imp_right .inl
    case h_2 cidr position later _ =>
      exact .inr (.inr ⟨[cidr], _, rfl, cons_ne_nil _ _⟩)
  case isFalse asked =>
    split
    case h_1 later error _ => exact (rejected error).imp_right .inl
    case h_2 later stack _ =>
      exact .inr (.inr ⟨cidrs, stack, rfl, by rwa [List.isEmpty_iff] at asked⟩)

/-! ### Reusing CIDRs -/

variable (n : Manager) (nodeName : String) (requested : NodeCIDRs) {node : String}

def attemptOf (family : Family) : List CidrSet × Outcome :=
  attempt (n.canAllocate (n.nodes.lookup nodeName) family) family (n.allocators.of family)
    (requested.of family)

def recordOf : NodeCIDRs := (n.nodes.lookup nodeName).getD NodeCIDRs.empty

def owned (n : Manager) (family : Family) (node : String) : List CIDR :=
  ((n.nodes.lookup node).map (Dual.of · family)).getD []

section Owned

variable {n later : Manager} {nodeName : String}

theorem owned_of_lookup {record : NodeCIDRs} (found : n.nodes.lookup nodeName = some record)
    (family : Family) : n.owned family nodeName = record.of family := by
  rw [owned, found]
  rfl

theorem owned_congr (same : later.nodes.lookup node = n.nodes.lookup node) (family : Family) :
    later.owned family node = n.owned family node := by
  rw [owned, owned, same]

theorem mem_owned {cidr : CIDR} :
    cidr ∈ n.owned family node ↔
      ∃ record, n.nodes.lookup node = some record ∧ cidr ∈ record.of family := by
  unfold owned
  cases n.nodes.lookup node with
  | none => exact iff_of_false not_mem_nil fun ⟨_, found, _⟩ => nomatch found
  | some record => exact ⟨fun member => ⟨record, rfl, member⟩, fun ⟨_, rfl, member⟩ => member⟩

theorem recordOf_of (n : Manager) (nodeName : String) (family : Family) :
    (n.recordOf nodeName).of family = n.owned family nodeName := by
  unfold recordOf owned
  cases n.nodes.lookup nodeName with
  | some record => rfl
  | none =>
    cases family with
    | ipv4 | ipv6 => rfl

end Owned

/-- Nothing is allocated for a family that is not configured, or of which the node has CIDRs. -/
theorem attemptOf_able (tried : (n.attemptOf nodeName requested family).2 ≠ .skipped) :
    n.owned family nodeName = [] ∧ n.allocators.of family ≠ [] := by
  have able : n.canAllocate (n.nodes.lookup nodeName) family = true ∧
      n.allocators.of family ≠ [] := by
    by_contra idle
    rw [not_and_or, Bool.not_eq_true, ne_eq, not_not] at idle
    exact tried (congrArg Prod.snd (attempt_eq_skipped idle))
  refine ⟨?_, able.2⟩
  have can := able.1
  unfold canAllocate at can
  unfold owned
  cases found : n.nodes.lookup nodeName with
  | none => rfl
  | some record =>
    rw [found, Bool.and_eq_true, List.isEmpty_iff] at can
    exact can.1

theorem attemptOf_isAllocated
    (allocated : (n.attemptOf nodeName requested family).2.isAllocated = true) :
    n.owned family nodeName = [] ∧ n.allocators.of family ≠ [] := by
  refine n.attemptOf_able nodeName requested fun skipped => ?_
  rw [skipped] at allocated
  cases allocated

/-- For a node without a record, something comes of the allocation for a configured family. -/
theorem attemptOf_of_missing (missing : n.nodes.lookup nodeName = none)
    (configured : n.allocators.of family ≠ []) :
    (∃ error, (n.attemptOf nodeName requested family).2 = .conflict error) ∨
      (∃ error, (n.attemptOf nodeName requested family).2 = .failed error) ∨
      (n.attemptOf nodeName requested family).2.cidrs ≠ [] := by
  have able : n.canAllocate (n.nodes.lookup nodeName) family = true := by
    rw [missing]
    rfl
  rcases attempt_ne_skipped able configured with conflict | failed | ⟨cidrs, stack, isOutcome, some⟩
  · exact .inl conflict
  · exact .inr (.inl failed)
  · refine .inr (.inr ?_)
    rw [attemptOf, isOutcome]
    exact some

def recordAfter : NodeCIDRs :=
  (attemptOf n nodeName requested .ipv6).2.record .ipv6
    ((attemptOf n nodeName requested .ipv4).2.record .ipv4 (n.recordOf nodeName))

theorem recordAfter_of (family : Family) : (n.recordAfter nodeName requested).of family =
    n.owned family nodeName ++ (attemptOf n nodeName requested family).2.cidrs := by
  have empty : ∀ family, (n.attemptOf nodeName requested family).2.isAllocated = true →
      (n.recordOf nodeName).of family = [] := by
    intro family allocated
    rw [recordOf_of]
    exact (n.attemptOf_isAllocated nodeName requested allocated).1
  unfold recordAfter
  cases family with
  | ipv4 =>
    have different : Family.ipv4 ≠ Family.ipv6 := nofun
    rw [Outcome.record_of_ne _ different, Outcome.record_of_self _ _ _ (empty _), recordOf_of]
  | ipv6 =>
    have same := fun outcome : Outcome =>
      @Outcome.record_of_ne .ipv4 outcome .ipv6 nofun (n.recordOf nodeName)
    rw [Outcome.record_of_self, same, recordOf_of]
    rw [same]
    exact empty _

inductive Reuses (later : Manager) : Prop
  | rejected (same : later = n)
  /-- The allocation for IPv4 fails. -/
  | failed4 (error : AllocError) (fails : (attemptOf n nodeName requested .ipv4).2 = .failed error)
      (allocators : later.allocators = ⟨(attemptOf n nodeName requested .ipv4).1, n.allocators.v6⟩)
      (lookup : ∀ node, later.nodes.lookup node = n.nodes.lookup node)
  /-- The allocation for IPv6 fails, and that for IPv4 is reverted. -/
  | failed6 (error : AllocError) (fails : (attemptOf n nodeName requested .ipv6).2 = .failed error)
      (allocators : later.allocators =
        ⟨(attemptOf n nodeName requested .ipv4).2.revert (attemptOf n nodeName requested .ipv4).1,
          (attemptOf n nodeName requested .ipv6).1⟩)
      (lookup : ∀ node, later.nodes.lookup node =
        if node = nodeName ∧ nodeName ∈ n.nodes then
          some ((attemptOf n nodeName requested .ipv4).2.record .ipv4 (n.recordOf nodeName))
        else n.nodes.lookup node)
  /-- Both families find a conflict. -/
  | conflicts (error4 error6 : AllocError)
      (conflict4 : (attemptOf n nodeName requested .ipv4).2 = .conflict error4)
      (conflict6 : (attemptOf n nodeName requested .ipv6).2 = .conflict error6)
      (allocators : later.allocators =
        ⟨(attemptOf n nodeName requested .ipv4).1, (attemptOf n nodeName requested .ipv6).1⟩)
      (lookup : ∀ node, later.nodes.lookup node = n.nodes.lookup node)
  /-- What has been allocated is recorded. -/
  | recorded (fine4 : ∀ error, (attemptOf n nodeName requested .ipv4).2 ≠ .failed error)
      (fine6 : ∀ error, (attemptOf n nodeName requested .ipv6).2 ≠ .failed error)
      (notBoth : ∀ error4 error6, (attemptOf n nodeName requested .ipv4).2 = .conflict error4 →
        (attemptOf n nodeName requested .ipv6).2 ≠ .conflict error6)
      (allocators : later.allocators =
        ⟨(attemptOf n nodeName requested .ipv4).1, (attemptOf n nodeName requested .ipv6).1⟩)
      (lookup : ∀ node, later.nodes.lookup node =
        if node = nodeName then some (n.recordAfter nodeName requested)
        else n.nodes.lookup node)

theorem lookup_share (cidrs : NodeCIDRs) (node : String) :
    (n.share nodeName cidrs).nodes.lookup node =
      if node = nodeName ∧ nodeName ∈ n.nodes then some cidrs else n.nodes.lookup node := by
  unfold share
  split
  case isTrue member =>
    rw [GoMap.lookup_insert_if]
    simp only [member, and_true]
  case isFalse missing => rw [if_neg fun both => missing both.2]

variable (sets4 sets6 : List CidrSet) (record4 record : NodeCIDRs)

/-- The manager after the allocations for both families, with the changes of a record that is in the
map. -/
def shared : Manager :=
  (((n.withSets .ipv4 sets4).share nodeName record4).withSets .ipv6 sets6).share nodeName record

theorem shared_eq : n.shared nodeName sets4 sets6 record4 record =
    { n.share nodeName record with allocators := ⟨sets4, sets6⟩ } := by
  unfold shared share
  by_cases present : nodeName ∈ n.nodes
  · simp [present, withSets, Dual.set]
  · simp [present, withSets, Dual.set]

theorem allocators_shared :
    (n.shared nodeName sets4 sets6 record4 record).allocators = ⟨sets4, sets6⟩ := by
  rw [shared_eq]

theorem lookup_shared (node : String) :
    (n.shared nodeName sets4 sets6 record4 record).nodes.lookup node =
      if node = nodeName ∧ nodeName ∈ n.nodes then some record else n.nodes.lookup node := by
  rw [shared_eq]
  exact n.lookup_share nodeName record node

theorem Outcome.conflict?_eq_some {error : AllocError} :
    outcome.conflict? = some error ↔ outcome = .conflict error := by
  cases outcome with
  | conflict other =>
    rw [Outcome.conflict?, Option.some_inj, Outcome.conflict.injEq]
  | skipped | failed other | allocated cidrs stack => exact iff_of_false nofun nofun

theorem reuseIPNets_reuses : Reuses n nodeName requested (n.reuseIPNets nodeName requested).1 := by
  unfold reuseIPNets
  dsimp only
  split
  case h_1 error _ => exact .rejected rfl
  · split
    case h_1 error fails => exact .failed4 error fails rfl fun node => rfl
    case h_2 fine4 =>
      split
      case h_1 error fails =>
        exact .failed6 error fails rfl fun node => lookup_share (n.withSets .ipv4 _) nodeName _ node
      case h_2 fine6 =>
        split
        case h_1 error4 error6 conflict4 conflict6 =>
          rw [Outcome.conflict?_eq_some] at conflict4 conflict6
          refine .conflicts error4 error6 conflict4 conflict6
            (allocators_shared n nodeName _ _ _ _) fun node => ?_
          refine (lookup_shared n nodeName _ _ _ _ node).trans ?_
          rw [conflict4, conflict6]
          split
          case isTrue both =>
            obtain ⟨record, found⟩ := GoMap.lookup_of_mem both.2
            rw [both.1, found]
            rfl
          · rfl
        case h_2 notBoth =>
          have notConflicts : ∀ error4 error6,
              (attemptOf n nodeName requested .ipv4).2 = .conflict error4 →
              (attemptOf n nodeName requested .ipv6).2 ≠ .conflict error6 := by
            intro error4 error6 conflict4 conflict6
            exact notBoth error4 error6 (Outcome.conflict?_eq_some.mpr conflict4)
              (Outcome.conflict?_eq_some.mpr conflict6)
          have lookup : ∀ record : NodeCIDRs, ∀ node, AList.lookup node
              ((n.shared nodeName (attemptOf n nodeName requested .ipv4).1
                (attemptOf n nodeName requested .ipv6).1
                ((attemptOf n nodeName requested .ipv4).2.record .ipv4 (n.recordOf nodeName))
                record).nodes.insert nodeName record) =
              if node = nodeName then some record else n.nodes.lookup node := by
            intro record node
            rw [GoMap.lookup_insert_if, lookup_shared]
            by_cases same : node = nodeName
            · rw [if_pos same, if_pos same]
            · rw [if_neg same, if_neg same, if_neg fun both => same both.1]
          split <;>
            exact .recorded fine4 fine6 notConflicts (allocators_shared n nodeName _ _ _ _)
              (lookup _)

@[simp]
theorem canAllocatePodCIDRs_share (cidrs : NodeCIDRs) :
    (n.share nodeName cidrs).canAllocatePodCIDRs = n.canAllocatePodCIDRs := by
  unfold share
  split
  · rfl
  · rfl

theorem canAllocatePodCIDRs_shared :
    (n.shared nodeName sets4 sets6 record4 record).canAllocatePodCIDRs = n.canAllocatePodCIDRs := by
  rw [shared_eq]
  exact n.canAllocatePodCIDRs_share nodeName record

theorem canAllocatePodCIDRs_reuseIPNets :
    (n.reuseIPNets nodeName requested).1.canAllocatePodCIDRs = n.canAllocatePodCIDRs := by
  unfold reuseIPNets
  dsimp only
  split
  · rfl
  · split
    · rfl
    · split
      · exact canAllocatePodCIDRs_share _ _ _
      · split
        · exact canAllocatePodCIDRs_shared n nodeName _ _ _ _
        · split <;> exact canAllocatePodCIDRs_shared n nodeName _ _ _ _

/-! ### Upserts -/

theorem canAllocatePodCIDRs_allocateNext :
    (n.allocateNext nodeName).1.canAllocatePodCIDRs = n.canAllocatePodCIDRs := by
  unfold allocateNext
  split
  · rfl
  · split
    · rfl
    · split
      · rfl
      · split
        · rfl
        · rfl

/-- Two managers with the same record of the nodes and the same sets. -/
structure SameRecords (later : Manager) : Prop where
  nodes : later.nodes = n.nodes
  allocators : later.allocators = n.allocators
  canAllocatePodCIDRs : later.canAllocatePodCIDRs = n.canAllocatePodCIDRs

/-- An upsert does what one of the two allocation functions does, or nothing. -/
theorem upsertLocked_source (node : CiliumNode) :
    ∃ source : Manager, SameRecords source (n.upsertLocked node) ∧
      (source = n ∨ source = (n.allocateNext node.name).1 ∨
        source = (n.reuseIPNets node.name (splitPodCIDRs node.podCIDRs)).1) := by
  have synced : ∃ source : Manager, SameRecords source (n.allocateNode node).1 ∧
      (source = n ∨ source = (n.allocateNext node.name).1 ∨
        source = (n.reuseIPNets node.name (splitPodCIDRs node.podCIDRs)).1) := by
    unfold allocateNode
    split
    · split
      · exact ⟨n, ⟨rfl, rfl, rfl⟩, .inl rfl⟩
      · split
        case h_1 later error done =>
          exact ⟨_, ⟨rfl, rfl, rfl⟩, .inr (.inl (congrArg Prod.fst done).symm)⟩
        case h_2 later cidrs allocated done =>
          exact ⟨_, ⟨rfl, rfl, rfl⟩, .inr (.inl (congrArg Prod.fst done).symm)⟩
    · split
      case h_1 later error done =>
        exact ⟨_, ⟨rfl, rfl, rfl⟩, .inr (.inr (congrArg Prod.fst done).symm)⟩
      case h_2 later cidrs allocated done =>
        refine ⟨later, ?_, .inr (.inr (congrArg Prod.fst done).symm)⟩
        split
        · exact ⟨rfl, rfl, rfl⟩
        · split
          · exact ⟨rfl, rfl, rfl⟩
          · split
            · exact ⟨rfl, rfl, rfl⟩
            · exact ⟨rfl, rfl, rfl⟩
  obtain ⟨source, same, isSource⟩ := synced
  refine ⟨source, ?_, isSource⟩
  have after : SameRecords (n.allocateNode node).1 (n.upsertLocked node) := by
    unfold upsertLocked
    split
    case h_1 later done =>
      rw [done]
      exact ⟨rfl, rfl, rfl⟩
    case h_2 later object done =>
      rw [done]
      split
      · split <;> exact ⟨rfl, rfl, rfl⟩
      · exact ⟨rfl, rfl, rfl⟩
    case h_3 later object done =>
      rw [done]
      split <;> exact ⟨rfl, rfl, rfl⟩
  exact ⟨after.nodes.trans same.nodes, after.allocators.trans same.allocators,
    after.canAllocatePodCIDRs.trans same.canAllocatePodCIDRs⟩

theorem delete_source (node : CiliumNode) :
    ∃ source : Manager, SameRecords n source ∧
      SameRecords (source.releaseIPNets node.name).1 (n.delete node) := by
  have start : SameRecords n (if !n.canAllocatePodCIDRs then
      { n with nodesToAllocate := n.nodesToAllocate.erase node.name } else n) := by
    split <;> exact ⟨rfl, rfl, rfl⟩
  refine ⟨_, start, ?_⟩
  unfold delete
  dsimp only
  rcases Manager.releaseIPNets _ node.name with ⟨later, _ | _⟩
  · exact ⟨rfl, rfl, rfl⟩
  · exact ⟨rfl, rfl, rfl⟩

end Manager

end Constellation.Podcidr
