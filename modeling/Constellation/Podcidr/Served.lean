/-
This file proves when a node that asks for no CIDR gets its CIDRs: after the first resync, and
while every configured family has a set that is not full, exactly if the node has no record or its
record has CIDRs of every configured family. A conflict leaves a record without CIDRs, which is
then taken for an allocation that has been made.
-/
import Constellation.Podcidr.Unique

namespace Constellation.Podcidr

open Ipam (Addr CIDR Family)
open Multipool (CidrSet Dual)
open Lib List Manager

/-! ### The family of a set and of its blocks -/

def OfFamily (family : Family) (sets : List CidrSet) : Prop :=
  ∀ set ∈ sets, set.clusterPrefix.addr.family = family

variable {family : Family} {sets later : List CidrSet} {cidr : CIDR} {position : Nat}

theorem clusterPrefix_foldl {step : CidrSet → Nat → CidrSet}
    (same : ∀ set index, (step set index).clusterPrefix = set.clusterPrefix) (set : CidrSet)
    (indices : List Nat) : (indices.foldl step set).clusterPrefix = set.clusterPrefix := by
  induction indices generalizing set with
  | nil => rfl
  | cons index rest inductionHypothesis => rw [foldl_cons, inductionHypothesis, same]

theorem clusterPrefix_occupyIndex (set : CidrSet) (index : Nat) :
    (set.occupyIndex index).clusterPrefix = set.clusterPrefix := by
  unfold CidrSet.occupyIndex
  split <;> rfl

theorem clusterPrefix_releaseIndex (set : CidrSet) (index : Nat) :
    (set.releaseIndex index).clusterPrefix = set.clusterPrefix := by
  unfold CidrSet.releaseIndex
  split <;> rfl

section

variable {set next : CidrSet}

theorem clusterPrefix_occupy (occupied : set.occupy cidr = some next) :
    next.clusterPrefix = set.clusterPrefix := by
  obtain ⟨bounds, _, rfl⟩ := Option.map_eq_some_iff.mp occupied
  exact clusterPrefix_foldl clusterPrefix_occupyIndex set _

theorem clusterPrefix_release (released : set.release cidr = some next) :
    next.clusterPrefix = set.clusterPrefix := by
  obtain ⟨bounds, _, rfl⟩ := Option.map_eq_some_iff.mp released
  exact clusterPrefix_foldl clusterPrefix_releaseIndex set _

theorem clusterPrefix_releaseIn (set : CidrSet) (cidr : CIDR) :
    (releaseIn cidr set).clusterPrefix = set.clusterPrefix := by
  unfold releaseIn
  cases released : set.release cidr with
  | none => rfl
  | some next => exact clusterPrefix_release released

theorem allocateNext_eq (allocated : set.allocateNext = .ok (cidr, next)) :
    cidr.addr.family = set.clusterPrefix.addr.family ∧
      next.clusterPrefix = set.clusterPrefix := by
  unfold CidrSet.allocateNext at allocated
  split at allocated
  · cases allocated
  · cases allocated
    exact ⟨rfl, rfl⟩

end

namespace OfFamily

section

variable (ofFamily : OfFamily family sets)
include ofFamily

theorem set {old next : CidrSet}
    (found : sets[position]? = some old) (same : next.clusterPrefix = old.clusterPrefix) :
    OfFamily family (sets.set position next) := by
  intro other member
  rcases mem_or_eq_of_mem_set member with earlier | rfl
  · exact ofFamily other earlier
  · rw [same]
    exact ofFamily old (mem_of_getElem? found)

theorem revert (stack : RevertStack) :
    OfFamily family (stack.revert sets) := by
  induction stack generalizing sets with
  | nil => exact ofFamily
  | cons entry rest inductionHypothesis =>
    refine @inductionHypothesis (sets.modify entry.1 (releaseIn entry.2)) ?_
    rw [modify_eq_set_getElem?]
    cases found : sets[entry.1]? with
    | none => exact ofFamily
    | some old => exact ofFamily.set found (clusterPrefix_releaseIn old entry.2)

theorem releaseFirst (cidr : CIDR) :
    OfFamily family (releaseFirst cidr sets) := by
  induction sets with
  | nil => exact ofFamily
  | cons first rest inductionHypothesis =>
    obtain ⟨own, others⟩ := forall_mem_cons.mp ofFamily
    unfold Podcidr.releaseFirst
    split
    · exact forall_mem_cons.mpr ⟨own, inductionHypothesis others⟩
    · split
      · exact forall_mem_cons.mpr ⟨own, inductionHypothesis others⟩
      case h_2 next released =>
        refine forall_mem_cons.mpr ⟨?_, others⟩
        rw [clusterPrefix_release released]
        exact own

theorem releaseCIDRs (cidrs : List CIDR) :
    OfFamily family (releaseCIDRs sets cidrs) := by
  induction cidrs generalizing sets with
  | nil => exact ofFamily
  | cons cidr rest inductionHypothesis => exact inductionHypothesis (ofFamily.releaseFirst cidr)

theorem occupyAll (cidrs : List CIDR) (stack : RevertStack) :
    OfFamily family (occupyAll cidrs sets stack).1 := by
  induction cidrs generalizing sets stack with
  | nil => exact ofFamily
  | cons cidr rest inductionHypothesis =>
    unfold Podcidr.occupyAll
    split
    · exact ofFamily.revert stack
    case h_2 position later done =>
      obtain ⟨set, next, found, _, _, occupied, rfl⟩ := occupyFirst_ok done
      exact inductionHypothesis (ofFamily.set found (clusterPrefix_occupy occupied)) _

theorem allocateFirstFreeCIDR (done : allocateFirstFreeCIDR sets = .ok (cidr, position, later)) :
    OfFamily family later ∧ cidr.addr.family = family := by
  obtain ⟨set, next, found, _, allocated, rfl⟩ := allocateFirstFreeCIDR_ok done
  obtain ⟨isFamily, same⟩ := allocateNext_eq allocated
  refine ⟨ofFamily.set found same, ?_⟩
  rw [isFamily]
  exact ofFamily set (mem_of_getElem? found)

end

theorem exists_allocateFirstFreeCIDR (room : ∃ set ∈ sets, set.isFull = false) :
    ∃ cidr position later, Podcidr.allocateFirstFreeCIDR sets = .ok (cidr, position, later) := by
  induction sets with
  | nil =>
    obtain ⟨set, member, _⟩ := room
    cases member
  | cons first rest inductionHypothesis =>
    unfold Podcidr.allocateFirstFreeCIDR
    cases full : first.isFull with
    | true =>
      obtain ⟨set, member, notFull⟩ := room
      have inRest : set ∈ rest := by
        rcases mem_cons.mp member with rfl | inRest
        · rw [full] at notFull
          cases notFull
        · exact inRest
      obtain ⟨cidr, position, later, done⟩ := inductionHypothesis ⟨set, inRest, notFull⟩
      exact ⟨cidr, position + 1, first :: later, by rw [done]; rfl⟩
    | false =>
      have allocated : ∃ cidr next, first.allocateNext = .ok (cidr, next) := by
        unfold CidrSet.allocateNext
        rw [full, if_neg Bool.false_ne_true]
        exact ⟨_, _, rfl⟩
      obtain ⟨cidr, next, allocated⟩ := allocated
      exact ⟨cidr, 0, next :: rest, by rw [allocated]; rfl⟩

end OfFamily

/-! ### The family of the recorded CIDRs -/

namespace Manager

def SortedRecord (record : NodeCIDRs) : Prop :=
  ∀ family, ∀ cidr ∈ record.of family, cidr.addr.family = family

/-- Sets and recorded CIDRs stand under their own family. -/
structure Sorted (n : Manager) : Prop where
  sets : ∀ family, OfFamily family (n.allocators.of family)
  records : ∀ node record, n.nodes.lookup node = some record → SortedRecord record

variable {n : Manager} {nodeName : String} {requested : NodeCIDRs} {cidrs : List CIDR} {can : Bool}
  {stack : RevertStack}

theorem attempt_ofFamily (ofFamily : OfFamily family sets)
    (asked : ∀ cidr ∈ cidrs, cidr.addr.family = family) :
    OfFamily family (attempt can family sets cidrs).1 ∧
      ∀ cidr ∈ (attempt can family sets cidrs).2.cidrs, cidr.addr.family = family := by
  have rejected : ∀ error : AllocError,
      (if error.isConflict then Outcome.conflict error else .failed error).cidrs = [] := by
    intro error
    split <;> rfl
  unfold attempt
  split
  · exact ⟨ofFamily, forall_mem_nil _⟩
  case isFalse able =>
    rw [Bool.or_eq_true, not_or] at able
    split
    · split
      case h_1 error _ =>
        rw [rejected]
        exact ⟨ofFamily, forall_mem_nil _⟩
      case h_2 cidr position later done =>
        obtain ⟨after, isFamily⟩ := ofFamily.allocateFirstFreeCIDR done
        exact ⟨after, forall_mem_singleton.mpr isFamily⟩
    · have after := ofFamily.occupyAll cidrs []
      rw [allocateIPNet, if_neg able.2]
      rcases result : Podcidr.occupyAll cidrs sets [] with ⟨later, error | final⟩
      · rw [result] at after
        rw [rejected]
        exact ⟨after, forall_mem_nil _⟩
      · rw [result] at after
        exact ⟨after, asked⟩

theorem allocateFree_ofFamily (ofFamily : OfFamily family sets)
    (done : allocateFree sets = .ok (cidrs, stack, later)) :
    OfFamily family later ∧ ∀ cidr ∈ cidrs, cidr.addr.family = family := by
  unfold allocateFree at done
  split at done
  · cases done
    exact ⟨ofFamily, forall_mem_nil _⟩
  · obtain ⟨result, first, returned⟩ := ok_of_bind done
    cases returned
    obtain ⟨after, isFamily⟩ := ofFamily.allocateFirstFreeCIDR first
    exact ⟨after, forall_mem_singleton.mpr isFamily⟩

theorem SortedRecord.empty : SortedRecord NodeCIDRs.empty :=
  forall_family (forall_mem_nil _) (forall_mem_nil _)

theorem SortedRecord.record {old : NodeCIDRs} (sorted : SortedRecord old) {outcome : Outcome}
    (isFamily : ∀ cidr ∈ outcome.cidrs, cidr.addr.family = family) :
    SortedRecord (outcome.record family old) := by
  cases outcome with
  | allocated cidrs stack =>
    intro other
    show ∀ cidr ∈ (old.set family cidrs).of other, _
    rw [Dual.of_set]
    split
    case isTrue same =>
      rw [same]
      exact isFamily
    · exact sorted other
  | skipped | conflict error | failed error => exact sorted

theorem Sorted.recordOf (sorted : Sorted n) (nodeName : String) :
    SortedRecord (n.recordOf nodeName) := by
  unfold Manager.recordOf
  cases found : n.nodes.lookup nodeName with
  | none => exact .empty
  | some record => exact sorted.records nodeName record found

variable {record : NodeCIDRs} {later : Manager}

theorem Sorted.write (sorted : Sorted n)
    (isSorted : SortedRecord record) {written : String → Prop} [DecidablePred written]
    (sets : ∀ family, OfFamily family (later.allocators.of family))
    (lookup : ∀ node, later.nodes.lookup node =
      if written node then some record else n.nodes.lookup node) : Sorted later := by
  refine ⟨sets, fun node other found => ?_⟩
  rw [lookup] at found
  split at found
  · cases found
    exact isSorted
  · exact sorted.records node other found

theorem Sorted.keep (sorted : Sorted n)
    (sets : ∀ family, OfFamily family (later.allocators.of family))
    (lookup : ∀ node, later.nodes.lookup node = n.nodes.lookup node) : Sorted later :=
  ⟨sets, fun node record found => sorted.records node record ((lookup node).symm.trans found)⟩

theorem Sorted.sameRecords (sorted : Sorted n) (same : SameRecords n later) : Sorted later := by
  refine sorted.keep ?_ fun name => by rw [same.nodes]
  rw [same.allocators]
  exact sorted.sets

theorem Outcome.revert_ofFamily (ofFamily : OfFamily family sets) (outcome : Outcome) :
    OfFamily family (outcome.revert sets) := by
  cases outcome with
  | allocated cidrs stack => exact ofFamily.revert stack
  | skipped | conflict error | failed error => exact ofFamily

section

variable (sorted : Sorted n)
include sorted

theorem reuseIPNets_sorted
    (asked : ∀ family, ∀ cidr ∈ requested.of family, cidr.addr.family = family) :
    Sorted (n.reuseIPNets nodeName requested).1 := by
  have after : ∀ family, OfFamily family (n.attemptOf nodeName requested family).1 ∧
      ∀ cidr ∈ (n.attemptOf nodeName requested family).2.cidrs, cidr.addr.family = family :=
    fun family => attempt_ofFamily (sorted.sets family) (asked family)
  have isSorted4 := (sorted.recordOf nodeName).record (after .ipv4).2
  have isSorted : SortedRecord (n.recordAfter nodeName requested) :=
    isSorted4.record (after .ipv6).2
  rcases n.reuseIPNets_reuses nodeName requested with same |
    ⟨error, fails, allocators, lookup⟩ | ⟨error, fails, allocators, lookup⟩ |
    ⟨error4, error6, conflict4, conflict6, allocators, lookup⟩ |
    ⟨fine4, fine6, notBoth, allocators, lookup⟩
  · rw [same]
    exact sorted
  · refine sorted.keep ?_ lookup
    rw [allocators]
    exact forall_family (after .ipv4).1 (sorted.sets .ipv6)
  · refine sorted.write isSorted4 ?_ lookup
    rw [allocators]
    exact forall_family (Outcome.revert_ofFamily (after .ipv4).1 _) (after .ipv6).1
  · refine sorted.keep ?_ lookup
    rw [allocators]
    exact forall_family (after .ipv4).1 (after .ipv6).1
  · refine sorted.write isSorted ?_ lookup
    rw [allocators]
    exact forall_family (after .ipv4).1 (after .ipv6).1

theorem allocateNext_sorted : Sorted (n.allocateNext nodeName).1 := by
  unfold allocateNext
  split
  · exact sorted
  · split
    · exact sorted
    case h_2 cidrs4 stack4 sets4 done4 =>
      obtain ⟨after4, isFamily4⟩ := allocateFree_ofFamily (sorted.sets .ipv4) done4
      split
      · exact sorted.keep (forall_family (after4.revert stack4) (sorted.sets .ipv6))
          fun node => rfl
      case h_2 cidrs6 stack6 sets6 done6 =>
        obtain ⟨after6, isFamily6⟩ := allocateFree_ofFamily (sorted.sets .ipv6) done6
        have sets : ∀ family, OfFamily family (Dual.of ⟨sets4, sets6⟩ family) :=
          forall_family after4 after6
        have isSorted : SortedRecord ⟨cidrs4, cidrs6⟩ := forall_family isFamily4 isFamily6
        split
        · exact sorted.keep sets fun node => rfl
        · exact sorted.write isSorted sets fun node => GoMap.lookup_insert_if _ _ _ _

theorem upsertLocked_sorted (node : CiliumNode) : Sorted (n.upsertLocked node) := by
  obtain ⟨source, same, isSource⟩ := n.upsertLocked_source node
  have sortedSource : Sorted source := by
    rcases isSource with rfl | rfl | rfl
    · exact sorted
    · exact allocateNext_sorted sorted
    · refine reuseIPNets_sorted sorted fun family cidr member => ?_
      obtain ⟨cidr, _, rfl, isFamily⟩ := mem_splitPodCIDRs member
      exact isFamily
  exact sortedSource.sameRecords same

theorem delete_sorted (node : CiliumNode) : Sorted (n.delete node) := by
  obtain ⟨source, start, after⟩ := n.delete_source node
  have sortedSource := sorted.sameRecords start
  refine Sorted.sameRecords ?_ after
  unfold releaseIPNets
  split
  · exact sortedSource
  case h_2 record found =>
    refine ⟨?_, fun name other isOther => ?_⟩
    · exact forall_family ((sortedSource.sets .ipv4).releaseCIDRs record.v4)
        ((sortedSource.sets .ipv6).releaseCIDRs record.v6)
    · rw [GoMap.lookup_erase_if] at isOther
      split at isOther
      · cases isOther
      · exact sortedSource.records name other isOther

end

theorem foldl_upsertLocked_sorted (waiting : List CiliumNode) (sorted : Sorted n) :
    Sorted (waiting.foldl upsertLocked n) := by
  induction waiting generalizing n with
  | nil => exact sorted
  | cons node rest inductionHypothesis =>
    exact inductionHypothesis (upsertLocked_sorted sorted node)

theorem handle_sorted (order : IterationOrder) (sorted : Sorted n) (event : Event) :
    Sorted (n.handle order event) := by
  cases event with
  | upsert node => exact upsertLocked_sorted sorted node
  | delete node => exact delete_sorted sorted node
  | resync =>
    show Sorted (n.resync order)
    unfold resync
    split
    · exact sorted
    · have start : Sorted { n with canAllocatePodCIDRs := true } := ⟨sorted.sets, sorted.records⟩
      have after := foldl_upsertLocked_sorted
        ((order.visit 0 n.nodesToAllocate.entries).map (·.2)) start
      exact ⟨after.sets, after.records⟩

/-! ### After the first resync -/

theorem canAllocatePodCIDRs_upsertLocked (n : Manager) (node : CiliumNode) :
    (n.upsertLocked node).canAllocatePodCIDRs = n.canAllocatePodCIDRs := by
  obtain ⟨source, same, isSource⟩ := n.upsertLocked_source node
  rw [same.canAllocatePodCIDRs]
  rcases isSource with rfl | rfl | rfl
  · rfl
  · exact n.canAllocatePodCIDRs_allocateNext node.name
  · exact n.canAllocatePodCIDRs_reuseIPNets node.name _

theorem canAllocatePodCIDRs_foldl (n : Manager) (waiting : List CiliumNode) :
    (waiting.foldl upsertLocked n).canAllocatePodCIDRs = n.canAllocatePodCIDRs := by
  induction waiting generalizing n with
  | nil => rfl
  | cons node rest inductionHypothesis =>
    rw [foldl_cons, inductionHypothesis, canAllocatePodCIDRs_upsertLocked]

theorem canAllocatePodCIDRs_delete (n : Manager) (node : CiliumNode) :
    (n.delete node).canAllocatePodCIDRs = n.canAllocatePodCIDRs := by
  obtain ⟨source, start, after⟩ := n.delete_source node
  rw [after.canAllocatePodCIDRs, ← start.canAllocatePodCIDRs]
  unfold releaseIPNets
  split <;> rfl

theorem canAllocatePodCIDRs_resync (n : Manager) (order : IterationOrder) :
    (n.resync order).canAllocatePodCIDRs = true := by
  unfold resync
  split
  case isTrue can => exact can
  · exact canAllocatePodCIDRs_foldl _ _

theorem canAllocatePodCIDRs_handle (order : IterationOrder) {event : Event}
    (can : n.canAllocatePodCIDRs = true ∨ .resync = event) :
    (n.handle order event).canAllocatePodCIDRs = true := by
  cases event with
  | resync => exact canAllocatePodCIDRs_resync n order
  | upsert node => exact (canAllocatePodCIDRs_upsertLocked n node).trans (can.resolve_right nofun)
  | delete node => exact (canAllocatePodCIDRs_delete n node).trans (can.resolve_right nofun)

/-- Allocations are allowed from the first resync on. -/
theorem canAllocatePodCIDRs_run (order : IterationOrder) {events : List Event}
    (resynced : n.canAllocatePodCIDRs = true ∨ .resync ∈ events) :
    (run (handle order) n events).canAllocatePodCIDRs = true := by
  induction events generalizing n with
  | nil => exact resynced.resolve_right not_mem_nil
  | cons event rest inductionHypothesis =>
    rw [mem_cons, ← or_assoc] at resynced
    exact inductionHypothesis (resynced.imp_left (canAllocatePodCIDRs_handle order))

/-! ### Nodes that ask for nothing -/

/-- The node object that is queued has one CIDR for each configured family of which the node had
none, and is not without CIDRs. -/
def Served (n : Manager) (node : CiliumNode) : Prop :=
  ∃ op object, (n.upsertLocked node).ciliumNodesToK8s.lookup node.name = some (op, some object) ∧
    object.podCIDRs ≠ [] ∧
    ∀ family, n.allocators.of family ≠ [] → n.owned family node.name = [] →
      (object.podCIDRs.filter fun cidr => cidr.addr.family = family).length = 1

/-- The node has no record, or one with CIDRs of every configured family. -/
def Complete (n : Manager) (nodeName : String) : Prop :=
  ∀ record, n.nodes.lookup nodeName = some record → ∀ family, n.allocators.of family ≠ [] →
    record.of family ≠ []

variable {node : CiliumNode}

/-- What is queued for a node that asks for nothing. -/
theorem lookup_upsertLocked {cidrs : NodeCIDRs} {fresh : Bool}
    (can : n.canAllocatePodCIDRs = true) (asksNothing : node.podCIDRs = [])
    (allocated : n.allocateNext node.name = (later, .ok (cidrs, fresh))) :
    ∃ op, (n.upsertLocked node).ciliumNodesToK8s.lookup node.name =
      some (op, some { node with podCIDRs := cidrs.podCIDRs, error := "" }) := by
  have isAllocation : n.allocateNode node =
      (later, .allocated { node with podCIDRs := cidrs.podCIDRs, error := "" }) := by
    unfold allocateNode
    rw [asksNothing, can, allocated]
    rfl
  unfold upsertLocked
  rw [isAllocation]
  dsimp only
  split
  · exact ⟨.update, AList.lookup_insert _⟩
  · exact ⟨.create, AList.lookup_insert _⟩

theorem exists_allocateFree (ofFamily : OfFamily family sets)
    (room : sets ≠ [] → ∃ set ∈ sets, set.isFull = false) :
    ∃ cidrs stack later, allocateFree sets = .ok (cidrs, stack, later) ∧
      (∀ cidr ∈ cidrs, cidr.addr.family = family) ∧
      (sets = [] ∧ cidrs = [] ∨ sets ≠ [] ∧ cidrs.length = 1) := by
  by_cases configured : sets = []
  · subst configured
    exact ⟨[], [], [], rfl, forall_mem_nil _, .inl ⟨rfl, rfl⟩⟩
  · obtain ⟨cidr, position, later, done⟩ :=
      OfFamily.exists_allocateFirstFreeCIDR (room configured)
    have allocated : allocateFree sets = .ok ([cidr], [(position, cidr)], later) := by
      unfold allocateFree
      rw [if_neg (by rwa [List.isEmpty_iff]), done]
      rfl
    exact ⟨[cidr], [(position, cidr)], later, allocated,
      (allocateFree_ofFamily ofFamily allocated).2, .inr ⟨configured, rfl⟩⟩

/-- The CIDRs of a family in the list that is written to a node object. -/
theorem SortedRecord.filter_podCIDRs (sorted : SortedRecord record) (family : Family) :
    (record.podCIDRs.filter fun cidr => cidr.addr.family = family) = record.of family := by
  have filtered : ∀ other, ((record.of other).filter fun cidr => cidr.addr.family = family) =
      if other = family then record.of other else [] := by
    intro other
    split
    case isTrue same =>
      exact filter_eq_self.mpr fun cidr member =>
        decide_eq_true ((sorted other cidr member).trans same)
    case isFalse different =>
      refine filter_eq_nil_iff.mpr fun cidr member isFamily => different ?_
      exact (sorted other cidr member).symm.trans (of_decide_eq_true isFamily)
  have both := congrArg₂ (· ++ ·) (filtered .ipv4) (filtered .ipv6)
  rw [NodeCIDRs.podCIDRs, filter_append]
  cases family with
  | ipv4 => exact both.trans (append_nil _)
  | ipv6 => exact both

theorem podCIDRs_ne_nil {family : Family} (some : record.of family ≠ []) :
    record.podCIDRs ≠ [] := by
  cases family with
  | ipv4 => exact append_ne_nil_of_left_ne_nil some _
  | ipv6 => exact append_ne_nil_of_right_ne_nil _ some

section

variable (sorted : Sorted n) (ready : n.canAllocatePodCIDRs = true)
  (asksNothing : node.podCIDRs = []) (configured : ∃ family, n.allocators.of family ≠ [])
include sorted ready asksNothing configured

/-- A node with a record is given what is recorded. -/
theorem served_iff_of_record (found : n.nodes.lookup node.name = some record) :
    Served n node ↔ ∀ family, n.allocators.of family ≠ [] → record.of family ≠ [] := by
  have allocated : n.allocateNext node.name = (n, .ok (record, false)) := by
    unfold allocateNext
    rw [found]
  obtain ⟨op, queued⟩ := lookup_upsertLocked ready asksNothing allocated
  have isSorted := sorted.records node.name record found
  constructor
  · rintro ⟨op', object, isQueued, _, served⟩ family isConfigured none
    rw [queued] at isQueued
    cases isQueued
    have single := served family isConfigured ((owned_of_lookup found family).trans none)
    rw [isSorted.filter_podCIDRs, none] at single
    cases single
  · intro complete
    obtain ⟨family, isConfigured⟩ := configured
    refine ⟨op, _, queued, podCIDRs_ne_nil (complete family isConfigured), ?_⟩
    intro other otherConfigured none
    rw [owned_of_lookup found] at none
    exact absurd none (complete other otherConfigured)

/-- A node without a record is given a free CIDR of every configured family. -/
theorem served_of_missing (room : ∀ family, n.allocators.of family ≠ [] →
      ∃ set ∈ n.allocators.of family, set.isFull = false)
    (missing : n.nodes.lookup node.name = none) : Served n node := by
  obtain ⟨cidrs4, stack4, sets4, done4, isFamily4, single4⟩ :=
    exists_allocateFree (sorted.sets .ipv4) (room .ipv4)
  obtain ⟨cidrs6, stack6, sets6, done6, isFamily6, single6⟩ :=
    exists_allocateFree (sorted.sets .ipv6) (room .ipv6)
  have isSorted : SortedRecord ⟨cidrs4, cidrs6⟩ := forall_family isFamily4 isFamily6
  have single : ∀ family, n.allocators.of family ≠ [] →
      (Dual.of ⟨cidrs4, cidrs6⟩ family).length = 1 := by
    intro family isConfigured
    cases family with
    | ipv4 => exact (single4.resolve_left fun none => isConfigured none.1).2
    | ipv6 => exact (single6.resolve_left fun none => isConfigured none.1).2
  obtain ⟨family, isConfigured⟩ := configured
  have some : NodeCIDRs.podCIDRs ⟨cidrs4, cidrs6⟩ ≠ [] :=
    podCIDRs_ne_nil (ne_nil_of_length_pos (single family isConfigured ▸ Nat.one_pos))
  have allocated : ∃ later, n.allocateNext node.name = (later, .ok (⟨cidrs4, cidrs6⟩, true)) := by
    unfold allocateNext
    change allocateFree n.allocators.v4 = _ at done4
    change allocateFree n.allocators.v6 = _ at done6
    rw [missing, done4, done6]
    dsimp only
    rw [if_neg]
    · exact ⟨_, rfl⟩
    · rw [Bool.and_eq_true, List.isEmpty_iff, List.isEmpty_iff]
      rintro ⟨rfl, rfl⟩
      exact some rfl
  obtain ⟨later, isNext⟩ := allocated
  obtain ⟨op, queued⟩ := lookup_upsertLocked ready asksNothing isNext
  refine ⟨op, _, queued, some, fun other otherConfigured _ => ?_⟩
  rw [isSorted.filter_podCIDRs]
  exact single other otherConfigured

end

section

variable {maskSize : Family → Nat} {clusters : Family → List CIDR}
  {allocators : Dual (List CidrSet)}
  (made : ∀ family, Multipool.newCIDRSets family (maskSize family) (clusters family) [] =
    .ok (allocators.of family))
include made

theorem new_sorted : Sorted (new allocators) := by
  refine ⟨fun family set member => ?_, fun node record found => nomatch found⟩
  obtain ⟨_, origin⟩ :=
    Multipool.PoolAllocator.newCIDRSets_spec (made family) .nil
  rcases origin set member with earlier | ⟨cidr, _, isFamily, setMade⟩
  · cases earlier
  · rw [(CidrSet.newCIDRSet_spec setMade).1]
    exact isFamily

/-- After any events with a resync among them, a node that asks for nothing is served exactly if it
has no record or a complete one. -/
theorem upsert_served_iff (order : IterationOrder) (events : List Event)
    (resynced : .resync ∈ events)
    (isState : n = run (handle order) (new allocators) events) (node : CiliumNode)
    (asksNothing : node.podCIDRs = []) (configured : ∃ family, n.allocators.of family ≠ [])
    (room : ∀ family, n.allocators.of family ≠ [] →
      ∃ set ∈ n.allocators.of family, set.isFull = false) :
    Served n node ↔ Complete n node.name := by
  have sorted : Sorted n := by
    rw [isState]
    exact run_invariant Sorted (fun n event sorted => handle_sorted order sorted event)
      (new_sorted made) events
  have can : n.canAllocatePodCIDRs = true :=
    isState ▸ canAllocatePodCIDRs_run order (.inr resynced)
  cases found : n.nodes.lookup node.name with
  | none =>
    refine iff_of_true (served_of_missing sorted can asksNothing configured room found) ?_
    intro record isRecord
    rw [found] at isRecord
    cases isRecord
  | some record =>
    rw [served_iff_of_record sorted can asksNothing configured found]
    refine ⟨fun complete other isRecord => ?_, fun complete => complete record found⟩
    rw [found] at isRecord
    cases isRecord
    exact complete

end

/-- The only set is not full after the events. -/
theorem regularEvents_room :
    ∃ set ∈ (run (handle .listed) (new smallCluster) regularEvents).allocators.of .ipv4,
      set.isFull = false := by
  decide +kernel

theorem freshNode_served :
    Served (run (handle .listed) (new smallCluster) regularEvents) (nodeWith "five" []) := by
  have unconfigured :
      (run (handle .listed) (new smallCluster) regularEvents).allocators.of .ipv6 = [] :=
    isEmpty_iff.mp (by decide +kernel)
  have resynced : Event.resync ∈ regularEvents := by
    simp [regularEvents]
  refine (upsert_served_iff smallCluster_made .listed regularEvents resynced rfl _ rfl ?_ ?_).mpr ?_
  · obtain ⟨set, member, _⟩ := regularEvents_room
    exact ⟨.ipv4, ne_nil_of_mem member⟩
  · intro family configured
    cases family with
    | ipv4 => exact regularEvents_room
    | ipv6 => exact absurd unconfigured configured
  · intro record found
    cases found

def conflictEvents : List Event :=
  [.resync, .upsert (nodeWith "one" [firstNet]), .upsert (nodeWith "two" [firstNet])]

/-- A node whose CIDR was stripped because of a conflict is written an empty list. -/
theorem strippedNode_not_served :
    (∃ set ∈ (run (handle .listed) (new smallCluster) conflictEvents).allocators.of .ipv4,
      set.isFull = false) ∧
    ¬Served (run (handle .listed) (new smallCluster) conflictEvents) (nodeWith "two" []) := by
  refine ⟨by decide +kernel, ?_⟩
  rintro ⟨op, object, isQueued, some, _⟩
  cases isQueued
  exact some rfl

end Manager

end Constellation.Podcidr
