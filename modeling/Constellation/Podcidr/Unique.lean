/-
This file proves that the pod CIDRs of different nodes stay apart, in every run in which every
CIDR of a node object is a union of blocks that are all in use or all free. A CIDR of which some
blocks are in use and others are free is handed out as if it were free.
-/
import Constellation.Podcidr.Allocate

namespace Constellation.Podcidr

open Ipam (Addr CIDR Family)
open Multipool (CidrSet Dual)
open Lib List Bool Manager

/-! ### The CIDRs of the nodes, for one family -/

section OneFamily

variable {family : Family} {shapes : List (CIDR × Nat)} {sets later : List CidrSet}
  {owned after : String → List CIDR} {node : String}

/-- A block lies in a CIDR of some node. -/
def Owned (owned : String → List CIDR) (block : CIDR) : Prop :=
  ∃ node, ∃ cidr ∈ owned node, LiesIn block cidr

/-- The CIDRs of the nodes are unions of blocks, those of different nodes are apart, and the blocks
in use are theirs. -/
structure FamilyKept (family : Family) (shapes : List (CIDR × Nat)) (sets : List CidrSet)
    (owned : String → List CIDR) : Prop where
  marks : Marks family shapes (Owned owned) sets
  fits : ∀ node, ∀ cidr ∈ owned node, ∃ position, Fits shapes position cidr
  apart : ∀ node other, node ≠ other → ∀ cidr ∈ owned node, ∀ foreign ∈ owned other,
    cidr.overlaps foreign = false

variable {cidr foreign : CIDR}

theorem overlaps_of_liesIn {block : CIDR} (lies : LiesIn block cidr)
    (liesForeign : LiesIn block foreign) : cidr.overlaps foreign = true :=
  CIDR.overlaps_of_contains lies.2 liesForeign.2

section

variable {inUse : CIDR → Prop} (marks : Marks family shapes inUse sets)
include marks

/-- Unions of blocks that overlap have a block in common. -/
theorem exists_block_of_contains {position : Nat} (fits : Fits shapes position foreign)
    (narrower : foreign.hostBits ≤ cidr.hostBits) {addr : Addr}
    (inside : cidr.contains addr = true) (inForeign : foreign.contains addr = true) :
    ∃ block, BlockOf shapes block ∧ LiesIn block cidr ∧ LiesIn block foreign := by
  obtain ⟨set, found, covers⟩ := marks.exists_covers fits
  obtain ⟨index, isIndex, same⟩ := covers.exists_first
  rw [← CIDR.contains_addr inForeign narrower] at inside
  refine ⟨set.indexToCIDRBlock index, marks.blockOf (mem_of_getElem? found) isIndex, ?_, ?_⟩
  · have shorter : cidr.bits ≤ foreign.bits := by
      unfold CIDR.hostBits at narrower
      rw [((CIDR.contains_iff _ _).mp inside).1] at narrower
      have small := cidr.bits_le
      omega
    refine ⟨shorter.trans covers.whole, ?_⟩
    rw [same]
    exact inside
  · refine ⟨covers.whole, ?_⟩
    rw [same]
    exact (CIDR.contains_iff _ _).mpr ⟨rfl, rfl⟩

theorem exists_block_of_overlaps {position other : Nat} (fits : Fits shapes position cidr)
    (fitsForeign : Fits shapes other foreign) (both : cidr.overlaps foreign = true) :
    ∃ block, BlockOf shapes block ∧ LiesIn block cidr ∧ LiesIn block foreign := by
  obtain ⟨addr, inside, inForeign⟩ := (CIDR.overlaps_iff_exists _ _).mp both
  rcases Nat.le_total foreign.hostBits cidr.hostBits with narrower | narrower
  · exact exists_block_of_contains marks fitsForeign narrower inside inForeign
  · obtain ⟨block, isBlock, liesForeign, lies⟩ :=
      exists_block_of_contains marks fits narrower inForeign inside
    exact ⟨block, isBlock, lies, liesForeign⟩

end

namespace FamilyKept

variable (kept : FamilyKept family shapes sets owned)
include kept

/-- A node is given further CIDRs. -/
theorem grant {outcome : Manager.Outcome}
    (attempted : Attempted family shapes (Owned owned) later outcome)
    (granted : ∀ name, after name = owned name ++ if name = node then outcome.cidrs else []) :
    FamilyKept family shapes later after := by
  have mem_after (name : String) (cidr : CIDR) : cidr ∈ after name ↔
      cidr ∈ owned name ∨ name = node ∧ cidr ∈ outcome.cidrs := by
    rw [granted, mem_append, mem_ite_nil_right]
  have apartNew : ∀ cidr ∈ outcome.cidrs, ∀ name, ∀ foreign ∈ owned name,
      cidr.overlaps foreign = false := by
    intro cidr new name foreign old
    refine Bool.eq_false_iff.mpr fun both => ?_
    obtain ⟨position, fitsNew⟩ := attempted.fits cidr new
    obtain ⟨place, fitsOld⟩ := kept.fits name foreign old
    obtain ⟨block, isBlock, lies, liesOld⟩ :=
      exists_block_of_overlaps kept.marks fitsNew fitsOld both
    exact attempted.free cidr new block isBlock lies ⟨name, foreign, old, liesOld⟩
  refine ⟨attempted.marks.congr fun block => ?_, fun name cidr member => ?_, ?_⟩
  · simp only [Owned, mem_after]
    constructor
    · rintro (⟨name, cidr, member, lies⟩ | ⟨cidr, member, lies⟩)
      · exact ⟨name, cidr, .inl member, lies⟩
      · exact ⟨node, cidr, .inr ⟨rfl, member⟩, lies⟩
    · rintro ⟨name, cidr, old | ⟨_, new⟩, lies⟩
      · exact .inl ⟨name, cidr, old, lies⟩
      · exact .inr ⟨cidr, new, lies⟩
  · rcases (mem_after name cidr).mp member with old | ⟨_, new⟩
    · exact kept.fits name cidr old
    · exact attempted.fits cidr new
  · simp only [mem_after]
    rintro name other different cidr (old | ⟨rfl, new⟩) foreign (oldForeign | ⟨rfl, newForeign⟩)
    · exact kept.apart name other different cidr old foreign oldForeign
    · rw [CIDR.overlaps_comm]
      exact apartNew foreign newForeign name cidr old
    · exact apartNew cidr new other foreign oldForeign
    · exact absurd rfl different

/-- A node is given nothing, and what was tried has been undone. -/
theorem keep (marks : Marks family shapes (Owned owned) later) (same : after = owned) :
    FamilyKept family shapes later after := by
  subst same
  exact ⟨marks, kept.fits, kept.apart⟩

theorem release (released : ∀ name, after name = if name = node then [] else owned name) :
    FamilyKept family shapes (releaseCIDRs sets (owned node)) after := by
  have mem_after (name : String) (cidr : CIDR) :
      cidr ∈ after name ↔ name ≠ node ∧ cidr ∈ owned name := by
    rw [released, mem_ite_nil_left]
  refine ⟨(kept.marks.releaseCIDRs (kept.fits node)).congr fun block => ?_, ?_, ?_⟩
  · simp only [Owned, mem_after]
    constructor
    · rintro ⟨⟨name, cidr, member, lies⟩, none⟩
      refine ⟨name, cidr, ⟨?_, member⟩, lies⟩
      rintro rfl
      exact none cidr member lies
    · rintro ⟨name, cidr, ⟨other, old⟩, lies⟩
      refine ⟨⟨name, cidr, old, lies⟩, fun foreign isForeign liesForeign => ?_⟩
      have disjoint := kept.apart name node other cidr old foreign isForeign
      rw [overlaps_of_liesIn lies liesForeign] at disjoint
      cases disjoint
  · exact fun name cidr member => kept.fits name cidr ((mem_after name cidr).mp member).2
  · intro name other different cidr member foreign isForeign
    exact kept.apart name other different cidr ((mem_after name cidr).mp member).2 foreign
      ((mem_after other foreign).mp isForeign).2

end FamilyKept

end OneFamily

/-! ### The CIDRs of the nodes, for both families -/

namespace Manager

/-- Where both families are configured, no record is empty. -/
structure Kept (shapes : Dual (List (CIDR × Nat))) (n : Manager) : Prop where
  families : ∀ family,
    FamilyKept family (shapes.of family) (n.allocators.of family) (n.owned family)
  recorded : shapes.v4 ≠ [] → shapes.v6 ≠ [] → ∀ node record,
    n.nodes.lookup node = some record → record.v4 ≠ [] ∨ record.v6 ≠ []

def Grows (n later : Manager) : Prop :=
  ∀ family node, n.owned family node ⊆ later.owned family node

variable {n later : Manager} {shapes : Dual (List (CIDR × Nat))} {nodeName : String}

theorem Kept.same (kept : Kept shapes n)
    (lookup : ∀ node, later.nodes.lookup node = n.nodes.lookup node)
    (marks : ∀ family, Marks family (shapes.of family) (Owned (n.owned family))
      (later.allocators.of family)) : Kept shapes later ∧ Grows n later := by
  have owned : ∀ family, later.owned family = n.owned family :=
    fun family => funext fun node => owned_congr (lookup node) family
  refine ⟨⟨fun family => (kept.families family).keep (marks family) (owned family), ?_⟩, ?_⟩
  · intro dual dual' node record found
    rw [lookup] at found
    exact kept.recorded dual dual' node record found
  · intro family node
    rw [owned]
    exact List.Subset.refl _

theorem Kept.grant (kept : Kept shapes n) {record : NodeCIDRs} {outcomes : Family → Outcome}
    (attempted : ∀ family, Attempted family (shapes.of family) (Owned (n.owned family))
      (later.allocators.of family) (outcomes family))
    (lookup : ∀ node, later.nodes.lookup node =
      if node = nodeName then some record else n.nodes.lookup node)
    (own : ∀ family, record.of family = n.owned family nodeName ++ (outcomes family).cidrs)
    (nonempty : shapes.v4 ≠ [] → shapes.v6 ≠ [] → record.v4 ≠ [] ∨ record.v6 ≠ []) :
    Kept shapes later ∧ Grows n later := by
  have granted (family : Family) (name : String) : later.owned family name =
      n.owned family name ++ if name = nodeName then (outcomes family).cidrs else [] := by
    split
    case isTrue same => rw [same, owned_of_lookup ((lookup nodeName).trans (if_pos rfl)), own]
    case isFalse different =>
      rw [append_nil, owned_congr ((lookup name).trans (if_neg different))]
  refine ⟨⟨fun family => ?_, ?_⟩, ?_⟩
  · exact (kept.families family).grant (attempted family) (granted family)
  · intro dual dual' node other found
    rw [lookup] at found
    split at found
    · cases found
      exact nonempty dual dual'
    · exact kept.recorded dual dual' node other found
  · intro family node
    rw [granted]
    exact subset_append_left _ _

variable {family : Family}

theorem Kept.configured_iff (kept : Kept shapes n) :
    shapes.of family ≠ [] ↔ n.allocators.of family ≠ [] := by
  rw [← (kept.families family).marks.shapes_eq, ne_eq, map_eq_nil_iff]

variable {requested : NodeCIDRs} {node : CiliumNode}

def Asks (shapes : Dual (List (CIDR × Nat))) (n : Manager) (requested : NodeCIDRs) : Prop :=
  ∀ family, ∀ cidr ∈ requested.of family, Settled (shapes.of family) (Owned (n.owned family)) cidr

section

variable (kept : Kept shapes n)
include kept

theorem Kept.attempted (asks : Asks shapes n requested) (family : Family) :
    Attempted family (shapes.of family) (Owned (n.owned family))
      (n.attemptOf nodeName requested family).1 (n.attemptOf nodeName requested family).2 :=
  attempt_attempted (kept.families family).marks _ (asks family)

/-- An allocation that comes to nothing leaves the blocks in use as they are. -/
theorem Kept.marks_of_cidrs (asks : Asks shapes n requested)
    (none : (n.attemptOf nodeName requested family).2.isAllocated = false) :
    Marks family (shapes.of family) (Owned (n.owned family))
      (n.attemptOf nodeName requested family).1 :=
  (kept.attempted asks family).marks_of_nil (Outcome.cidrs_eq none)

/-- A record to which an allocation for both families was tried is missing. -/
theorem Kept.missing (tried4 : (n.attemptOf nodeName requested .ipv4).2 ≠ .skipped)
    (tried6 : (n.attemptOf nodeName requested .ipv6).2 ≠ .skipped) :
    n.nodes.lookup nodeName = none := by
  obtain ⟨none4, configured4⟩ := n.attemptOf_able nodeName requested tried4
  obtain ⟨none6, configured6⟩ := n.attemptOf_able nodeName requested tried6
  by_contra present
  obtain ⟨record, found⟩ := Option.ne_none_iff_exists'.mp present
  rw [owned_of_lookup found] at none4 none6
  rcases kept.recorded (kept.configured_iff.mpr configured4) (kept.configured_iff.mpr configured6)
    nodeName record found with some | some
  · exact some none4
  · exact some none6

/-- A failure for IPv6 leaves no trace of the allocation for IPv4 in a record. -/
theorem Kept.lookup_failed {error : AllocError}
    (fails : (n.attemptOf nodeName requested .ipv6).2 = .failed error) (node : String) :
    (if node = nodeName ∧ nodeName ∈ n.nodes then
      some ((n.attemptOf nodeName requested .ipv4).2.record .ipv4 (n.recordOf nodeName))
    else n.nodes.lookup node) = n.nodes.lookup node := by
  split
  case isTrue both =>
    obtain ⟨rfl, present⟩ := both
    obtain ⟨record, found⟩ := GoMap.lookup_of_mem present
    have none : (n.attemptOf node requested .ipv4).2.isAllocated = false := by
      refine Bool.eq_false_iff.mpr fun allocated => ?_
      have missing : n.nodes.lookup node = Option.none := by
        refine @Kept.missing n shapes node requested kept ?_ ?_
        · intro skipped
          rw [skipped] at allocated
          cases allocated
        · rw [fails]
          nofun
      rw [found] at missing
      cases missing
    rw [Outcome.record_eq none, recordOf, found]
    rfl
  · rfl

/-- The record that is made where both families are configured is not empty. -/
theorem Kept.recordAfter_nonempty
    (fine4 : ∀ error, (n.attemptOf nodeName requested .ipv4).2 ≠ .failed error)
    (fine6 : ∀ error, (n.attemptOf nodeName requested .ipv6).2 ≠ .failed error)
    (notBoth : ∀ error4 error6, (n.attemptOf nodeName requested .ipv4).2 = .conflict error4 →
      (n.attemptOf nodeName requested .ipv6).2 ≠ .conflict error6)
    (configured4 : shapes.v4 ≠ []) (configured6 : shapes.v6 ≠ []) :
    (n.recordAfter nodeName requested).v4 ≠ [] ∨ (n.recordAfter nodeName requested).v6 ≠ [] := by
  have isRecord4 := n.recordAfter_of nodeName requested .ipv4
  have isRecord6 := n.recordAfter_of nodeName requested .ipv6
  have sets4 : n.allocators.of .ipv4 ≠ [] := kept.configured_iff.mp configured4
  have sets6 : n.allocators.of .ipv6 ≠ [] := kept.configured_iff.mp configured6
  change (n.recordAfter nodeName requested).v4 = _ at isRecord4
  change (n.recordAfter nodeName requested).v6 = _ at isRecord6
  rw [isRecord4, isRecord6]
  cases found : n.nodes.lookup nodeName with
  | some record =>
    rw [owned_of_lookup found, owned_of_lookup found]
    exact (kept.recorded configured4 configured6 nodeName record found).imp
      (append_ne_nil_of_left_ne_nil · _) (append_ne_nil_of_left_ne_nil · _)
  | none =>
    rcases n.attemptOf_of_missing nodeName requested found sets4 with
      ⟨error4, conflict4⟩ | ⟨error, fails⟩ | some
    · rcases n.attemptOf_of_missing nodeName requested found sets6 with
        ⟨error6, conflict6⟩ | ⟨error, fails⟩ | some
      · exact absurd conflict6 (notBoth error4 error6 conflict4)
      · exact absurd fails (fine6 error)
      · exact .inr (append_ne_nil_of_right_ne_nil _ some)
    · exact absurd fails (fine4 error)
    · exact .inl (append_ne_nil_of_right_ne_nil _ some)

theorem reuseIPNets_kept (asks : Asks shapes n requested) :
    Kept shapes (n.reuseIPNets nodeName requested).1 ∧
      Grows n (n.reuseIPNets nodeName requested).1 := by
  rcases n.reuseIPNets_reuses nodeName requested with same |
    ⟨error, fails, allocators, lookup⟩ | ⟨error, fails, allocators, lookup⟩ |
    ⟨error4, error6, conflict4, conflict6, allocators, lookup⟩ |
    ⟨fine4, fine6, notBoth, allocators, lookup⟩
  · rw [same]
    exact kept.same (fun node => rfl) fun family => (kept.families family).marks
  · refine kept.same lookup ?_
    rw [allocators]
    exact forall_family (kept.marks_of_cidrs asks (by rw [fails]; rfl)) (kept.families .ipv6).marks
  · refine kept.same (fun node => (lookup node).trans (kept.lookup_failed fails node)) ?_
    rw [allocators]
    exact forall_family (kept.attempted asks .ipv4).reverted
      (kept.marks_of_cidrs asks (by rw [fails]; rfl))
  · refine kept.same lookup ?_
    rw [allocators]
    exact forall_family (kept.marks_of_cidrs asks (by rw [conflict4]; rfl))
      (kept.marks_of_cidrs asks (by rw [conflict6]; rfl))
  · refine kept.grant (fun family => ?_) lookup (n.recordAfter_of nodeName requested) ?_
    · rw [allocators]
      cases family with
      | ipv4 | ipv6 => exact kept.attempted asks _
    · exact kept.recordAfter_nonempty fine4 fine6 notBoth

theorem allocateNext_kept :
    Kept shapes (n.allocateNext nodeName).1 ∧ Grows n (n.allocateNext nodeName).1 := by
  have unchanged : Kept shapes n ∧ Grows n n :=
    kept.same (fun node => rfl) fun family => (kept.families family).marks
  unfold allocateNext
  split
  · exact unchanged
  case h_2 missing =>
    have none : ∀ family, n.owned family nodeName = [] := by
      intro family
      rw [owned, missing]
      rfl
    split
    · exact unchanged
    case h_2 cidrs4 stack4 sets4 done4 =>
      have attempted4 := allocateFree_attempted (kept.families .ipv4).marks done4
      split
      · exact kept.same (fun node => rfl)
          (forall_family attempted4.reverted (kept.families .ipv6).marks)
      case h_2 cidrs6 stack6 sets6 done6 =>
        have attempted6 := allocateFree_attempted (kept.families .ipv6).marks done6
        split
        case isTrue empty =>
          rw [and_eq_true, List.isEmpty_iff, List.isEmpty_iff] at empty
          exact kept.same (fun node => rfl)
            (forall_family (attempted4.marks_of_nil empty.1) (attempted6.marks_of_nil empty.2))
        case isFalse some =>
          rw [and_eq_true, List.isEmpty_iff, List.isEmpty_iff, not_and_or] at some
          refine @Kept.grant n _ shapes nodeName kept ⟨cidrs4, cidrs6⟩
            (Dual.of ⟨.allocated cidrs4 stack4, .allocated cidrs6 stack6⟩)
            (forall_family attempted4 attempted6)
            (fun node => GoMap.lookup_insert_if _ _ _ _) (fun family => ?_) fun _ _ => some
          · rw [none, nil_append]
            cases family with
            | ipv4 | ipv6 => rfl

theorem Kept.sameRecords (same : SameRecords n later) :
    Kept shapes later := by
  have lookup : ∀ node, later.nodes.lookup node = n.nodes.lookup node :=
    fun node => by rw [same.nodes]
  refine (kept.same lookup fun family => ?_).1
  rw [same.allocators]
  exact (kept.families family).marks

/-- An upsert keeps the CIDRs apart if those of the node object may be asked for. -/
theorem upsertLocked_kept (asks : Asks shapes n (splitPodCIDRs node.podCIDRs)) :
    Kept shapes (n.upsertLocked node) ∧ Grows n (n.upsertLocked node) := by
  obtain ⟨source, same, isSource⟩ := n.upsertLocked_source node
  have keeps : Kept shapes source ∧ Grows n source := by
    rcases isSource with rfl | rfl | rfl
    · exact ⟨kept, fun family node => List.Subset.refl _⟩
    · exact allocateNext_kept kept
    · exact reuseIPNets_kept kept asks
  refine ⟨keeps.1.sameRecords same, fun family name => ?_⟩
  have lookup : (n.upsertLocked node).nodes.lookup name = source.nodes.lookup name := by
    rw [same.nodes]
  rw [owned_congr lookup]
  exact keeps.2 family name

end

theorem owned_erase (n : Manager) (nodeName : String) (family : Family) (other : String) :
    owned { n with nodes := n.nodes.erase nodeName } family other =
      if other = nodeName then [] else n.owned family other := by
  rw [owned, GoMap.lookup_erase_if]
  split <;> rfl

theorem releaseIPNets_kept (kept : Kept shapes n) :
    Kept shapes (n.releaseIPNets nodeName).1 := by
  unfold releaseIPNets
  split
  · exact kept
  case h_2 record found =>
    refine ⟨fun family => ?_, ?_⟩
    · have released := (kept.families family).release (owned_erase n nodeName family)
      rw [owned_of_lookup found] at released
      cases family with
      | ipv4 | ipv6 => exact released
    · intro configured4 configured6 node other isOther
      rw [GoMap.lookup_erase_if] at isOther
      split at isOther
      · cases isOther
      · exact kept.recorded configured4 configured6 node other isOther

theorem delete_kept (kept : Kept shapes n) (node : CiliumNode) : Kept shapes (n.delete node) := by
  obtain ⟨source, start, released⟩ := n.delete_source node
  exact (releaseIPNets_kept (kept.sameRecords start)).sameRecords released

/-! ### Runs -/

/-- A CIDR is a union of blocks of a set that are all in use or all free. -/
def Regular (set : CidrSet) (cidr : CIDR) : Prop :=
  Covers set cidr ∧ (blocksIn set cidr ⊆ set.used ∨ Disjoint (blocksIn set cidr) set.used)
  deriving Decidable

/-- A CIDR is a block of a set, or a union of blocks that are all in use. -/
def Lasting (set : CidrSet) (cidr : CIDR) : Prop :=
  Covers set cidr ∧ (cidr.bits = set.nodeMaskSize ∨ blocksIn set cidr ⊆ set.used)
  deriving Decidable

/-- The CIDRs of a node object are regular in the sets whose range they are in; those of the nodes
that wait for the first resync stay so until all of them have been handled. -/
def Admissible (n : Manager) : Event → Prop
  | .upsert node => ∀ cidr ∈ node.podCIDRs, ∀ set ∈ n.allocators.of cidr.addr.family,
      set.inRange cidr.masked = true → Regular set cidr.masked
  | .delete _ => True
  | .resync => ∀ waiting ∈ n.nodesToAllocate.entries, ∀ cidr ∈ waiting.2.podCIDRs,
      ∀ set ∈ n.allocators.of cidr.addr.family,
        set.inRange cidr.masked = true → Lasting set cidr.masked

instance (n : Manager) (event : Event) : Decidable (Admissible n event) := by
  cases event <;> delta Admissible <;> infer_instance

variable {cidr : CIDR}

theorem mem_splitPodCIDRs {podCIDRs : List CIDR}
    (member : cidr ∈ (splitPodCIDRs podCIDRs).of family) :
    ∃ source ∈ podCIDRs, source.masked = cidr ∧ source.addr.family = family := by
  cases family with
  | ipv4 | ipv6 =>
    obtain ⟨listed, isFamily⟩ := mem_filter.mp member
    obtain ⟨source, isSource, rfl⟩ := mem_map.mp listed
    exact ⟨source, isSource, rfl, of_decide_eq_true isFamily⟩

theorem Kept.asks (kept : Kept shapes n) (admissible : Admissible n (.upsert node)) :
    Asks shapes n (splitPodCIDRs node.podCIDRs) := by
  intro family cidr member
  obtain ⟨source, listed, rfl, rfl⟩ := mem_splitPodCIDRs member
  exact (kept.families _).marks.settled (admissible source listed)

/-- The nodes that waited are handled one after the other. -/
theorem foldl_upsertLocked_kept {waiting : List CiliumNode} (kept : Kept shapes n)
    (lasts : ∀ node ∈ waiting, ∀ family, ∀ cidr ∈ (splitPodCIDRs node.podCIDRs).of family,
      Lasts (shapes.of family) (Owned (n.owned family)) cidr) :
    Kept shapes (waiting.foldl upsertLocked n) := by
  induction waiting generalizing n with
  | nil => exact kept
  | cons node rest inductionHypothesis =>
    have asks : Asks shapes n (splitPodCIDRs node.podCIDRs) := fun family cidr member =>
      (lasts node (.head _) family cidr member).settled (kept.families family).marks
    obtain ⟨keptLater, grows⟩ := upsertLocked_kept kept asks
    refine inductionHypothesis keptLater fun other member family cidr listed => ?_
    refine (lasts other (.tail _ member) family cidr listed).mono ?_
    rintro block ⟨name, owned, isOwned, lies⟩
    exact ⟨name, owned, grows family name isOwned, lies⟩

theorem resync_kept (kept : Kept shapes n) (order : IterationOrder)
    (admissible : Admissible n .resync) : Kept shapes (n.resync order) := by
  unfold resync
  split
  · exact kept
  · have start : Kept shapes { n with canAllocatePodCIDRs := true } :=
      ⟨kept.families, kept.recorded⟩
    refine Kept.sameRecords (foldl_upsertLocked_kept start ?_) ⟨rfl, rfl, rfl⟩
    intro node member family cidr listed
    obtain ⟨waiting, inMap, rfl⟩ := mem_map.mp member
    obtain ⟨source, isSource, rfl, rfl⟩ := mem_splitPodCIDRs listed
    exact .ofSets (kept.families _).marks
      (admissible waiting ((order.mem_visit 0 _ waiting).mp inMap) source isSource)

/-- The CIDRs of different nodes are apart, and the blocks in use are those that lie in a recorded
CIDR. -/
structure Unique (n : Manager) : Prop where
  apart : ∀ node other, node ≠ other → ∀ record otherRecord,
    n.nodes.lookup node = some record → n.nodes.lookup other = some otherRecord →
    ∀ cidr ∈ record.podCIDRs, ∀ foreign ∈ otherRecord.podCIDRs, cidr.overlaps foreign = false
  used_iff : ∀ family, ∀ set ∈ n.allocators.of family, ∀ index < set.maxCIDRs,
    index ∈ set.used ↔ ∃ node record, n.nodes.lookup node = some record ∧
      ∃ cidr ∈ record.podCIDRs, LiesIn (set.indexToCIDRBlock index) cidr

theorem mem_podCIDRs {record : NodeCIDRs} :
    cidr ∈ record.podCIDRs ↔ ∃ family, cidr ∈ record.of family := by
  rw [NodeCIDRs.podCIDRs, mem_append]
  constructor
  · rintro (isV4 | isV6)
    · exact ⟨.ipv4, isV4⟩
    · exact ⟨.ipv6, isV6⟩
  · rintro ⟨family, member⟩
    cases family with
    | ipv4 => exact .inl member
    | ipv6 => exact .inr member

theorem Kept.family_eq (kept : Kept shapes n) {node : String}
    (member : cidr ∈ n.owned family node) : cidr.addr.family = family := by
  obtain ⟨position, fits⟩ := (kept.families family).fits node cidr member
  obtain ⟨set, found, covers⟩ := (kept.families family).marks.exists_covers fits
  rw [covers.family_eq]
  exact (kept.families family).marks.family_eq set (mem_of_getElem? found)

theorem Kept.unique (kept : Kept shapes n) : Unique n := by
  refine ⟨?_, ?_⟩
  · intro node other different record otherRecord found otherFound cidr member foreign isForeign
    obtain ⟨family, inFamily⟩ := mem_podCIDRs.mp member
    obtain ⟨otherFamily, inOther⟩ := mem_podCIDRs.mp isForeign
    rw [← owned_of_lookup found] at inFamily
    rw [← owned_of_lookup otherFound] at inOther
    refine Bool.eq_false_iff.mpr fun both => ?_
    have sameFamily := CIDR.family_eq_of_overlaps both
    rw [kept.family_eq inFamily, kept.family_eq inOther] at sameFamily
    subst sameFamily
    rw [(kept.families family).apart node other different cidr inFamily foreign inOther] at both
    cases both
  · intro family set member index inside
    rw [(kept.families family).marks.used_iff set member index inside]
    constructor
    · rintro ⟨node, cidr, isOwned, lies⟩
      obtain ⟨record, found, inFamily⟩ := mem_owned.mp isOwned
      exact ⟨node, record, found, cidr, mem_podCIDRs.mpr ⟨family, inFamily⟩, lies⟩
    · rintro ⟨node, record, found, cidr, listed, lies⟩
      obtain ⟨otherFamily, inFamily⟩ := mem_podCIDRs.mp listed
      rw [← owned_of_lookup found] at inFamily
      have sameFamily : set.clusterPrefix.addr.family = cidr.addr.family :=
        ((CIDR.contains_iff _ _).mp lies.2).1
      rw [kept.family_eq inFamily, (kept.families family).marks.family_eq set member] at sameFamily
      subst sameFamily
      exact ⟨node, cidr, inFamily, lies⟩

section

variable {maskSize : Family → Nat} {clusters : Family → List CIDR}
  {allocators : Dual (List CidrSet)}
  (made : ∀ family, Multipool.newCIDRSets family (maskSize family) (clusters family) [] =
    .ok (allocators.of family))
  (addressable : ∀ family, ∀ set ∈ allocators.of family, set.Addressable)
include made addressable

/-- A manager with new sets has no records and no block in use. -/
theorem new_kept :
    Kept ⟨allocators.v4.map shape, allocators.v6.map shape⟩ (new allocators) := by
  have none : ∀ family node cidr, cidr ∉ (new allocators).owned family node :=
    fun _ _ _ => not_mem_nil
  have origin : ∀ family, ∀ set ∈ allocators.of family,
      set.clusterPrefix.addr.family = family ∧ set.used = ∅ ∧ set.Accounted := by
    intro family set member
    obtain ⟨_, origin⟩ := Multipool.PoolAllocator.newCIDRSets_spec (made family) .nil
    rcases origin set member with earlier | ⟨cidr, _, isFamily, setMade⟩
    · cases earlier
    · obtain ⟨isCluster, _, unused, accounted⟩ := CidrSet.newCIDRSet_spec setMade
      refine ⟨?_, unused, accounted⟩
      rw [isCluster]
      exact isFamily
  refine ⟨fun family => ⟨⟨?_, ?_, ?_, addressable family, ?_, ?_⟩, ?_, ?_⟩, ?_⟩
  · cases family with
    | ipv4 | ipv6 => rfl
  · exact (Multipool.PoolAllocator.newCIDRSets_spec (made family) .nil).1
  · exact fun set member => (origin family set member).2.2
  · exact fun set member => (origin family set member).1
  · intro set member index _
    rw [(origin family set member).2.1]
    exact iff_of_false (Finset.notMem_empty index)
      fun ⟨node, cidr, isOwned, _⟩ => none family node cidr isOwned
  · exact fun node cidr member => absurd member (none family node cidr)
  · exact fun node _ _ cidr member => absurd member (none family node cidr)
  · intro _ _ node record found
    cases found

/-- In every run whose events meet the condition, the CIDRs of different nodes stay apart, and the
blocks in use are those of the recorded CIDRs. -/
theorem run_unique (order : IterationOrder) (events : List Event)
    (meets : Meets (handle order) Admissible (new allocators) events) :
    Unique (run (handle order) (new allocators) events) := by
  refine Kept.unique (Meets.invariant (Kept _) ?_ (new_kept made addressable) meets)
  intro n event kept admissible
  cases event with
  | upsert node => exact (upsertLocked_kept kept (kept.asks admissible)).1
  | delete node => exact delete_kept kept node
  | resync => exact resync_kept kept order admissible

end

/-! ### Runs with one cluster CIDR -/

/-- A CIDR in 10.0.0.0/16, from the last two bytes of its address. -/
def tenNet (value : Fin (2 ^ 16)) (bits : Fin 33) : CIDR :=
  ⟨⟨.ipv4, 10 * 2 ^ 24 + value.val, (Nat.add_lt_add_left value.isLt _).trans (by decide)⟩, bits.val,
    Nat.le_of_lt_succ bits.isLt⟩

def firstNet : CIDR := tenNet 0 24

def nodeWith (name : String) (podCIDRs : List CIDR) : CiliumNode := ⟨name, "1", podCIDRs, ""⟩

def smallCluster : Dual (List CidrSet) :=
  ⟨((Multipool.newCIDRSets .ipv4 24 [tenNet 0 20] []).toOption).getD [], []⟩

theorem smallCluster_made (family : Family) :
    Multipool.newCIDRSets family 24 (Dual.of ⟨[tenNet 0 20], []⟩ family) [] =
      .ok (smallCluster.of family) := by
  cases family with
  | ipv4 | ipv6 => rfl

theorem smallCluster_addressable (family : Family) :
    ∀ set ∈ smallCluster.of family, set.Addressable := by
  cases family with
  | ipv4 => decide +kernel
  | ipv6 => exact forall_mem_nil _

/-- Nodes with a block, with two blocks and with none, before and after the first resync. -/
def regularEvents : List Event :=
  [.upsert (nodeWith "one" [tenNet 0 24]), .upsert (nodeWith "two" [tenNet (2 * 256) 23]),
    .upsert (nodeWith "three" []), .resync, .delete (nodeWith "one" []),
    .upsert (nodeWith "four" [tenNet 0 24]), .upsert (nodeWith "two" [tenNet 0 24])]

theorem regularEvents_unique :
    Unique (run (handle .listed) (new smallCluster) regularEvents) :=
  run_unique smallCluster_made smallCluster_addressable .listed regularEvents (by decide +kernel)

/-- A CIDR of two blocks is handed out although one of them is in use. -/
theorem partlyUsed_overlaps :
    ¬Unique (run (handle .listed) (new smallCluster)
      [.upsert (nodeWith "one" [tenNet 0 24]), .upsert (nodeWith "two" [tenNet 0 23])]) := by
  intro unique
  have disjoint := unique.apart "one" "two" (by decide) ⟨[tenNet 0 24], []⟩ ⟨[tenNet 0 23], []⟩
    (by decide +kernel) (by decide +kernel) (tenNet 0 24) (by decide) (tenNet 0 23) (by decide)
  exact absurd disjoint (by decide)

end Manager

end Constellation.Podcidr
