/-
This file proves what the allocation functions make of the blocks in use: one that succeeds brings
the blocks of its CIDRs into use, one that fails leaves them as they were, if every CIDR that is
asked for is a union of blocks that are all in use or all free.
-/
import Constellation.Podcidr.Blocks
import Constellation.Podcidr.Steps

namespace Constellation.Podcidr

open Ipam (Addr CIDR Family)
open Multipool (CidrSet Dual)
open Lib List

/-! ### The blocks of all sets -/

/-- What the operations on a set leave as it is. -/
def shape (set : CidrSet) : CIDR × Nat := (set.clusterPrefix, set.nodeMaskSize)

variable (shapes : List (CIDR × Nat))

def BlockOf (block : CIDR) : Prop :=
  ∃ shape ∈ shapes, IsUnion shape.1 shape.2 block ∧ block.bits = shape.2

/-- A CIDR is a union of blocks of the set at a position. -/
def Fits (position : Nat) (cidr : CIDR) : Prop :=
  ∃ shape, shapes[position]? = some shape ∧ IsUnion shape.1 shape.2 cidr

def Free (inUse : CIDR → Prop) (cidr : CIDR) : Prop :=
  ∀ block, BlockOf shapes block → LiesIn block cidr → ¬inUse block

/-- The CIDR is a union of blocks of each set whose range it is in, and these are all in use or all
free. -/
structure Settled (shapes : List (CIDR × Nat)) (inUse : CIDR → Prop) (cidr : CIDR) : Prop where
  unions : ∀ shape ∈ shapes, shape.1.overlaps cidr = true → IsUnion shape.1 shape.2 cidr
  whole : (∀ block, BlockOf shapes block → LiesIn block cidr → inUse block) ∨ Free shapes inUse cidr

/-- The blocks in use are those with the given property. -/
structure Marks (family : Family) (shapes : List (CIDR × Nat)) (inUse : CIDR → Prop)
    (sets : List CidrSet) : Prop where
  shapes_eq : sets.map shape = shapes
  apart : sets.Pairwise CidrSet.Apart
  accounted : ∀ set ∈ sets, set.Accounted
  addressable : ∀ set ∈ sets, set.Addressable
  family_eq : ∀ set ∈ sets, set.clusterPrefix.addr.family = family
  used_iff : ∀ set ∈ sets, ∀ index < set.maxCIDRs,
    index ∈ set.used ↔ inUse (set.indexToCIDRBlock index)

variable {set other next : CidrSet} {cidr : CIDR} {index position : Nat} {sets : List CidrSet}
  {family : Family} {shapes : List (CIDR × Nat)} {inUse : CIDR → Prop} {used : Finset Nat}

/-- A CIDR of a set is not in the range of a set that is apart. -/
theorem Covers.not_inRange (covers : Covers set cidr) (apart : other.Apart set) :
    other.inRange cidr = false := by
  refine Bool.eq_false_iff.mpr fun near => ?_
  obtain ⟨addr, inOther, inCidr⟩ := (CIDR.overlaps_iff_exists _ _).mp near
  have inSet := covers.inside
  rw [CIDR.contains_addr inCidr covers.hostBits_le] at inSet
  rw [CidrSet.Apart, CIDR.overlaps_of_contains inOther inSet] at apart
  cases apart

/-- The blocks of a set that is apart do not lie in a CIDR of a set. -/
theorem Covers.not_liesIn (covers : Covers set cidr) (apart : other.Apart set)
    (inside : index < other.maxCIDRs) : ¬LiesIn (other.indexToCIDRBlock index) cidr := by
  intro lies
  have inOther := (CidrSet.isBlock_indexToCIDRBlock inside).1.inside
  cases (CIDR.overlaps_of_contains inOther lies.2).symm.trans (covers.not_inRange apart)

namespace Marks

theorem congr (marks : Marks family shapes inUse sets) {same : CIDR → Prop}
    (iff : ∀ block, inUse block ↔ same block) : Marks family shapes same sets :=
  { marks with
    used_iff := fun set member index inside =>
      (marks.used_iff set member index inside).trans (iff _) }

theorem blockOf (marks : Marks family shapes inUse sets) (member : set ∈ sets)
    (inside : index < set.maxCIDRs) : BlockOf shapes (set.indexToCIDRBlock index) := by
  refine ⟨shape set, ?_, Covers.ofIndex inside, rfl⟩
  rw [← marks.shapes_eq]
  exact mem_map_of_mem member

variable {block : CIDR}

section

variable (marks : Marks family shapes inUse sets)
include marks

theorem exists_index (isBlock : BlockOf shapes block) :
    ∃ set ∈ sets, ∃ index < set.maxCIDRs, set.indexToCIDRBlock index = block := by
  obtain ⟨_, isShape, isUnion, single⟩ := isBlock
  rw [← marks.shapes_eq] at isShape
  obtain ⟨set, member, rfl⟩ := mem_map.mp isShape
  exact ⟨set, member, Covers.exists_index isUnion single⟩

theorem fits (found : sets[position]? = some set)
    (covers : Covers set cidr) : Fits shapes position cidr := by
  refine ⟨shape set, ?_, covers⟩
  rw [← marks.shapes_eq, getElem?_map, found, Option.map_some]

theorem exists_covers (fits : Fits shapes position cidr) :
    ∃ set, sets[position]? = some set ∧ Covers set cidr := by
  obtain ⟨shape, found, isUnion⟩ := fits
  rw [← marks.shapes_eq, getElem?_map] at found
  obtain ⟨set, isSet, rfl⟩ := Option.map_eq_some_iff.mp found
  exact ⟨set, isSet, isUnion⟩

theorem mem_set (found : sets[position]? = some set) (member : other ∈ sets.set position next) :
    other = next ∨ other ∈ sets ∧ other.Apart set := by
  obtain ⟨index, isOther⟩ := mem_iff_getElem?.mp member
  by_cases same : position = index
  · subst same
    rw [getElem?_set_self (List.getElem?_eq_some_iff.mp found).1] at isOther
    exact .inl (Option.some.inj isOther).symm
  · rw [getElem?_set_ne same] at isOther
    refine .inr ⟨mem_of_getElem? isOther, ?_⟩
    obtain ⟨inside, rfl⟩ := List.getElem?_eq_some_iff.mp isOther
    obtain ⟨within, rfl⟩ := List.getElem?_eq_some_iff.mp found
    rcases Nat.lt_or_gt_of_ne same with before | after
    · exact symm_of CidrSet.Apart (pairwise_iff_getElem.mp marks.apart _ _ _ _ before)
    · exact pairwise_iff_getElem.mp marks.apart _ _ _ _ after

theorem eq_or_apart (found : sets[position]? = some set)
    (member : other ∈ sets) : other = set ∨ other.Apart set := by
  obtain ⟨within, rfl⟩ := List.getElem?_eq_some_iff.mp found
  rw [← set_getElem_self within] at member
  exact (marks.mem_set found member).imp_right And.right

end

theorem map_shape_set (found : sets[position]? = some set) (becomes : set.Becomes next used) :
    (sets.set position next).map shape = sets.map shape := by
  have same : shape next = shape set := by
    unfold shape
    rw [becomes.clusterPrefix, becomes.nodeMaskSize]
  obtain ⟨within, rfl⟩ := List.getElem?_eq_some_iff.mp found
  rw [map_set, same, ← getElem_map shape, set_getElem_self]
  rw [length_map]
  exact within

section

variable (marks : Marks family shapes inUse sets)
include marks

/-- The only set with blocks in a CIDR that one of the sets covers. -/
theorem eq_of_liesIn (member : set ∈ sets)
    (covers : Covers set cidr) (isBlock : BlockOf shapes block) (lies : LiesIn block cidr) :
    ∃ index ∈ blocksIn set cidr, set.indexToCIDRBlock index = block := by
  obtain ⟨position, found⟩ := mem_iff_getElem?.mp member
  obtain ⟨other, isOther, index, inside, rfl⟩ := marks.exists_index isBlock
  rcases marks.eq_or_apart found isOther with rfl | apart
  · exact ⟨index, mem_blocksIn.mpr ⟨inside, lies⟩, rfl⟩
  · exact absurd lies (covers.not_liesIn apart inside)

section

variable (found : sets[position]? = some set)
include found

/-- The blocks in use after a set has been replaced, whose blocks in a CIDR have changed. -/
theorem replace (becomes : set.Becomes next used) (covers : Covers set cidr)
    {f : Prop → Prop → Prop}
    (own : ∀ index, index ∈ used ↔ f (index ∈ set.used) (index ∈ blocksIn set cidr))
    (others : ∀ before, f before False ↔ before) :
    Marks family shapes (fun block => f (inUse block) (LiesIn block cidr))
      (sets.set position next) := by
  have shapes_eq := map_shape_set found becomes
  have member := mem_of_getElem? found
  refine ⟨shapes_eq.trans marks.shapes_eq, ?_, ?_, ?_, ?_, ?_⟩
  · have apart : (sets.map shape).Pairwise fun first second =>
        first.1.overlaps second.1 = false := pairwise_map.mpr marks.apart
    rw [← shapes_eq, pairwise_map] at apart
    exact apart
  · intro other isLater
    rcases marks.mem_set found isLater with rfl | ⟨earlier, _⟩
    · exact becomes.accounted
    · exact marks.accounted other earlier
  · intro other isLater
    rcases marks.mem_set found isLater with rfl | ⟨earlier, _⟩
    · exact becomes.addressable (marks.addressable set member)
    · exact marks.addressable other earlier
  · intro other isLater
    rcases marks.mem_set found isLater with rfl | ⟨earlier, _⟩
    · rw [becomes.clusterPrefix]
      exact marks.family_eq set member
    · exact marks.family_eq other earlier
  · intro other isLater index inside
    rcases marks.mem_set found isLater with rfl | ⟨earlier, apart⟩
    · rw [becomes.maxCIDRs] at inside
      rw [becomes.used, becomes.indexToCIDRBlock, own, mem_blocksIn, and_iff_right inside,
        marks.used_iff set member index inside]
    · rw [iff_false_intro (covers.not_liesIn apart inside), others]
      exact marks.used_iff other earlier index inside

theorem occupy (covers : Covers set cidr) :
    ∃ next, set.occupy cidr = some next ∧
      Marks family shapes (fun block => inUse block ∨ LiesIn block cidr)
        (sets.set position next) := by
  have member := mem_of_getElem? found
  obtain ⟨next, occupied, becomes⟩ :=
    covers.occupy (marks.addressable set member) (marks.accounted set member)
  exact ⟨next, occupied, marks.replace found becomes covers (fun _ => Finset.mem_union)
    fun _ => or_iff_left not_false⟩

theorem release (covers : Covers set cidr) :
    ∃ next, set.release cidr = some next ∧
      Marks family shapes (fun block => inUse block ∧ ¬LiesIn block cidr)
        (sets.set position next) := by
  have member := mem_of_getElem? found
  obtain ⟨next, released, becomes⟩ :=
    covers.release (marks.addressable set member) (marks.accounted set member)
  exact ⟨next, released, marks.replace (f := fun before lies => before ∧ ¬lies) found becomes covers
    (fun _ => Finset.mem_sdiff) fun _ => and_iff_left not_false⟩

theorem allocateNext (room : set.isFull = false) :
    ∃ cidr next, set.allocateNext = .ok (cidr, next) ∧ Covers set cidr ∧ Free shapes inUse cidr ∧
      Marks family shapes (fun block => inUse block ∨ LiesIn block cidr)
        (sets.set position next) := by
  have member := mem_of_getElem? found
  obtain ⟨chosen, next, allocated, inside, unused, _, becomes⟩ :=
    CidrSet.allocateNext_spec (marks.accounted set member) room
  have covers := Covers.ofIndex inside
  refine ⟨_, next, allocated, covers, ?_, marks.replace found becomes covers ?_
    fun _ => or_iff_left not_false⟩
  · intro block isBlock lies used
    obtain ⟨index, inBlocks, rfl⟩ := marks.eq_of_liesIn member covers isBlock lies
    rw [Covers.blocksIn_indexToCIDRBlock inside, Finset.mem_singleton] at inBlocks
    rw [inBlocks, ← marks.used_iff set member chosen inside] at used
    exact unused used
  · intro index
    rw [Covers.blocksIn_indexToCIDRBlock inside, Finset.mem_singleton, Finset.mem_insert, or_comm]

end

/-- No block lies in a CIDR that is in the range of no set. -/
theorem not_liesIn_of_not_inRange
    (far : ¬∃ set ∈ sets, set.inRange cidr = true) (isBlock : BlockOf shapes block) :
    ¬LiesIn block cidr := by
  intro lies
  obtain ⟨set, member, index, inside, rfl⟩ := marks.exists_index isBlock
  have inSet := (CidrSet.isBlock_indexToCIDRBlock inside).1.inside
  exact far ⟨set, member, CIDR.overlaps_of_contains inSet lies.2⟩

theorem unions (covers : ∀ set ∈ sets, set.inRange cidr = true → Covers set cidr) :
    ∀ shape ∈ shapes, shape.1.overlaps cidr = true → IsUnion shape.1 shape.2 cidr := by
  intro _ isShape near
  rw [← marks.shapes_eq] at isShape
  obtain ⟨set, member, rfl⟩ := mem_map.mp isShape
  exact covers set member near

theorem inUse_of_subset (member : set ∈ sets) (covers : Covers set cidr)
    (used : blocksIn set cidr ⊆ set.used) (isBlock : BlockOf shapes block)
    (lies : LiesIn block cidr) : inUse block := by
  obtain ⟨index, inBlocks, rfl⟩ := marks.eq_of_liesIn member covers isBlock lies
  exact (marks.used_iff set member index (mem_blocksIn.mp inBlocks).1).mp (used inBlocks)

/-- A CIDR whose blocks are all in use or all free may be asked for. -/
theorem settled (regular : ∀ set ∈ sets, set.inRange cidr = true → Covers set cidr ∧
      (blocksIn set cidr ⊆ set.used ∨ Disjoint (blocksIn set cidr) set.used)) :
    Settled shapes inUse cidr := by
  refine ⟨marks.unions fun set member near => (regular set member near).1, ?_⟩
  by_cases exists_near : ∃ set ∈ sets, set.inRange cidr = true
  · obtain ⟨set, member, near⟩ := exists_near
    obtain ⟨covers, used | free⟩ := regular set member near
    · exact .inl fun block => marks.inUse_of_subset member covers used
    · refine .inr fun block isBlock lies inUse => ?_
      obtain ⟨index, inBlocks, rfl⟩ := marks.eq_of_liesIn member covers isBlock lies
      rw [← marks.used_iff set member index (mem_blocksIn.mp inBlocks).1] at inUse
      exact Finset.disjoint_left.mp free inBlocks inUse
  · exact .inr fun block isBlock lies =>
      absurd lies (marks.not_liesIn_of_not_inRange exists_near isBlock)

end

end Marks

/-- The CIDR is a single block, or all its blocks are in use. -/
structure Lasts (shapes : List (CIDR × Nat)) (inUse : CIDR → Prop) (cidr : CIDR) : Prop where
  unions : ∀ shape ∈ shapes, shape.1.overlaps cidr = true → IsUnion shape.1 shape.2 cidr
  whole : (∃ shape ∈ shapes, IsUnion shape.1 shape.2 cidr ∧ cidr.bits = shape.2) ∨
    ∀ block, BlockOf shapes block → LiesIn block cidr → inUse block

namespace Lasts

theorem mono (lasts : Lasts shapes inUse cidr) {more : CIDR → Prop}
    (grows : ∀ block, inUse block → more block) : Lasts shapes more cidr :=
  ⟨lasts.unions, lasts.whole.imp_right fun used block isBlock lies =>
    grows block (used block isBlock lies)⟩

theorem settled (lasts : Lasts shapes inUse cidr) (marks : Marks family shapes inUse sets) :
    Settled shapes inUse cidr := by
  refine ⟨lasts.unions, ?_⟩
  rcases lasts.whole with ⟨_, isShape, isUnion, single⟩ | used
  · rw [← marks.shapes_eq] at isShape
    obtain ⟨set, member, rfl⟩ := mem_map.mp isShape
    have covers : Covers set cidr := isUnion
    obtain ⟨index, inside, rfl⟩ := covers.exists_index single
    -- The CIDR is one block, so that every block that lies in it is the CIDR itself.
    have same : ∀ block, BlockOf shapes block → LiesIn block (set.indexToCIDRBlock index) →
        block = set.indexToCIDRBlock index := by
      intro block isBlock lies
      obtain ⟨other, inBlocks, rfl⟩ := marks.eq_of_liesIn member covers isBlock lies
      rw [Covers.blocksIn_indexToCIDRBlock inside, Finset.mem_singleton] at inBlocks
      rw [inBlocks]
    by_cases used : inUse (set.indexToCIDRBlock index)
    · exact .inl fun block isBlock lies => same block isBlock lies ▸ used
    · exact .inr fun block isBlock lies => same block isBlock lies ▸ used
  · exact .inl used

/-- A CIDR that is a block or is wholly in use. -/
theorem ofSets (marks : Marks family shapes inUse sets)
    (lasting : ∀ set ∈ sets, set.inRange cidr = true → Covers set cidr ∧
      (cidr.bits = set.nodeMaskSize ∨ blocksIn set cidr ⊆ set.used)) :
    Lasts shapes inUse cidr := by
  refine ⟨marks.unions fun set member near => (lasting set member near).1, ?_⟩
  by_cases exists_near : ∃ set ∈ sets, set.inRange cidr = true
  · obtain ⟨set, member, near⟩ := exists_near
    obtain ⟨covers, single | used⟩ := lasting set member near
    · exact .inl ⟨shape set, marks.shapes_eq ▸ mem_map_of_mem member, covers, single⟩
    · exact .inr fun block => marks.inUse_of_subset member covers used
  · exact .inr fun block isBlock lies =>
      absurd lies (marks.not_liesIn_of_not_inRange exists_near isBlock)

end Lasts

/-! ### Allocation and release over all sets -/

variable {later : List CidrSet}

theorem occupyFirst_ok (done : occupyFirst cidr sets = .ok (position, later)) :
    ∃ set next, sets[position]? = some set ∧ set.inRange cidr = true ∧
      set.isAllocated cidr = some false ∧ set.occupy cidr = some next ∧
      later = sets.set position next := by
  induction sets generalizing position later with
  | nil => cases done
  | cons set rest inductionHypothesis =>
    unfold occupyFirst at done
    split at done
    case isTrue far =>
      obtain ⟨result, inRest, returned⟩ := ok_of_bind done
      cases returned
      obtain ⟨found, next, isFound, facts, allocated, occupied, isLater⟩ :=
        inductionHypothesis inRest
      exact ⟨found, next, isFound, facts, allocated, occupied, congrArg (set :: ·) isLater⟩
    case isFalse near =>
      rw [Bool.not_eq_true', Bool.not_eq_false] at near
      split at done
      · cases done
      · split at done
        · cases done
        · cases done
        case h_3 unallocated =>
          split at done
          · cases done
          case h_2 next occupied =>
            cases done
            exact ⟨set, next, rfl, near, unallocated, occupied, rfl⟩

/-- A free CIDR comes from a set that is not full. -/
theorem allocateFirstFreeCIDR_ok (done : allocateFirstFreeCIDR sets = .ok (cidr, position, later)) :
    ∃ set next, sets[position]? = some set ∧ set.isFull = false ∧
      set.allocateNext = .ok (cidr, next) ∧ later = sets.set position next := by
  induction sets generalizing position later with
  | nil => cases done
  | cons set rest inductionHypothesis =>
    unfold allocateFirstFreeCIDR at done
    split at done
    case isTrue full =>
      obtain ⟨result, inRest, returned⟩ := ok_of_bind done
      cases returned
      obtain ⟨found, next, isFound, room, allocated, isLater⟩ := inductionHypothesis inRest
      exact ⟨found, next, isFound, room, allocated, congrArg (set :: ·) isLater⟩
    case isFalse room =>
      rw [Bool.not_eq_true] at room
      split at done
      · cases done
      case h_2 chosen next allocated =>
        cases done
        exact ⟨set, next, rfl, room, allocated, rfl⟩

/-- A CIDR is released in the only set whose range it is in. -/
theorem releaseFirst_eq (found : sets[position]? = some set) (near : set.inRange cidr = true)
    (released : set.release cidr = some next)
    (alone : ∀ earlier < position, ∀ other, sets[earlier]? = some other →
      other.inRange cidr = false) :
    releaseFirst cidr sets = sets.set position next := by
  induction sets generalizing position with
  | nil => cases found
  | cons first rest inductionHypothesis =>
    unfold releaseFirst
    cases position with
    | zero =>
      cases found
      rw [near, released]
      rfl
    | succ position =>
      rw [alone 0 (Nat.succ_pos _) first rfl, Bool.not_false, if_pos rfl, set_cons_succ]
      refine congrArg (first :: ·) (inductionHypothesis found ?_)
      intro earlier before other isOther
      exact alone (earlier + 1) (Nat.succ_lt_succ before) other isOther

variable (marks : Marks family shapes inUse sets)

include marks in
/-- A CIDR that is occupied had a block that was not in use. -/
theorem Marks.occupyFirst
    (unions : ∀ shape ∈ shapes, shape.1.overlaps cidr = true → IsUnion shape.1 shape.2 cidr)
    (done : occupyFirst cidr sets = .ok (position, later)) :
    Fits shapes position cidr ∧ (∃ block, BlockOf shapes block ∧ LiesIn block cidr ∧ ¬inUse block) ∧
      Marks family shapes (fun block => inUse block ∨ LiesIn block cidr) later := by
  obtain ⟨set, next, found, near, unallocated, occupied, rfl⟩ := occupyFirst_ok done
  have member := mem_of_getElem? found
  have isShape : shape set ∈ shapes := marks.shapes_eq ▸ mem_map_of_mem member
  have covers : Covers set cidr := unions _ isShape near
  rw [covers.isAllocated (marks.addressable set member), Option.some_inj, decide_eq_false_iff_not,
    Finset.not_subset] at unallocated
  obtain ⟨index, inBlocks, unused⟩ := unallocated
  obtain ⟨inside, lies⟩ := mem_blocksIn.mp inBlocks
  rw [marks.used_iff set member index inside] at unused
  obtain ⟨result, isResult, after⟩ := marks.occupy found covers
  rw [occupied, Option.some_inj] at isResult
  subst isResult
  exact ⟨marks.fits found covers, ⟨_, marks.blockOf member inside, lies, unused⟩, after⟩

include marks in
theorem Marks.releaseIn (fits : Fits shapes position cidr) :
    Marks family shapes (fun block => inUse block ∧ ¬LiesIn block cidr)
      (sets.modify position (releaseIn cidr)) := by
  obtain ⟨set, found, covers⟩ := marks.exists_covers fits
  obtain ⟨next, released, after⟩ := marks.release found covers
  rw [modify_eq_set_getElem?, found]
  show Marks _ _ _ (sets.set position (Podcidr.releaseIn cidr set))
  rw [Podcidr.releaseIn, released]
  exact after

variable {stack : RevertStack}

include marks in
/-- The allocations of a stack take their blocks out of use when they are reverted. -/
theorem Marks.revert (fits : ∀ entry ∈ stack, Fits shapes entry.1 entry.2) :
    Marks family shapes (fun block => inUse block ∧ ∀ entry ∈ stack, ¬LiesIn block entry.2)
      (stack.revert sets) := by
  induction stack generalizing sets inUse with
  | nil => exact marks.congr fun block => (and_iff_left (forall_mem_nil _)).symm
  | cons entry rest inductionHypothesis =>
    have first := marks.releaseIn (fits entry (.head _))
    have later := inductionHypothesis first (forall_mem_cons.mp fits).2
    refine later.congr fun block => ?_
    rw [forall_mem_cons, and_assoc]

include marks in
theorem Marks.releaseFirst (fits : Fits shapes position cidr) :
    Marks family shapes (fun block => inUse block ∧ ¬LiesIn block cidr)
      (releaseFirst cidr sets) := by
  obtain ⟨set, found, covers⟩ := marks.exists_covers fits
  obtain ⟨next, released, after⟩ := marks.release found covers
  rw [releaseFirst_eq found covers.inRange released]
  · exact after
  · intro earlier before other isOther
    obtain ⟨within, rfl⟩ := List.getElem?_eq_some_iff.mp found
    obtain ⟨inside, rfl⟩ := List.getElem?_eq_some_iff.mp isOther
    exact covers.not_inRange (pairwise_iff_getElem.mp marks.apart _ _ _ _ before)

include marks in
theorem Marks.releaseCIDRs {cidrs : List CIDR}
    (fits : ∀ cidr ∈ cidrs, ∃ position, Fits shapes position cidr) :
    Marks family shapes (fun block => inUse block ∧ ∀ cidr ∈ cidrs, ¬LiesIn block cidr)
      (releaseCIDRs sets cidrs) := by
  induction cidrs generalizing sets inUse with
  | nil => exact marks.congr fun block => (and_iff_left (forall_mem_nil _)).symm
  | cons cidr rest inductionHypothesis =>
    obtain ⟨position, fitsFirst⟩ := fits cidr (.head _)
    have later := inductionHypothesis (marks.releaseFirst fitsFirst)
      (forall_mem_cons.mp fits).2
    refine later.congr fun block => ?_
    rw [forall_mem_cons, and_assoc]

/-- What has been allocated since the blocks with a property were in use. -/
structure Stacked (shapes : List (CIDR × Nat)) (inUse : CIDR → Prop) (stack : RevertStack) :
    Prop where
  fits : ∀ entry ∈ stack, Fits shapes entry.1 entry.2
  free : ∀ entry ∈ stack, Free shapes inUse entry.2

def withStack (inUse : CIDR → Prop) (stack : RevertStack) (block : CIDR) : Prop :=
  inUse block ∨ ∃ entry ∈ stack, LiesIn block entry.2

/-- Reverting a stack restores the blocks that were in use before. -/
theorem Stacked.revert (stacked : Stacked shapes inUse stack)
    (marks : Marks family shapes (withStack inUse stack) sets) :
    Marks family shapes inUse (stack.revert sets) := by
  have after := marks.revert stacked.fits
  refine { after with used_iff := fun set member index inside => ?_ }
  rw [after.used_iff set member index inside]
  have isBlock := after.blockOf member inside
  constructor
  · rintro ⟨used | ⟨entry, inStack, lies⟩, none⟩
    · exact used
    · exact absurd lies (none entry inStack)
  · exact fun used => ⟨.inl used, fun entry inStack lies =>
      stacked.free entry inStack _ isBlock lies used⟩

/-- Either all CIDRs come into use, or none. -/
theorem occupyAll_marks {cidrs : List CIDR}
    (marks : Marks family shapes (withStack inUse stack) sets)
    (stacked : Stacked shapes inUse stack) (settled : ∀ cidr ∈ cidrs, Settled shapes inUse cidr) :
    match occupyAll cidrs sets stack with
    | (later, .error _) => Marks family shapes inUse later
    | (later, .ok final) => Marks family shapes (withStack inUse final) later ∧
        Stacked shapes inUse final ∧ final.map Prod.snd = cidrs.reverse ++ stack.map Prod.snd := by
  induction cidrs generalizing sets stack with
  | nil => exact ⟨marks, stacked, rfl⟩
  | cons cidr rest inductionHypothesis =>
    unfold occupyAll
    have own := settled cidr (.head _)
    cases first : occupyFirst cidr sets with
    | error error => exact stacked.revert marks
    | ok result =>
      obtain ⟨position, later⟩ := result
      obtain ⟨fits, ⟨block, isBlock, lies, unused⟩, after⟩ := marks.occupyFirst own.unions first
      have free : Free shapes inUse cidr := by
        rcases own.whole with used | free
        · exact absurd (.inl (used block isBlock lies)) unused
        · exact free
      have afterStack :
          Marks family shapes (withStack inUse ((position, cidr) :: stack)) later := by
        refine after.congr fun block => ?_
        unfold withStack
        rw [exists_mem_cons_iff, or_assoc, or_comm (a := LiesIn block cidr)]
      have further := @inductionHypothesis later ((position, cidr) :: stack) afterStack
        ⟨forall_mem_cons.mpr ⟨fits, stacked.fits⟩, forall_mem_cons.mpr ⟨free, stacked.free⟩⟩
        (forall_mem_cons.mp settled).2
      dsimp only
      revert further
      split
      · exact id
      · rintro ⟨marked, isStacked, same⟩
        refine ⟨marked, isStacked, same.trans ?_⟩
        rw [reverse_cons, append_assoc]
        rfl

/-! ### The allocation for one family -/

open Manager (Outcome attempt allocateFree)

/-- The CIDRs are unions of blocks that were free and are in use now, unless the allocation is
reverted. -/
structure Attempted (family : Family) (shapes : List (CIDR × Nat)) (inUse : CIDR → Prop)
    (later : List CidrSet) (outcome : Outcome) : Prop where
  marks : Marks family shapes (fun block => inUse block ∨ ∃ cidr ∈ outcome.cidrs, LiesIn block cidr)
    later
  fits : ∀ cidr ∈ outcome.cidrs, ∃ position, Fits shapes position cidr
  free : ∀ cidr ∈ outcome.cidrs, Free shapes inUse cidr
  reverted : Marks family shapes inUse (outcome.revert later)

variable {outcome : Outcome} {cidrs : List CIDR}

theorem Attempted.unchanged (marks : Marks family shapes inUse later) (none : outcome.cidrs = [])
    (same : outcome.revert later = later) : Attempted family shapes inUse later outcome := by
  refine ⟨marks.congr fun block => ?_, ?_, ?_, same.symm ▸ marks⟩
  all_goals simp [none]

theorem Attempted.marks_of_nil (attempted : Attempted family shapes inUse later outcome)
    (none : outcome.cidrs = []) : Marks family shapes inUse later := by
  refine attempted.marks.congr fun block => ?_
  rw [none]
  exact or_iff_left (by simp)

theorem Attempted.rejected (marks : Marks family shapes inUse later) (error : AllocError) :
    Attempted family shapes inUse later
      (if error.isConflict then .conflict error else .failed error) := by
  split
  · exact .unchanged marks rfl rfl
  · exact .unchanged marks rfl rfl

theorem Stacked.attempted (stacked : Stacked shapes inUse stack)
    (marks : Marks family shapes (withStack inUse stack) later)
    (same : ∀ cidr, cidr ∈ stack.map Prod.snd ↔ cidr ∈ cidrs) :
    Attempted family shapes inUse later (.allocated cidrs stack) := by
  have entryOf : ∀ cidr ∈ cidrs, ∃ entry ∈ stack, entry.2 = cidr :=
    fun cidr member => mem_map.mp ((same cidr).mpr member)
  refine ⟨marks.congr fun block => or_congr_right ?_, ?_, ?_, stacked.revert marks⟩
  · constructor
    · rintro ⟨entry, member, lies⟩
      exact ⟨entry.2, (same _).mp (mem_map_of_mem member), lies⟩
    · rintro ⟨_, member, lies⟩
      obtain ⟨entry, inStack, rfl⟩ := entryOf _ member
      exact ⟨entry, inStack, lies⟩
  · intro cidr member
    obtain ⟨entry, inStack, rfl⟩ := entryOf cidr member
    exact ⟨entry.1, stacked.fits entry inStack⟩
  · intro cidr member
    obtain ⟨entry, inStack, rfl⟩ := entryOf cidr member
    exact stacked.free entry inStack

include marks in
/-- A free CIDR of the first set that is not full. -/
theorem Marks.allocateFirstFreeCIDR
    (done : allocateFirstFreeCIDR sets = .ok (cidr, position, later)) :
    Attempted family shapes inUse later (.allocated [cidr] [(position, cidr)]) := by
  obtain ⟨set, next, found, room, allocated, rfl⟩ := allocateFirstFreeCIDR_ok done
  obtain ⟨chosen, result, isChosen, covers, free, after⟩ := marks.allocateNext found room
  rw [allocated] at isChosen
  cases isChosen
  refine Stacked.attempted ⟨?_, ?_⟩ (after.congr fun block => ?_) fun other => .rfl
  · exact forall_mem_singleton.mpr (marks.fits found covers)
  · exact forall_mem_singleton.mpr free
  · rw [withStack, exists_mem_cons_iff]
    exact or_congr_right (or_iff_left (by simp)).symm

include marks in
theorem attempt_attempted (can : Bool) (settled : ∀ cidr ∈ cidrs, Settled shapes inUse cidr) :
    Attempted family shapes inUse (attempt can family sets cidrs).1
      (attempt can family sets cidrs).2 := by
  unfold attempt
  split
  · exact .unchanged marks rfl rfl
  case isFalse able =>
    rw [Bool.or_eq_true, not_or] at able
    split
    · split
      case h_1 error _ => exact .rejected marks error
      case h_2 chosen position later done => exact marks.allocateFirstFreeCIDR done
    · have start : Marks family shapes (withStack inUse []) sets :=
        marks.congr fun block =>
          (or_iff_left (by simp)).symm
      have done := occupyAll_marks start ⟨forall_mem_nil _, forall_mem_nil _⟩ settled
      rw [allocateIPNet, if_neg able.2]
      rcases result : occupyAll cidrs sets [] with ⟨later, error | final⟩
      · rw [result] at done
        exact .rejected done error
      · rw [result] at done
        obtain ⟨marked, stacked, same⟩ := done
        refine stacked.attempted marked fun cidr => ?_
        rw [same, map_nil, append_nil, mem_reverse]

include marks in
theorem allocateFree_attempted (done : allocateFree sets = .ok (cidrs, stack, later)) :
    Attempted family shapes inUse later (.allocated cidrs stack) := by
  unfold allocateFree at done
  split at done
  · cases done
    exact .unchanged marks rfl rfl
  · obtain ⟨result, first, returned⟩ := ok_of_bind done
    cases returned
    exact marks.allocateFirstFreeCIDR first

end Constellation.Podcidr
