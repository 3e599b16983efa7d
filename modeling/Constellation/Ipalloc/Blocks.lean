/-
This file proves what the list of available blocks makes of its blocks. A layout names the blocks
in the order of their addresses. The links follow the layout, the heap slice holds each block
once, and every operation on the links replaces a part of the layout.
-/
import Constellation.Ipalloc.Allocator
import Constellation.Lib.LinkedList

namespace Constellation.Ipalloc

open Ipam (Family)
open Lib List Function BlockList Addr

/-! ### Addresses by number -/

namespace Addr

variable {family : Family} {n k : Nat}

section

variable (bound : n < 2 ^ family.bitLen)
include bound

theorem ofNumber_of_lt :
    ofNumber family n = some ⟨family, n, "", bound, fun _ => rfl⟩ :=
  dif_pos bound

theorem next_ofNumber :
    (ofNumber family n).next = ofNumber family (n + 1) := by
  rw [ofNumber_of_lt bound]
  rfl

theorem prev_ofNumber (positive : 0 < n) :
    (ofNumber family n).prev = ofNumber family (n - 1) := by
  have below : n - 1 < 2 ^ family.bitLen := (Nat.sub_le _ _).trans_lt bound
  rw [ofNumber_of_lt bound, ofNumber_of_lt below]
  exact if_neg (Nat.ne_of_gt positive)

theorem ofNumber_inj :
    ofNumber family n = ofNumber family k ↔ n = k := by
  refine ⟨fun same => ?_, fun same => by rw [same]⟩
  rw [ofNumber_of_lt bound, ofNumber] at same
  split at same
  case isTrue bound' => exact congrArg IP.value (Option.some.inj same)
  case isFalse beyond => cases same

theorem number_ofNumber : (ofNumber family n).number = n := by
  rw [ofNumber_of_lt bound]
  rfl

/-- Addresses of a family without a zone compare by number. -/
theorem compare_ofNumber (bound' : k < 2 ^ family.bitLen) :
    (ofNumber family n).compare (ofNumber family k) = Ord.compare n k := by
  rw [ofNumber_of_lt bound, ofNumber_of_lt bound']
  have same : ∀ m : Nat, Ord.compare m m = .eq := fun m => Nat.compare_eq_eq.mpr rfl
  have zones : Ord.compare "" "" = .eq := by decide
  simp only [compare, bitLen, number, zone, Option.elim_some, same, zones, Ordering.then_eq,
    Ordering.eq_then]

end

variable {addr other : Addr}

theorem compare_of_bitLen_lt (shorter : addr.bitLen < other.bitLen) : addr.compare other = .lt := by
  rw [compare, Nat.compare_eq_lt.mpr shorter]
  rfl

theorem compare_of_lt_bitLen (longer : other.bitLen < addr.bitLen) : addr.compare other = .gt := by
  rw [compare, Nat.compare_eq_gt.mpr longer]
  rfl

theorem bitLen_ofNumber (bound : n < 2 ^ family.bitLen) :
    (ofNumber family n).bitLen = family.bitLen := by
  rw [ofNumber_of_lt bound]
  rfl

/-- An address without a zone that is as long as the addresses of a family is one of them. -/
theorem eq_ofNumber (zoneless : addr.zone = "") (sameLength : addr.bitLen = family.bitLen) :
    addr.number < 2 ^ family.bitLen ∧ addr = ofNumber family addr.number := by
  cases addr with
  | none => cases family <;> cases sameLength
  | some ip =>
    obtain ⟨ipFamily, value, ipZone, value_lt, zone_eq⟩ := ip
    obtain rfl : ipZone = "" := zoneless
    have sameFamily : ipFamily = family := by
      cases ipFamily <;> cases family <;> first | rfl | cases sameLength
    subst sameFamily
    exact ⟨value_lt, (ofNumber_of_lt value_lt).symm⟩

variable (bound : n < 2 ^ family.bitLen) (bound' : k < 2 ^ family.bitLen)
include bound bound'

theorem compare_eq_lt_iff : (ofNumber family n).compare (ofNumber family k) = .lt ↔ n < k := by
  rw [compare_ofNumber bound bound', Nat.compare_eq_lt]

theorem compare_eq_gt_iff : (ofNumber family n).compare (ofNumber family k) = .gt ↔ k < n := by
  rw [compare_ofNumber bound bound', Nat.compare_eq_gt]

end Addr

/-! ### The memory after an operation -/

namespace BlockList

variable (block : LinkedBlock) (abl : BlockList)

def prevOf (pointer : Nat) : Option Nat := (abl.memory pointer).prev

def nextOf (pointer : Nat) : Option Nat := (abl.memory pointer).next

variable (pointer other : Nat) (target link : Option Nat)

theorem memory_write_self : (abl.write pointer block).memory pointer = block :=
  update_self _ _ _

theorem memory_write_ne {pointer other : Nat} (differ : other ≠ pointer) :
    (abl.write pointer block).memory other = abl.memory other :=
  update_of_ne differ _ _

theorem memory_write (change : LinkedBlock → LinkedBlock) :
    (abl.write pointer (change (abl.memory pointer))).memory other =
      if some pointer = some other then change (abl.memory other) else abl.memory other := by
  by_cases same : other = pointer
  · subst same
    rw [if_pos rfl, memory_write_self]
  · rw [if_neg fun equal => same (Option.some.inj equal).symm, memory_write_ne _ _ same]

theorem memory_setNext : (abl.setNext target link).memory other =
    if target = some other then { abl.memory other with next := link } else abl.memory other := by
  cases target with
  | none => rfl
  | some pointer => exact memory_write _ _ _ fun block => { block with next := link }

theorem memory_setPrev : (abl.setPrev target link).memory other =
    if target = some other then { abl.memory other with prev := link } else abl.memory other := by
  cases target with
  | none => rfl
  | some pointer => exact memory_write _ _ _ fun block => { block with prev := link }

def boundsOf (pointer : Nat) : Addr × Addr :=
  ((abl.memory pointer).fromIP, (abl.memory pointer).toIP)

theorem prevOf_write :
    (abl.write pointer block).prevOf = Function.update abl.prevOf pointer block.prev :=
  comp_update LinkedBlock.prev abl.memory pointer block

theorem nextOf_write :
    (abl.write pointer block).nextOf = Function.update abl.nextOf pointer block.next :=
  comp_update LinkedBlock.next abl.memory pointer block

theorem views_eq {abl other : BlockList} (same : abl.memory = other.memory) :
    abl.prevOf = other.prevOf ∧ abl.nextOf = other.nextOf ∧ abl.boundsOf = other.boundsOf := by
  unfold prevOf nextOf boundsOf
  rw [same]
  exact ⟨rfl, rfl, rfl⟩

/-- The list with the links into a part of it set, as every operation leaves it. -/
def relink (front middle back : List Nat) : BlockList :=
  (abl.setNext front.getLast? (middle ++ back).head?).setPrev back.head? (front ++ middle).getLast?

section

variable (front middle back : List Nat)

theorem memory_relink : (abl.relink front middle back).memory other =
    { abl.memory other with
      next := if front.getLast? = some other then (middle ++ back).head? else abl.nextOf other
      prev := if back.head? = some other then (front ++ middle).getLast?
        else abl.prevOf other } := by
  rw [relink, memory_setPrev, memory_setNext]
  split <;> split <;> rfl

theorem slice_relink : (abl.relink front middle back).slice = abl.slice := by
  unfold relink setNext setPrev
  split <;> split <;> rfl

theorem fresh_relink : (abl.relink front middle back).fresh = abl.fresh := by
  unfold relink setNext setPrev
  split <;> split <;> rfl

end

variable {abl}

/-- Replacing a part of the links. `made` is the list in which the new blocks have been made. -/
theorem linked_relink {made : BlockList} {front old middle back : List Nat}
    (distinct : (front ++ (old ++ back)).Nodup)
    (linked : Linked abl.prevOf abl.nextOf none (front ++ (old ++ back)) none)
    (kept : ∀ pointer ∈ front ++ back, made.memory pointer = abl.memory pointer)
    (separate : ∀ pointer ∈ middle, pointer ∉ front ++ back)
    (linkedMiddle : Linked made.prevOf made.nextOf front.getLast? middle back.head?) :
    Linked (made.relink front middle back).prevOf (made.relink front middle back).nextOf none
      (front ++ (middle ++ back)) none := by
  have apart : ∀ pointer ∈ front, pointer ∉ back := by
    intro pointer inFront inBack
    rw [nodup_append] at distinct
    exact distinct.2.2 pointer inFront pointer (mem_append_right _ inBack) rfl
  have prevs : ∀ pointer, (made.relink front middle back).prevOf pointer =
      if back.head? = some pointer then (front ++ middle).getLast? else made.prevOf pointer :=
    fun pointer => congrArg LinkedBlock.prev (made.memory_relink pointer front middle back)
  have nexts : ∀ pointer, (made.relink front middle back).nextOf pointer =
      if front.getLast? = some pointer then (middle ++ back).head? else made.nextOf pointer :=
    fun pointer => congrArg LinkedBlock.next (made.memory_relink pointer front middle back)
  have keptPrev : ∀ pointer ∈ front ++ back, made.prevOf pointer = abl.prevOf pointer :=
    fun pointer member => by rw [prevOf, prevOf, kept pointer member]
  have keptNext : ∀ pointer ∈ front ++ back, made.nextOf pointer = abl.nextOf pointer :=
    fun pointer member => by rw [nextOf, nextOf, kept pointer member]
  refine Linked.splice distinct linked ?_ ?_ ?_ ?_ ?_ ?_ ?_
  · intro pointer member
    rw [prevs, if_neg fun head => apart pointer member (mem_of_head? head),
      keptPrev pointer (mem_append_left _ member)]
  · intro pointer member notLast
    rw [nexts, if_neg notLast, keptNext pointer (mem_append_left _ member)]
  · intro pointer last
    rw [nexts, if_pos last]
  · refine Linked.congr ?_ ?_ linkedMiddle
    · intro pointer member
      rw [prevs, if_neg]
      exact fun head => separate pointer member (mem_append_right _ (mem_of_head? head))
    · intro pointer member
      rw [nexts, if_neg]
      exact fun last => separate pointer member (mem_append_left _ (mem_of_getLast? last))
  · intro pointer head
    rw [prevs, if_pos head]
  · intro pointer member notHead
    rw [prevs, if_neg notHead, keptPrev pointer (mem_append_right _ member)]
  · intro pointer member
    rw [nexts, if_neg fun last => apart pointer (mem_of_getLast? last) member,
      keptNext pointer (mem_append_right _ member)]

theorem remove_eq {heap : HeapPackage} (lawful : heap.Lawful) {front back : List Nat}
    {pointer index : Nat} (perm : abl.slice.Perm (front ++ pointer :: back))
    (found : abl.slice[index]? = some pointer) :
    ∃ slice, abl.remove heap index = .ok (pointer, { abl with slice := slice }) ∧
      slice.Perm (front ++ back) := by
  obtain ⟨bound, atIndex⟩ := List.getElem?_eq_some_iff.mp found
  refine ⟨heap.remove abl.less abl.slice index, ?_, ?_⟩
  · unfold remove
    rw [found]
  · refine (lawful.remove_perm _ _ _ bound).trans ?_
    have whole : (pointer :: abl.slice.eraseIdx index).Perm abl.slice := by
      rw [← atIndex]
      exact getElem_cons_eraseIdx_perm bound
    exact ((whole.trans perm).trans perm_middle).cons_inv

end BlockList

/-! ### Layouts -/

/-- A block of a layout, with its pointer and the numbers of its bounds. -/
structure Run where
  pointer : Nat
  first : Nat
  last : Nat
  deriving DecidableEq, Repr

def pointers (runs : List Run) : List Nat := runs.map (·.pointer)

@[simp]
theorem pointers_append (runs others : List Run) :
    pointers (runs ++ others) = pointers runs ++ pointers others :=
  map_append

@[simp]
theorem pointers_cons (run : Run) (runs : List Run) :
    pointers (run :: runs) = run.pointer :: pointers runs := rfl

@[simp]
theorem pointers_nil : pointers [] = [] := rfl

theorem pointer_mem {run : Run} {runs : List Run} (member : run ∈ runs) :
    run.pointer ∈ pointers runs :=
  mem_map_of_mem member

/-- The slice holds each pointer once, the links follow the order, and the bounds are those of the
layout. -/
structure Laid (family : Family) (abl : BlockList) (runs : List Run) : Prop where
  perm : abl.slice.Perm (pointers runs)
  distinct : (pointers runs).Nodup
  old : ∀ run ∈ runs, run.pointer < abl.fresh
  linked : Linked abl.prevOf abl.nextOf none (pointers runs) none
  bounds : ∀ run ∈ runs, abl.boundsOf run.pointer
    = (ofNumber family run.first, ofNumber family run.last)

namespace Laid

variable {heap : HeapPackage} {family : Family} {abl : BlockList} {front back : List Run}
  {first last : Nat} {pointer : Nat}
variable {run : Run} {runs : List Run} {index : Nat}

theorem fromIP_eq (laid : Laid family abl runs) (member : run ∈ runs) :
    (abl.memory run.pointer).fromIP = ofNumber family run.first :=
  congrArg Prod.fst (laid.bounds run member)

theorem toIP_eq (laid : Laid family abl runs) (member : run ∈ runs) :
    (abl.memory run.pointer).toIP = ofNumber family run.last :=
  congrArg Prod.snd (laid.bounds run member)

theorem links (laid : Laid family abl (front ++ run :: back)) :
    (abl.memory run.pointer).prev = (pointers front).getLast? ∧
      (abl.memory run.pointer).next = (pointers back).head? := by
  have linked := laid.linked
  rw [pointers_append, pointers_cons] at linked
  have found := Linked.links linked
  rw [Option.or_none, Option.or_none] at found
  exact found

/-- Replacing a part of a layout. `made` is the list in which the new blocks have been made, and
`after` the list with the new links. -/
theorem replace (old : List Run) (laid : Laid family abl (front ++ (old ++ back)))
    (middle : List Run) (made after : BlockList)
    (kept : ∀ pointer < abl.fresh, made.memory pointer = abl.memory pointer)
    (later : abl.fresh ≤ made.fresh) (distinct : (pointers middle).Nodup)
    (made_old : ∀ run ∈ middle, run.pointer < made.fresh)
    (separate : ∀ run ∈ middle, abl.fresh ≤ run.pointer)
    (linkedMiddle : Linked made.prevOf made.nextOf (pointers front).getLast? (pointers middle)
      (pointers back).head?) (bounds : ∀ run ∈ middle, made.boundsOf run.pointer
      = (ofNumber family run.first, ofNumber family run.last)) (memory : after.memory
      = (made.relink (pointers front) (pointers middle) (pointers back)).memory)
    (fresh : after.fresh = made.fresh)
    (perm : after.slice.Perm (pointers (front ++ (middle ++ back)))) :
    Laid family after (front ++ (middle ++ back)) := by
  have old := laid.old
  have oldBounds := laid.bounds
  simp only [forall_mem_append] at old oldBounds
  have oldPointers : ∀ pointer ∈ pointers front ++ pointers back, pointer < abl.fresh := by
    simp only [pointers, forall_mem_append, forall_mem_map]
    exact ⟨old.1, old.2.2⟩
  have separatePointers : ∀ pointer ∈ pointers middle,
      pointer ∉ pointers front ++ pointers back := by
    intro pointer member inRest
    obtain ⟨run, listed, rfl⟩ := mem_map.mp member
    exact absurd (oldPointers _ inRest) (Nat.not_lt.mpr (separate run listed))
  have laidDistinct := laid.distinct
  have linked := laid.linked
  rw [pointers_append, pointers_append] at laidDistinct linked
  have relinked := linked_relink laidDistinct linked
    (fun pointer member => kept pointer (oldPointers pointer member)) separatePointers linkedMiddle
  obtain ⟨prevs, nexts, afterBounds⟩ := views_eq memory
  have madeBounds (pointer : Nat) : after.boundsOf pointer = made.boundsOf pointer := by
    rw [afterBounds, boundsOf, memory_relink]
    rfl
  have keptBounds {pointer : Nat} (isOld : pointer < abl.fresh) :
      after.boundsOf pointer = abl.boundsOf pointer := by
    rw [madeBounds, boundsOf, kept pointer isOld]
    rfl
  constructor
  case perm => exact perm
  case distinct =>
    simp only [pointers_append, nodup_append, forall_mem_append] at laidDistinct ⊢
    refine ⟨laidDistinct.1, ⟨distinct, laidDistinct.2.1.2.1, ?_⟩, fun pointer inFront =>
      ⟨?_, (laidDistinct.2.2 pointer inFront).2⟩⟩
    · rintro pointer inMiddle _ inBack rfl
      exact separatePointers pointer inMiddle (mem_append_right _ inBack)
    · rintro _ inMiddle rfl
      exact separatePointers pointer inMiddle (mem_append_left _ inFront)
  case old =>
    rw [fresh]
    simp only [forall_mem_append]
    exact ⟨fun run member => (old.1 run member).trans_le later, made_old,
      fun run member => (old.2.2 run member).trans_le later⟩
  case linked =>
    rw [prevs, nexts, pointers_append, pointers_append]
    exact relinked
  case bounds =>
    simp only [forall_mem_append]
    refine ⟨fun run member => ?_, fun run member => ?_, fun run member => ?_⟩
    · rw [keptBounds (old.1 run member), oldBounds.1 run member]
    · rw [madeBounds, bounds run member]
    · rw [keptBounds (old.2.2 run member), oldBounds.2.2 run member]

theorem resize (laid : Laid family abl (front ++ run :: back)) (block : LinkedBlock)
    (samePrev : block.prev = (abl.memory run.pointer).prev)
    (sameNext : block.next = (abl.memory run.pointer).next)
    (isFrom : block.fromIP = ofNumber family first) (isTo : block.toIP = ofNumber family last) :
    Laid family (abl.write run.pointer block) (front ++ ⟨run.pointer, first, last⟩ :: back) := by
  have same : pointers (front ++ ⟨run.pointer, first, last⟩ :: back)
      = pointers (front ++ run :: back) := by
    simp only [pointers_append, pointers_cons]
  have distinct := laid.distinct
  rw [pointers_append, pointers_cons, nodup_middle, nodup_cons, ← pointers_append] at distinct
  have others : ∀ other ∈ front ++ back,
      (abl.write run.pointer block).boundsOf other.pointer = abl.boundsOf other.pointer := by
    intro other member
    rw [boundsOf, memory_write_ne]
    · rfl
    · exact fun equal => distinct.1 (equal ▸ pointer_mem member)
  have old := laid.old
  have bounds := laid.bounds
  simp only [forall_mem_append, forall_mem_cons] at old bounds others
  constructor
  case perm =>
    rw [same]
    exact laid.perm
  case distinct =>
    rw [same]
    exact laid.distinct
  case old =>
    simp only [forall_mem_append, forall_mem_cons]
    exact old
  case linked =>
    rw [same, prevOf_write, samePrev, nextOf_write, sameNext]
    have linked := laid.linked
    rwa [← update_eq_self run.pointer abl.prevOf, ← update_eq_self run.pointer abl.nextOf] at linked
  case bounds =>
    simp only [forall_mem_append, forall_mem_cons]
    refine ⟨fun other inFront => ?_, ?_, fun other inBack => ?_⟩
    · rw [others.1 other inFront, bounds.1 other inFront]
    · rw [boundsOf, memory_write_self, isFrom, isTo]
    · rw [others.2 other inBack, bounds.2.2 other inBack]

theorem reorder {slice : List Nat} (laid : Laid family abl runs) (perm : slice.Perm abl.slice) :
    Laid family { abl with slice := slice } runs :=
  { laid with perm := perm.trans laid.perm }

theorem delete (lawful : heap.Lawful) (laid : Laid family abl (front ++ run :: back))
    (found : abl.slice[index]? = some run.pointer) :
    ∃ after, abl.delete heap index = .ok after ∧ Laid family after (front ++ back) := by
  have perm := laid.perm
  rw [pointers_append, pointers_cons] at perm
  obtain ⟨slice, removed, remaining⟩ := remove_eq lawful perm found
  obtain ⟨isPrev, isNext⟩ := laid.links
  refine ⟨relink { abl with slice := slice } (pointers front) [] (pointers back), ?_, ?_⟩
  · unfold BlockList.delete relink
    rw [removed]
    simp only [bind, Except.bind, isPrev, isNext, nil_append, append_nil]
    rfl
  · exact laid.replace [run] [] { abl with slice := slice } _ (fun _ _ => rfl) le_rfl nodup_nil
      (forall_mem_nil _) (forall_mem_nil _) trivial (forall_mem_nil _) rfl
      (fresh_relink _ _ _ _) (by rw [slice_relink]; simpa using remaining)

theorem memory_allocate_fresh (abl : BlockList) (block : LinkedBlock) :
    (abl.allocate block).memory abl.fresh = block :=
  memory_write_self _ _ _

theorem memory_allocate_of_lt (abl : BlockList) (block : LinkedBlock)
    (isOld : pointer < abl.fresh) : (abl.allocate block).memory pointer = abl.memory pointer :=
  memory_write_ne _ _ (Nat.ne_of_lt isOld)

/-- Replacing a part of a layout by one new block. -/
theorem replaceByOne (old : List Run) (laid : Laid family abl (front ++ (old ++ back)))
    (block : LinkedBlock) (after : BlockList) (isPrev : block.prev = (pointers front).getLast?)
    (isNext : block.next = (pointers back).head?) (isFrom : block.fromIP = ofNumber family first)
    (isTo : block.toIP = ofNumber family last) (memory : after.memory
      = ((abl.allocate block).relink (pointers front) [abl.fresh] (pointers back)).memory)
    (fresh : after.fresh = abl.fresh + 1)
    (perm : after.slice.Perm (pointers front ++ abl.fresh :: pointers back)) :
    Laid family after (front ++ ⟨abl.fresh, first, last⟩ :: back) := by
  have atFresh := memory_allocate_fresh abl block
  refine laid.replace old [⟨abl.fresh, first, last⟩] (abl.allocate block) after
    (fun pointer isOld => memory_allocate_of_lt abl block isOld) (Nat.le_succ _)
    (nodup_singleton _) (forall_mem_singleton.mpr (Nat.lt_succ_self abl.fresh))
    (forall_mem_singleton.mpr le_rfl) ?_ (forall_mem_singleton.mpr ?_) memory
    fresh ?_
  · refine ⟨?_, ?_, trivial⟩
    · rw [prevOf, atFresh, isPrev]
    · rw [nextOf, atFresh, isNext]
      rfl
  · rw [boundsOf, atFresh, isFrom, isTo]
  · simpa using perm

/-- Inserting a block for one address between two parts of a layout. -/
theorem insert (lawful : heap.Lawful) (laid : Laid family abl (front ++ back)) (n : Nat) :
    Laid family (abl.insert heap (pointers front).getLast? (pointers back).head?
      (ofNumber family n)) (front ++ ⟨abl.fresh, n, n⟩ :: back) := by
  have inserted : abl.insert heap (pointers front).getLast? (pointers back).head?
      (ofNumber family n) = ((abl.allocate ⟨ofNumber family n, ofNumber family n, 1,
        (pointers front).getLast?, (pointers back).head?⟩).relink (pointers front) [abl.fresh]
          (pointers back)).push heap abl.fresh := by
    simp [BlockList.insert, relink]
  have perm := laid.perm
  rw [pointers_append] at perm
  rw [inserted]
  refine laid.replaceByOne [] _ _ rfl rfl rfl rfl rfl (fresh_relink _ _ _ _)
    ((lawful.push_perm _ _ _).trans ?_)
  rw [slice_relink]
  exact (List.Perm.cons _ perm).trans perm_middle.symm

theorem getElem?_idxOf {slice front back : List Nat}
    (perm : slice.Perm (front ++ pointer :: back)) :
    slice[slice.idxOf pointer]? = some pointer := by
  have member : pointer ∈ slice := perm.mem_iff.mpr (by simp)
  rw [getElem?_eq_getElem (idxOf_lt_length_of_mem member), getElem_idxOf]

theorem merge (lawful : heap.Lawful) {left right : Run}
    (laid : Laid family abl (front ++ left :: right :: back)) :
    ∃ after, abl.merge heap left.pointer right.pointer = .ok after ∧
      Laid family after (front ++ ⟨abl.fresh, left.first, right.last⟩ :: back) := by
  have isPrev := laid.links.1
  have isFrom := laid.fromIP_eq (mem_append_right front (.head _))
  have isTo := laid.toIP_eq (mem_append_right front (mem_cons_of_mem left (.head _)))
  have perm := laid.perm
  have isNext : (abl.memory right.pointer).next = (pointers back).head? := by
    rw [append_cons] at laid
    exact laid.links.2
  rw [pointers_append, pointers_cons, pointers_cons] at perm
  let block := LinkedBlock.calcSize ⟨(abl.memory left.pointer).fromIP,
    (abl.memory right.pointer).toIP, 0, (pointers front).getLast?, (pointers back).head?⟩
  let linked := (abl.allocate block).relink (pointers front) [abl.fresh] (pointers back)
  have linkedPerm : linked.slice.Perm
      (pointers front ++ left.pointer :: right.pointer :: pointers back) := by
    rw [slice_relink]
    exact perm
  obtain ⟨oneLess, removedLeft, remaining⟩ :=
    remove_eq lawful linkedPerm (getElem?_idxOf linkedPerm)
  have removeSecond : ∃ slice, ({ linked with slice := oneLess } : BlockList).remove heap
        (oneLess.idxOf right.pointer)
      = .ok (right.pointer, { linked with slice := slice }) ∧
        slice.Perm (pointers front ++ pointers back) :=
    remove_eq lawful remaining (getElem?_idxOf remaining)
  obtain ⟨twoLess, removedRight, rest⟩ := removeSecond
  refine ⟨({ linked with slice := twoLess } : BlockList).push heap abl.fresh, ?_, ?_⟩
  · have start : abl.merge heap left.pointer right.pointer = (do
        let once ← linked.remove heap (linked.slice.idxOf left.pointer)
        let twice ← once.2.remove heap (once.2.slice.idxOf right.pointer)
        return twice.2.push heap abl.fresh) := by
      unfold BlockList.merge
      rw [isPrev, isNext]
      simp [linked, block, relink]
    rw [start, removedLeft]
    simp only [bind, Except.bind, removedRight]
    rfl
  · refine laid.replaceByOne [left, right] block _ rfl rfl isFrom isTo rfl
      (fresh_relink _ _ _ _) ((lawful.push_perm _ _ _).trans ?_)
    exact (List.Perm.cons _ rest).trans perm_middle.symm

theorem split (lawful : heap.Lawful) (laid : Laid family abl (front ++ run :: back))
    (found : abl.slice[index]? = some run.pointer) {n : Nat}
    (isPrevIP : (ofNumber family n).prev = ofNumber family (n - 1))
    (isNextIP : (ofNumber family n).next = ofNumber family (n + 1)) :
    ∃ after, abl.split heap index (ofNumber family n) = .ok after ∧
      Laid family after (front ++ ⟨abl.fresh, run.first, n - 1⟩
        :: ⟨abl.fresh + 1, n + 1, run.last⟩ :: back) := by
  have perm := laid.perm
  rw [pointers_append, pointers_cons] at perm
  obtain ⟨slice, removed, remaining⟩ := remove_eq lawful perm found
  obtain ⟨isPrev, isNext⟩ := laid.links
  have isFrom := laid.fromIP_eq (mem_append_right front (.head _))
  have isTo := laid.toIP_eq (mem_append_right front (.head _))
  let leftBlock := LinkedBlock.calcSize ⟨(abl.memory run.pointer).fromIP,
    (ofNumber family n).prev, 0, (pointers front).getLast?, some (abl.fresh + 1)⟩
  let rightBlock := LinkedBlock.calcSize ⟨(ofNumber family n).next,
    (abl.memory run.pointer).toIP, 0, some abl.fresh, (pointers back).head?⟩
  let made := (({ abl with slice := slice } : BlockList).allocate leftBlock).allocate rightBlock
  let linked := made.relink (pointers front) [abl.fresh, abl.fresh + 1] (pointers back)
  have atLeft : made.memory abl.fresh = leftBlock :=
    (memory_allocate_of_lt _ _ (Nat.lt_succ_self abl.fresh)).trans (memory_allocate_fresh _ _)
  have atRight : made.memory (abl.fresh + 1) = rightBlock := memory_allocate_fresh _ _
  refine ⟨(linked.push heap abl.fresh).push heap (abl.fresh + 1), ?_, ?_⟩
  · unfold BlockList.split
    rw [removed]
    simp only [bind, Except.bind, isPrev, isNext]
    have lastOfTwo : (pointers front ++ [abl.fresh, abl.fresh + 1]).getLast?
        = some (abl.fresh + 1) := by simp
    simp only [linked, made, leftBlock, rightBlock, relink, lastOfTwo]
    rfl
  · have each : ∀ {p : Run → Prop}, p ⟨abl.fresh, run.first, n - 1⟩ →
        p ⟨abl.fresh + 1, n + 1, run.last⟩ → ∀ run' ∈ [(⟨abl.fresh, run.first, n - 1⟩ : Run),
          ⟨abl.fresh + 1, n + 1, run.last⟩], p run' := fun atFirst atSecond =>
      forall_mem_cons.mpr ⟨atFirst, forall_mem_singleton.mpr atSecond⟩
    refine laid.replace [run] [⟨abl.fresh, run.first, n - 1⟩, ⟨abl.fresh + 1, n + 1, run.last⟩]
      made ((linked.push heap abl.fresh).push heap (abl.fresh + 1)) ?_ ?_ ?_
      (each (Nat.lt_succ_of_lt (Nat.lt_succ_self abl.fresh)) (Nat.lt_succ_self (abl.fresh + 1)))
      (each le_rfl (Nat.le_succ _)) ?_ (each ?_ ?_) rfl ?_ ?_
    · intro pointer isOld
      exact (memory_allocate_of_lt _ _ (Nat.lt_succ_of_lt isOld)).trans
        (memory_allocate_of_lt _ _ isOld)
    · show abl.fresh ≤ abl.fresh + 1 + 1
      omega
    · simp
    · refine ⟨?_, ?_, ?_, ?_, trivial⟩
      · rw [prevOf, atLeft]
        rfl
      · rw [nextOf, atLeft]
        rfl
      · rw [prevOf, atRight]
        rfl
      · rw [nextOf, atRight]
        rfl
    · rw [boundsOf, atLeft]
      exact congrArg₂ Prod.mk isFrom isPrevIP
    · rw [boundsOf, atRight]
      exact congrArg₂ Prod.mk isNextIP isTo
    · exact fresh_relink _ _ _ _
    · have pushed : ((linked.push heap abl.fresh).push heap (abl.fresh + 1)).slice.Perm
          ((abl.fresh + 1) :: abl.fresh :: (pointers front ++ pointers back)) := by
        refine (lawful.push_perm _ _ _).trans (.cons _ ?_)
        refine (lawful.push_perm _ _ _).trans (.cons _ ?_)
        rw [slice_relink]
        exact remaining
      refine pushed.trans ?_
      simp only [pointers_append, pointers_cons, cons_append, nil_append]
      refine (List.Perm.swap _ _ _).trans ?_
      refine (List.Perm.cons _ perm_middle.symm).trans ?_
      exact perm_middle.symm

end Laid

end Constellation.Ipalloc
