/-
This file proves that taking an address from the available blocks and putting one back change the
set of available addresses by exactly that address. Putting back searches along the links in one
direction only, so that it takes fewer rounds than there are blocks.
-/
import Constellation.Ipalloc.Blocks

namespace Constellation.Ipalloc

open Ipam (Family)
open Lib List Addr LinkedBlock

def Available (runs : List Run) (n : Nat) : Prop :=
  ∃ run ∈ runs, run.first ≤ n ∧ n ≤ run.last

/-- The blocks of a layout are not empty, lie within the bounds and have a gap between them. -/
@[mk_iff]
structure Spaced (start stop : Nat) (runs : List Run) : Prop where
  inside : ∀ run ∈ runs, start ≤ run.first ∧ run.first ≤ run.last ∧ run.last ≤ stop
  apart : runs.Pairwise (fun run other => run.last + 1 < other.first)

variable {start stop n : Nat} {front back : List Run} {run : Run} {others : List Run} {k : Nat}
  {runs : List Run}

theorem available_append :
    Available (runs ++ others) k ↔ Available runs k ∨ Available others k := by
  simp only [Available, mem_append, or_and_right, exists_or]

theorem available_cons :
    Available (run :: runs) k ↔ (run.first ≤ k ∧ k ≤ run.last) ∨ Available runs k := by
  simp only [Available, mem_cons, or_and_right, exists_or, exists_eq_left]

theorem available_nil : ¬Available [] k := by
  rintro ⟨_, member, _⟩
  cases member

/-- What a layout with a gap around some blocks says about the blocks before and after them. -/
theorem spaced_middle_iff (middle : List Run) :
    Spaced start stop (front ++ (middle ++ back)) ↔
      Spaced start stop (front ++ back) ∧ Spaced start stop middle ∧
      (∀ before ∈ front, ∀ run ∈ middle, before.last + 1 < run.first) ∧
      (∀ run ∈ middle, ∀ after ∈ back, run.last + 1 < after.first) := by
  simp only [spaced_iff, forall_mem_append, pairwise_append, forall_and]
  tauto

theorem Spaced.not_available_outer (spaced : Spaced start stop (front ++ run :: back))
    (lower : run.first ≤ n) (upper : n ≤ run.last) : ¬Available (front ++ back) n := by
  obtain ⟨-, -, frontRun, runBack⟩ := (spaced_middle_iff [run]).mp spaced
  rintro ⟨other, member, lower', upper'⟩
  rcases mem_append.mp member with inFront | inBack
  · have gap := frontRun other inFront run (.head _)
    omega
  · have gap := runBack run (.head _) other inBack
    omega

theorem available_single :
    Available [run] k ↔ run.first ≤ k ∧ k ≤ run.last := by
  rw [available_cons, or_iff_left available_nil]

theorem spaced_single : Spaced start stop [run] ↔
    start ≤ run.first ∧ run.first ≤ run.last ∧ run.last ≤ stop := by
  simp [spaced_iff]

/-! ### Taking an address -/

variable {heap : HeapPackage} {family : Family} {abl : BlockList}

theorem within_iff (laid : Laid family abl runs) (member : run ∈ runs)
    (fits : run.last < 2 ^ family.bitLen) (ordered : run.first ≤ run.last)
    (bound : n < 2 ^ family.bitLen) :
    (abl.memory run.pointer).within (ofNumber family n) = true ↔ run.first ≤ n ∧ n ≤ run.last := by
  have lower := compare_eq_lt_iff bound (ordered.trans_lt fits)
  have upper := compare_eq_gt_iff bound fits
  rw [within, laid.fromIP_eq member, laid.toIP_eq member, Bool.and_eq_true,
    bne_iff_ne, bne_iff_ne, Ne, Ne, lower, upper, Nat.not_lt, Nat.not_lt]

/-- The block in which the search over the slice finds an available address. -/
theorem findIdx?_within (laid : Laid family abl runs) (spaced : Spaced start stop runs)
    (fits : stop < 2 ^ family.bitLen) (free : Available runs n) :
    ∃ index, ∃ run ∈ runs,
      abl.slice.findIdx? (fun pointer => (abl.memory pointer).within (ofNumber family n))
        = some index ∧
      abl.slice[index]? = some run.pointer ∧ run.first ≤ n ∧ n ≤ run.last := by
  obtain ⟨around, listed, lower, upper⟩ := free
  have bound : n < 2 ^ family.bitLen :=
    (upper.trans (spaced.inside around listed).2.2).trans_lt fits
  have isWithin : ∀ run ∈ runs, (abl.memory run.pointer).within (ofNumber family n) = true ↔
      run.first ≤ n ∧ n ≤ run.last := by
    intro run member
    obtain ⟨-, ordered, below⟩ := spaced.inside run member
    exact within_iff laid member (below.trans_lt fits) ordered bound
  have inSlice : around.pointer ∈ abl.slice := laid.perm.mem_iff.mpr (pointer_mem listed)
  cases found : abl.slice.findIdx?
      (fun pointer => (abl.memory pointer).within (ofNumber family n)) with
  | none =>
    have no := findIdx?_eq_none_iff.mp found around.pointer inSlice
    rw [(isWithin around listed).mpr ⟨lower, upper⟩] at no
    cases no
  | some index =>
    obtain ⟨inRange, yes, -⟩ := findIdx?_eq_some_iff_getElem.mp found
    obtain ⟨run, member, isPointer⟩ :=
      mem_map.mp (laid.perm.mem_iff.mp (getElem_mem inRange))
    rw [← isPointer] at yes
    refine ⟨index, run, member, rfl, ?_, (isWithin run member).mp yes⟩
    rw [getElem?_eq_getElem inRange, ← isPointer]

theorem Laid.resize_fix (lawful : heap.Lawful) {first last index : Nat}
    (laid : Laid family abl (front ++ run :: back)) (inSlice : index < abl.slice.length)
    (block : LinkedBlock) (samePrev : block.prev = (abl.memory run.pointer).prev)
    (sameNext : block.next = (abl.memory run.pointer).next)
    (isFrom : block.fromIP = ofNumber family first)
    (isTo : block.toIP = ofNumber family last) :
    ∃ after, (abl.write run.pointer block).fix heap index = .ok after ∧
      Laid family after (front ++ ⟨run.pointer, first, last⟩ :: back) := by
  have written := laid.resize block samePrev sameNext isFrom isTo
  refine ⟨_, if_pos inSlice, written.reorder ?_⟩
  exact lawful.fix_perm _ _ _ inSlice

/-- What is left of a block from which an address is taken. -/
theorem Spaced.taken (spaced : Spaced start stop (front ++ run :: back)) (lower : run.first ≤ n)
    (upper : n ≤ run.last) (middle : List Run) (inner : Spaced start stop middle)
    (within : ∀ left ∈ middle, run.first ≤ left.first ∧ left.last ≤ run.last)
    (rest : ∀ k, Available middle k ↔ (run.first ≤ k ∧ k ≤ run.last) ∧ k ≠ n) :
    Spaced start stop (front ++ (middle ++ back)) ∧
      ∀ k, Available (front ++ (middle ++ back)) k ↔
        Available (front ++ run :: back) k ∧ k ≠ n := by
  have outside := spaced.not_available_outer lower upper
  obtain ⟨outer, -, frontRun, runBack⟩ := (spaced_middle_iff [run]).mp spaced
  refine ⟨(spaced_middle_iff middle).mpr ⟨outer, inner, ?_, ?_⟩, fun k => ?_⟩
  · intro before inFront left member
    exact (frontRun before inFront run (.head _)).trans_le (within left member).1
  · intro left member after inBack
    exact (Nat.succ_le_succ (within left member).2).trans_lt (runBack run (.head _) after inBack)
  · rw [available_append, not_or] at outside
    simp only [available_append, available_cons, rest]
    by_cases same : k = n
    · subst same
      simp [outside.1, outside.2]
    · simp [same]

/-- Taking an available address takes away this address and no other. -/
theorem take_of_available (lawful : heap.Lawful) (laid : Laid family abl runs)
    (spaced : Spaced start stop runs) (fits : stop < 2 ^ family.bitLen) (free : Available runs n) :
    ∃ after later, abl.take heap (ofNumber family n) = .ok after ∧
      Laid family after later ∧ Spaced start stop later ∧
      ∀ k, Available later k ↔ Available runs k ∧ k ≠ n := by
  obtain ⟨index, run, member, found, atIndex, lower, upper⟩ :=
    findIdx?_within laid spaced fits free
  obtain ⟨above, ordered, below⟩ := spaced.inside run member
  have inSlice : index < abl.slice.length := (List.getElem?_eq_some_iff.mp atIndex).1
  have bound : n < 2 ^ family.bitLen := (upper.trans below).trans_lt fits
  have boundFirst : run.first < 2 ^ family.bitLen := lower.trans_lt bound
  have boundLast : run.last < 2 ^ family.bitLen := below.trans_lt fits
  have isFrom := laid.fromIP_eq member
  have isTo := laid.toIP_eq member
  have fromEq : (abl.memory run.pointer).fromIP = ofNumber family n ↔ run.first = n := by
    rw [isFrom, ofNumber_inj boundFirst]
  have toEq : (abl.memory run.pointer).toIP = ofNumber family n ↔ run.last = n := by
    rw [isTo, ofNumber_inj boundLast]
  have sameEnds : (abl.memory run.pointer).fromIP = (abl.memory run.pointer).toIP
      ↔ run.first = run.last := by
    rw [isFrom, isTo, ofNumber_inj boundFirst]
  obtain ⟨front, back, rfl⟩ := append_of_mem member
  unfold BlockList.take
  rw [found]
  simp only [atIndex, fromEq, toEq, sameEnds]
  by_cases atFirst : run.first = n
  · rw [if_pos atFirst]
    by_cases single : run.first = run.last
    · obtain ⟨after, deleted, laidAfter⟩ := laid.delete lawful atIndex
      rw [if_pos single]
      exact ⟨after, front ++ back, deleted, laidAfter, spaced.taken lower upper []
        ⟨by simp, by simp⟩ (by simp) (fun k => by rw [iff_false_left available_nil]; omega)⟩
    · have isNext : (abl.memory run.pointer).fromIP.next = ofNumber family (n + 1) := by
        rw [isFrom, next_ofNumber boundFirst, atFirst]
      obtain ⟨after, fixed, laidAfter⟩ := laid.resize_fix lawful inSlice (calcSize
        { abl.memory run.pointer with fromIP := (abl.memory run.pointer).fromIP.next })
        rfl rfl isNext isTo
      rw [if_neg single]
      exact ⟨after, _, fixed, laidAfter, spaced.taken lower upper
        [⟨run.pointer, n + 1, run.last⟩] (spaced_single.mpr (by dsimp only; omega))
        (by simp; omega) (fun k => by rw [available_single]; dsimp only; omega)⟩
  · rw [if_neg atFirst]
    by_cases atLast : run.last = n
    · have several : run.first ≠ run.last := by omega
      have isPrev : (abl.memory run.pointer).toIP.prev = ofNumber family (n - 1) := by
        rw [isTo, prev_ofNumber boundLast (by omega), atLast]
      obtain ⟨after, fixed, laidAfter⟩ := laid.resize_fix lawful inSlice (calcSize
        { abl.memory run.pointer with toIP := (abl.memory run.pointer).toIP.prev })
        rfl rfl isFrom isPrev
      rw [if_pos atLast, if_neg several]
      exact ⟨after, _, fixed, laidAfter, spaced.taken lower upper
        [⟨run.pointer, run.first, n - 1⟩] (spaced_single.mpr (by dsimp only; omega))
        (by simp; omega) (fun k => by rw [available_single]; dsimp only; omega)⟩
    · obtain ⟨after, divided, laidAfter⟩ := laid.split lawful atIndex
        (prev_ofNumber bound (by omega)) (next_ofNumber bound)
      rw [if_neg atLast]
      exact ⟨after, _, divided, laidAfter, spaced.taken lower upper
        [⟨abl.fresh, run.first, n - 1⟩, ⟨abl.fresh + 1, n + 1, run.last⟩]
        ⟨by simp; omega, by simp; omega⟩ (by simp; omega)
        (fun k => by rw [available_cons, available_single]; dsimp only; omega)⟩

/-! ### Putting an address back -/

theorem Spaced.last_le (spaced : Spaced start stop (front ++ run :: back)) :
    ∀ before ∈ front ++ [run], before.last ≤ run.last := by
  obtain ⟨-, inner, frontRun, -⟩ := (spaced_middle_iff [run]).mp spaced
  have ordered := (spaced_single.mp inner).2.1
  intro before member
  rcases mem_append.mp member with inFront | isRun
  · have gap := frontRun before inFront run (.head _)
    omega
  · rw [mem_singleton.mp isRun]

theorem Spaced.first_le (spaced : Spaced start stop (front ++ run :: back)) :
    ∀ after ∈ run :: back, run.first ≤ after.first := by
  obtain ⟨-, inner, -, runBack⟩ := (spaced_middle_iff [run]).mp spaced
  have ordered := (spaced_single.mp inner).2.1
  intro after member
  rcases mem_cons.mp member with rfl | inBack
  · exact le_rfl
  · have gap := runBack run (.head _) after inBack
    omega

variable {i : Nat}

/-- A search has just begun, or goes to one side and has passed what lies on the other. -/
inductive Heading (n : Nat) (front back : List Run) (came : Option Nat) (i rounds : Nat) : Prop
  | begin (nowhere : came = none) (first : i = 0) (enough : front.length + back.length < rounds)
  | right (last : came = (pointers front).getLast?) (passed : ∀ run ∈ front, run.last + 1 < n)
      (some_passed : front ≠ []) (walked : i ≤ front.length) (enough : back.length < rounds)
  | left (head : came = (pointers back).head?) (passed : ∀ run ∈ back, n + 1 < run.first)
      (some_passed : back ≠ []) (walked : i ≤ back.length) (enough : front.length < rounds)

variable {came : Option Nat} {rounds : Nat} {right : Run} {left : Run}

theorem Heading.rounds_pos (heading : Heading n front back came i rounds) : 0 < rounds := by
  cases heading <;> omega

/-- A search has taken fewer rounds than there are blocks. -/
theorem Heading.walked_lt (heading : Heading n front back came i rounds) :
    i < front.length + (back.length + 1) := by
  cases heading <;> omega

theorem Heading.goLeft (heading : Heading n (others ++ [left]) back came i (rounds + 1))
    (turned : some left.pointer ≠ came) (passed : ∀ other ∈ run :: back, n + 1 < other.first) :
    Heading n others (run :: back) (some run.pointer) (i + 1) rounds := by
  have length : (others ++ [left]).length = others.length + 1 := length_append
  have bounds : i ≤ back.length ∧ others.length < rounds := by
    cases heading with
    | begin nowhere first enough | left _ _ _ walked enough => omega
    | right last _ _ _ _ =>
      rw [last] at turned
      exact absurd (by simp) turned
  exact .left rfl passed (cons_ne_nil _ _) (Nat.succ_le_succ bounds.1) bounds.2

theorem Heading.goRight (heading : Heading n front (right :: others) came i (rounds + 1))
    (turned : some right.pointer ≠ came) (passed : ∀ other ∈ front ++ [run], other.last + 1 < n) :
    Heading n (front ++ [run]) others (some run.pointer) (i + 1) rounds := by
  have length : (right :: others).length = others.length + 1 := rfl
  have bounds : i ≤ front.length ∧ others.length < rounds := by
    cases heading with
    | begin nowhere first enough | right _ _ _ walked enough => omega
    | left head _ _ _ _ =>
      rw [head] at turned
      exact absurd rfl turned
  refine .right (by simp) passed (by simp) ?_ bounds.2
  rw [length_append]
  exact Nat.succ_le_succ bounds.1

/-- A search that is sent back has passed everything on the left. -/
theorem Heading.passed_of_last (heading : Heading n (others ++ [left]) back came i rounds)
    (returned : some left.pointer = came)
    (distinct : (pointers (others ++ [left] ++ run :: back)).Nodup) :
    ∀ other ∈ others ++ [left], other.last + 1 < n := by
  cases heading with
  | begin nowhere _ _ =>
    rw [nowhere] at returned
    cases returned
  | right _ passed _ _ _ => exact passed
  | left head _ _ _ _ =>
    rw [head] at returned
    have inBack : left.pointer ∈ pointers back := mem_of_head? returned.symm
    rw [pointers_append, pointers_cons, nodup_append] at distinct
    exact absurd rfl (distinct.2.2 left.pointer (by simp) left.pointer (.tail _ inBack))

/-- A search that is sent back has passed everything on the right. -/
theorem Heading.passed_of_head (heading : Heading n front (right :: others) came i rounds)
    (returned : some right.pointer = came)
    (distinct : (pointers (front ++ run :: right :: others)).Nodup) :
    ∀ other ∈ right :: others, n + 1 < other.first := by
  cases heading with
  | begin nowhere _ _ =>
    rw [nowhere] at returned
    cases returned
  | right last _ _ _ _ =>
    rw [last] at returned
    have inFront : right.pointer ∈ pointers front := mem_of_getLast? returned.symm
    rw [pointers_append, nodup_append] at distinct
    exact absurd rfl (distinct.2.2 right.pointer inFront right.pointer (by simp))
  | left _ passed _ _ _ => exact passed

def PutInto (family : Family) (start stop n : Nat) (runs : List Run)
    (result : Except Failure BlockList) : Prop :=
  ∃ after later, result = .ok after ∧ Laid family after later ∧ Spaced start stop later ∧
    ∀ k, Available later k ↔ Available runs k ∨ k = n

/-- A block in place of at most two blocks that it exceeds by the address only. -/
theorem Spaced.put (old : List Run) (spaced : Spaced start stop (front ++ (old ++ back)))
    (grown : Run) (inside : start ≤ grown.first ∧ grown.first ≤ grown.last ∧ grown.last ≤ stop)
    (before : ∀ run ∈ front, run.last + 1 < grown.first)
    (beyond : ∀ run ∈ back, grown.last + 1 < run.first)
    (exceeds : ∀ k, grown.first ≤ k ∧ k ≤ grown.last ↔ Available old k ∨ k = n)
    {result : Except Failure BlockList} {after : BlockList} (done : result = .ok after)
    (laid : Laid family after (front ++ grown :: back)) :
    PutInto family start stop n (front ++ (old ++ back)) result := by
  refine ⟨after, _, done, laid, (spaced_middle_iff [grown]).mpr
    ⟨((spaced_middle_iff old).mp spaced).1, spaced_single.mpr inside, ?_, ?_⟩, fun k => ?_⟩
  · intro run inFront new isNew
    rw [mem_singleton.mp isNew]
    exact before run inFront
  · intro new isNew run inBack
    rw [mem_singleton.mp isNew]
    exact beyond run inBack
  · simp only [available_append, available_cons, exceeds]
    tauto

variable (lawful : heap.Lawful)
include lawful

/-- A block that is made for the address between the others. -/
theorem putInto_insert (laid : Laid family abl (front ++ back))
    (spaced : Spaced start stop (front ++ back)) (above : start ≤ n) (below : n ≤ stop)
    (before : ∀ run ∈ front, run.last + 1 < n) (after : ∀ run ∈ back, n + 1 < run.first) :
    PutInto family start stop n (front ++ back)
      (.ok (abl.insert heap (pointers front).getLast? (pointers back).head?
        (ofNumber family n))) :=
  spaced.put [] ⟨abl.fresh, n, n⟩ ⟨above, Nat.le_refl n, below⟩ before after
    (fun k => by rw [or_iff_right available_nil]; dsimp only; omega) rfl (laid.insert lawful n)

variable (fits : stop < 2 ^ family.bitLen)
include fits

/-- A block that grows to the left by the address, and is merged with its neighbour if that is
reached. -/
theorem putInto_growLeft (laid : Laid family abl (front ++ run :: back))
    (spaced : Spaced start stop (front ++ run :: back)) (above : start ≤ n)
    (adjacent : run.first = n + 1) :
    PutInto family start stop n (front ++ run :: back)
      (let grown := abl.write run.pointer (calcSize { abl.memory run.pointer with
          fromIP := (abl.memory run.pointer).fromIP.prev })
       match (abl.memory run.pointer).prev with
       | none => .ok grown
       | some left =>
         if (grown.memory left).toIP = (grown.memory run.pointer).fromIP.prev then
           grown.merge heap left run.pointer
         else .ok grown) := by
  have member : run ∈ front ++ run :: back := mem_append_right _ (.head _)
  obtain ⟨-, ordered, below⟩ := spaced.inside run member
  have boundFirst : run.first < 2 ^ family.bitLen :=
    (ordered.trans below).trans_lt fits
  have bound : n < 2 ^ family.bitLen := by omega
  have isPrevIP : (abl.memory run.pointer).fromIP.prev = ofNumber family n := by
    rw [laid.fromIP_eq member, prev_ofNumber boundFirst (by omega), adjacent, Nat.add_sub_cancel]
  set block := calcSize { abl.memory run.pointer with
    fromIP := (abl.memory run.pointer).fromIP.prev }
  have laidGrown := laid.resize block rfl rfl isPrevIP (laid.toIP_eq member)
  obtain ⟨-, -, frontRun, runBack⟩ := (spaced_middle_iff [run]).mp spaced
  have afterRun : ∀ other ∈ back, run.last + 1 < other.first :=
    fun other inBack => runBack run (.head _) other inBack
  have grow : (∀ other ∈ front, other.last + 1 < n) →
      PutInto family start stop n (front ++ run :: back) (.ok (abl.write run.pointer block)) := by
    intro before
    exact spaced.put [run] ⟨run.pointer, n, run.last⟩ (by dsimp only; omega) before afterRun
      (fun k => by rw [available_single]; dsimp only; omega) rfl laidGrown
  rw [laid.links.1]
  rcases eq_nil_or_concat front with rfl | ⟨others, left, rfl⟩
  · exact grow (forall_mem_nil _)
  · rw [concat_eq_append] at *
    have isLast : (pointers (others ++ [left])).getLast? = some left.pointer := by simp
    have inGrown : left ∈ others ++ [left] ++ ⟨run.pointer, n, run.last⟩ :: back := by simp
    have runGrown : (⟨run.pointer, n, run.last⟩ : Run)
      ∈ others ++ [left] ++ ⟨run.pointer, n, run.last⟩ :: back := by simp
    have gap := frontRun left (by simp) run (.head _)
    have isEnd := laidGrown.toIP_eq inGrown
    have isStart := laidGrown.fromIP_eq runGrown
    have boundLeft : left.last < 2 ^ family.bitLen := by omega
    rw [isLast]
    dsimp only at isStart ⊢
    split
    case isTrue touching =>
      rw [isEnd, isStart, prev_ofNumber bound (by omega), ofNumber_inj boundLeft] at touching
      rw [← append_cons] at laidGrown
      obtain ⟨after, merged, laidAfter⟩ := laidGrown.merge lawful
      rw [← append_cons] at spaced ⊢
      obtain ⟨-, inner, outerBefore, -⟩ := (spaced_middle_iff [left, run]).mp spaced
      have leftInside := inner.inside left (by simp)
      exact spaced.put [left, run] ⟨abl.fresh, left.first, run.last⟩ (by dsimp only; omega)
        (fun other inFront => outerBefore other inFront left (by simp)) afterRun
        (fun k => by rw [available_cons, available_single]; dsimp only; omega) merged laidAfter
    case isFalse apart =>
      rw [isEnd, isStart, prev_ofNumber bound (by omega), ofNumber_inj boundLeft] at apart
      refine grow (fun other inFront => ?_)
      rw [← append_cons] at spaced
      have before := spaced.last_le other inFront
      omega

/-- A block that grows to the right by the address, and is merged with its neighbour if that is
reached. The heap is restored at any index of the slice. -/
theorem putInto_growRight (laid : Laid family abl (front ++ run :: back))
    (spaced : Spaced start stop (front ++ run :: back)) (below : n ≤ stop)
    (adjacent : run.last + 1 = n) (inSlice : i < abl.slice.length) :
    PutInto family start stop n (front ++ run :: back) (do
      let grown ← (abl.write run.pointer (calcSize { abl.memory run.pointer with
          toIP := (abl.memory run.pointer).toIP.next })).fix heap i
      match (abl.memory run.pointer).next with
      | none => return grown
      | some right =>
        if (grown.memory right).fromIP = (grown.memory run.pointer).toIP.next then
          grown.merge heap run.pointer right
        else return grown) := by
  have member : run ∈ front ++ run :: back := mem_append_right _ (.head _)
  obtain ⟨above, ordered, -⟩ := spaced.inside run member
  have bound : n < 2 ^ family.bitLen := below.trans_lt fits
  have isNextIP : (abl.memory run.pointer).toIP.next = ofNumber family n := by
    rw [laid.toIP_eq member, next_ofNumber (by omega), adjacent]
  obtain ⟨grown, fixed, laidGrown⟩ := laid.resize_fix lawful inSlice (calcSize
    { abl.memory run.pointer with toIP := (abl.memory run.pointer).toIP.next }) rfl rfl
    (laid.fromIP_eq member) isNextIP
  obtain ⟨-, -, frontRun, runBack⟩ := (spaced_middle_iff [run]).mp spaced
  have beforeRun : ∀ other ∈ front, other.last + 1 < run.first :=
    fun other inFront => frontRun other inFront run (.head _)
  rw [fixed]
  have grow : (∀ other ∈ back, n + 1 < other.first) →
      PutInto family start stop n (front ++ run :: back) (.ok grown) := by
    intro after
    exact spaced.put [run] ⟨run.pointer, run.first, n⟩ (by dsimp only; omega) beforeRun after
      (fun k => by rw [available_single]; dsimp only; omega) rfl laidGrown
  rw [laid.links.2]
  cases back with
  | nil => exact grow (forall_mem_nil _)
  | cons right others =>
    have inGrown : right ∈ front ++ ⟨run.pointer, run.first, n⟩ :: right :: others := by simp
    have runGrown : (⟨run.pointer, run.first, n⟩ : Run)
      ∈ front ++ ⟨run.pointer, run.first, n⟩ :: right :: others := by simp
    have gap := runBack run (.head _) right (by simp)
    have isStart := laidGrown.fromIP_eq inGrown
    have isEnd := laidGrown.toIP_eq runGrown
    have rightInside := spaced.inside right (by simp)
    have boundRight : right.first < 2 ^ family.bitLen := by omega
    show PutInto _ _ _ _ _ (if _ then _ else _)
    split
    case isTrue touching =>
      rw [isStart, isEnd, next_ofNumber bound, ofNumber_inj boundRight] at touching
      obtain ⟨after, merged, laidAfter⟩ := laidGrown.merge lawful
      obtain ⟨-, -, -, outerAfter⟩ := (spaced_middle_iff [run, right]).mp spaced
      exact spaced.put [run, right] ⟨grown.fresh, run.first, right.last⟩ (by dsimp only; omega)
        beforeRun (outerAfter right (by simp))
        (fun k => by rw [available_cons, available_single]; dsimp only; omega) merged laidAfter
    case isFalse apart =>
      rw [isStart, isEnd, next_ofNumber bound, ofNumber_inj boundRight] at apart
      refine grow (fun other inBack => ?_)
      rw [append_cons] at spaced
      have after := spaced.first_le other inBack
      omega

/-- The search finds the place of the address. -/
theorem putFrom_putInto (above : start ≤ n) (below : n ≤ stop) (rounds : Nat)
    (laid : Laid family abl (front ++ run :: back))
    (spaced : Spaced start stop (front ++ run :: back))
    (absent : ¬Available (front ++ run :: back) n) (heading : Heading n front back came i rounds) :
    PutInto family start stop n (front ++ run :: back)
      (abl.putFrom heap (ofNumber family n) rounds i came run.pointer) := by
  induction rounds generalizing front run back i came with
  | zero => exact absurd heading.rounds_pos (Nat.lt_irrefl 0)
  | succ rounds inductionHypothesis =>
    have member : run ∈ front ++ run :: back := mem_append_right _ (.head _)
    obtain ⟨aboveRun, ordered, belowRun⟩ := spaced.inside run member
    have bound : n < 2 ^ family.bitLen := below.trans_lt fits
    have boundFirst : run.first < 2 ^ family.bitLen := by omega
    have boundLast : run.last < 2 ^ family.bitLen := by omega
    have isLeft : (ofNumber family n).compare (abl.memory run.pointer).fromIP = .lt
        ↔ n < run.first := by
      rw [laid.fromIP_eq member, compare_eq_lt_iff bound boundFirst]
    have isEnd : (abl.memory run.pointer).toIP.next = ofNumber family n ↔ n = run.last + 1 := by
      rw [laid.toIP_eq member, next_ofNumber boundLast, eq_comm, ofNumber_inj bound]
    have length : abl.slice.length = front.length + (back.length + 1) := by
      rw [laid.perm.length_eq, pointers, length_map, length_append, length_cons]
    obtain ⟨prevEq, nextEq⟩ := laid.links
    unfold BlockList.putFrom
    by_cases toLeft : n < run.first
    · have isStart : (abl.memory run.pointer).fromIP.prev = ofNumber family n
          ↔ run.first = n + 1 := by
        rw [laid.fromIP_eq member, prev_ofNumber boundFirst (by omega), ofNumber_inj (by omega)]
        omega
      rw [if_pos (isLeft.mpr toLeft)]
      by_cases adjacent : run.first = n + 1
      · rw [if_pos (isStart.mpr adjacent)]
        exact putInto_growLeft lawful fits laid spaced above adjacent
      · rw [if_neg (fun same => adjacent (isStart.mp same)), prevEq]
        have away : n + 1 < run.first := by omega
        have after : ∀ other ∈ run :: back, n + 1 < other.first := fun other inBack =>
          away.trans_le (spaced.first_le other inBack)
        rcases eq_nil_or_concat front with rfl | ⟨others, left, rfl⟩
        · exact putInto_insert lawful laid spaced above below (forall_mem_nil _) after
        · rw [concat_eq_append] at *
          have isLast : (pointers (others ++ [left])).getLast? = some left.pointer := by simp
          rw [isLast]
          show PutInto _ _ _ _ _ (if _ then _ else _)
          split
          case isTrue returned =>
            rw [← isLast]
            exact putInto_insert lawful laid spaced above below
              (heading.passed_of_last returned laid.distinct) after
          case isFalse turned =>
            have onward := heading.goLeft turned after
            rw [← append_cons] at laid spaced absent ⊢
            exact inductionHypothesis laid spaced absent onward
    · have beyond : run.last < n := by
        by_contra inBlock
        exact absent ⟨run, member, by omega, by omega⟩
      rw [if_neg (fun same => toLeft (isLeft.mp same))]
      by_cases adjacent : n = run.last + 1
      · rw [if_pos (isEnd.mpr adjacent)]
        exact putInto_growRight lawful fits laid spaced below adjacent.symm
          (by rw [length]; exact heading.walked_lt)
      · rw [if_neg (fun same => adjacent (isEnd.mp same)), nextEq]
        have away : run.last + 1 < n := by omega
        have whole : front ++ run :: back = (front ++ [run]) ++ back := by simp
        have before : ∀ other ∈ front ++ [run], other.last + 1 < n := fun other inFront =>
          Nat.lt_of_le_of_lt (Nat.succ_le_succ (spaced.last_le other inFront)) away
        have isLast : (pointers (front ++ [run])).getLast? = some run.pointer := by simp
        cases back with
        | nil =>
          have placed := putInto_insert lawful (whole ▸ laid) (whole ▸ spaced) above below before
            (forall_mem_nil _)
          rw [isLast, ← whole] at placed
          exact placed
        | cons right others =>
          show PutInto _ _ _ _ _ (if _ then _ else _)
          split
          case isTrue returned =>
            have after := heading.passed_of_head returned laid.distinct
            have placed := putInto_insert lawful (whole ▸ laid) (whole ▸ spaced) above below before
              after
            rw [isLast, ← whole] at placed
            exact placed
          case isFalse turned =>
            have onward := heading.goRight turned before
            rw [whole] at laid spaced absent ⊢
            exact inductionHypothesis laid spaced absent onward

/-- Putting back an address that is not available makes this address available and no other. -/
theorem put_of_absent (laid : Laid family abl runs) (spaced : Spaced start stop runs)
    (above : start ≤ n) (below : n ≤ stop) (absent : ¬Available runs n)
    (few : abl.slice.length < BlockList.maxIter) :
    PutInto family start stop n runs (abl.put heap (ofNumber family n)) := by
  unfold BlockList.put
  have perm := laid.perm
  split
  case h_1 empty =>
    rw [empty] at perm
    obtain rfl : runs = [] := map_eq_nil_iff.mp perm.nil_eq.symm
    exact putInto_insert lawful laid spaced above below (forall_mem_nil _) (forall_mem_nil _)
  case h_2 first rest isSlice =>
    have inSlice : first ∈ abl.slice := by
      rw [isSlice]
      exact .head _
    obtain ⟨run, member, rfl⟩ := mem_map.mp (perm.mem_iff.mp inSlice)
    obtain ⟨front, back, rfl⟩ := append_of_mem member
    have length : abl.slice.length = front.length + (back.length + 1) := by
      rw [perm.length_eq, pointers, length_map, length_append, length_cons]
    refine putFrom_putInto lawful fits above below _ laid spaced absent (.begin rfl rfl ?_)
    omega

end Constellation.Ipalloc
