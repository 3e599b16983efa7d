/-
This file models the generic ring buffer and compares it with a bounded queue. The buffer is a
slice with an index: the length of the slice until it has its maximal size, from then on the place
of the oldest element. In both cases the contents are the slice rotated by the index. A panic is a
call without a result.
-/

import Constellation.Lib.Run

namespace Constellation.Container

open Lib List

def modulo (number divisor : Nat) : Option Nat :=
  if divisor = 0 then none else some (number % divisor)

/-- The binary search of `sort.Search`. -/
def search (f : Nat → Option Bool) (i j : Nat) : Option Nat :=
  if i < j then do
    let h := (i + j) / 2
    if ← f h then search f i h else search f (h + 1) j
  else some i
termination_by j - i

structure RingBuffer (α : Type) where
  buffer : List α
  next : Nat
  maxSize : Nat

variable {α : Type}

namespace RingBuffer

def newRingBuffer (bufferSize : Nat) : RingBuffer α where
  buffer := []
  next := 0
  maxSize := bufferSize

variable (eb : RingBuffer α) (isValid : α → Bool)

def isFull : Bool := decide (eb.buffer.length ≥ eb.maxSize)

def incr : Option (RingBuffer α) := do
  return { eb with next := ← modulo (eb.next + 1) eb.maxSize }

def add (e : α) : Option (RingBuffer α) :=
  if eb.maxSize = 0 then some eb
  else if eb.isFull then
    if eb.next < eb.buffer.length then incr { eb with buffer := eb.buffer.set eb.next e } else none
  else do
    let eb ← eb.incr
    return { eb with buffer := eb.buffer ++ [e] }

/-- The index in the slice of an index that counts from the oldest element. -/
def mapIndex (indexOffset : Nat) : Option Nat :=
  modulo (eb.next + indexOffset) eb.buffer.length

def atIndex (i : Nat) : Option α := do
  eb.buffer[← eb.mapIndex i]?

def firstValidIndex : Option Nat :=
  search (fun i => (eb.atIndex i).map isValid) 0 eb.buffer.length

def iterateValid : Option (List α) := do
  let startIndex ← eb.firstValidIndex isValid
  (range' startIndex (eb.buffer.length - startIndex)).mapM eb.atIndex

def iterate : Option (List α) := eb.iterateValid fun _ => true

def size : Nat := eb.buffer.length

def resetNext : Option (RingBuffer α) := do
  if eb.isFull then return { eb with next := ← modulo eb.buffer.length eb.maxSize }
  else return { eb with next := eb.buffer.length }

/-- The part that is wrapped around is copied before the slice is cut. -/
def compact : Option (RingBuffer α) :=
  if eb.buffer.length = 0 then some eb
  else do
    let startIndex ← eb.firstValidIndex isValid
    if startIndex ≥ eb.buffer.length then return { eb with buffer := [], next := 0 }
    let mappedStart ← eb.mapIndex startIndex
    let newBufferLength := eb.buffer.length - startIndex
    if mappedStart + newBufferLength > eb.buffer.length then
      let stop ← eb.mapIndex (startIndex + newBufferLength)
      resetNext { eb with buffer := eb.buffer.drop mappedStart ++ eb.buffer.take stop }
    else
      resetNext
        { eb with buffer := (eb.buffer.take (mappedStart + newBufferLength)).drop mappedStart }

end RingBuffer

inductive Call (α : Type)
  | add (e : α)
  | compact (isValid : α → Bool)

def RingBuffer.call (eb : RingBuffer α) : Call α → Option (RingBuffer α)
  | .add e => eb.add e
  | .compact isValid => eb.compact isValid

/-! ### The bounded queue -/

def HoldsOnSuffix (isValid : α → Bool) (contents : List α) : Prop :=
  ∃ invalid valid, contents = invalid ++ valid ∧
    (∀ e ∈ invalid, isValid e = false) ∧ ∀ e ∈ valid, isValid e = true

/-- A full queue drops its oldest element for a new one. -/
def queueStep (size : Nat) (contents : List α) : Call α → List α
  | .add e => (contents ++ [e]).drop (contents.length + 1 - size)
  | .compact isValid => contents.filter isValid

/-- Compacting asks for a predicate that holds on a suffix of the contents. -/
def Legal (contents : List α) : Call α → Prop
  | .add _ => True
  | .compact isValid => HoldsOnSuffix isValid contents

variable {isValid : α → Bool} {contents : List α}

/-- Such a predicate holds from some position on. -/
theorem HoldsOnSuffix.exists_position (suffix : HoldsOnSuffix isValid contents) :
    ∃ start ≤ contents.length, contents.filter isValid = contents.drop start ∧
      ∀ i < contents.length, contents[i]?.map isValid = some (decide (start ≤ i)) := by
  obtain ⟨invalid, valid, rfl, allInvalid, allValid⟩ := suffix
  refine ⟨invalid.length, by simp, ?_, fun i bound => ?_⟩
  · rw [filter_append, filter_eq_nil_iff.mpr (by simpa using allInvalid),
      filter_eq_self.mpr allValid, drop_left, nil_append]
  · rw [getElem?_append]
    split
    case isTrue below => simp [below, allInvalid]
    case isFalse above =>
      rw [length_append] at bound
      have inside : i - invalid.length < valid.length := by omega
      simp [inside, allValid, Nat.le_of_not_lt above]

/-- The search finds the position from which on a predicate holds. -/
theorem search_eq {f : Nat → Option Bool} {start i j : Nat} (above : i ≤ start) (below : start ≤ j)
    (holds : ∀ k < j, f k = some (decide (start ≤ k))) : search f i j = some start := by
  fun_induction search f i j with
  | case1 i j less h inductionLower inductionUpper =>
    rw [holds h (by omega)]
    by_cases reached : start ≤ h
    · simpa [reached] using inductionLower above reached fun k small => holds k (by omega)
    · simpa [reached] using inductionUpper (by omega) below holds
  | case2 i j done =>
    rw [show i = start by omega]

/-- The contents are the slice rotated by the index, which is the end of the slice until that has
the size. -/
structure RingBuffer.Holds (eb : RingBuffer α) (size : Nat) (contents : List α) : Prop where
  maxSize_eq : eb.maxSize = size
  length_le : eb.buffer.length ≤ size
  next_eq : eb.buffer.length < size → eb.next = eb.buffer.length
  next_lt : 0 < size → size ≤ eb.buffer.length → eb.next < eb.buffer.length
  contents_eq : eb.buffer.rotate eb.next = contents

namespace RingBuffer

variable {eb : RingBuffer α} {size : Nat}

theorem holds_ordered (buffer : List α) (bound : buffer.length ≤ size) :
    Holds ⟨buffer, buffer.length % size, size⟩ size buffer := by
  refine ⟨rfl, bound, Nat.mod_eq_of_lt, fun positive full => ?_, ?_⟩
  · exact (Nat.mod_lt _ positive).trans_le full
  · rcases bound.lt_or_eq with less | full
    · rw [Nat.mod_eq_of_lt less, rotate_length]
    · rw [full, Nat.mod_self, rotate_zero]

theorem holds_resetNext (buffer : List α) (next : Nat) (bound : buffer.length ≤ size)
    (positive : 0 < size) :
    ∃ after, resetNext ⟨buffer, next, size⟩ = some after ∧ after.Holds size buffer := by
  refine ⟨_, ?_, holds_ordered _ bound⟩
  rw [resetNext, isFull]
  rcases bound.lt_or_eq with less | full
  · simp [Nat.mod_eq_of_lt less, less.not_ge]
  · simp [full, modulo, positive.ne']

/-- The slice that compacting cuts out, from the mapped index on, is what remains of the contents:
it is wrapped around if the part after the index reaches the end. -/
theorem drop_rotate {buffer : List α} {next start : Nat} (inside : next ≤ buffer.length)
    (below : start < buffer.length) :
    (buffer.rotate next).drop start =
      if (next + start) % buffer.length + (buffer.length - start) > buffer.length then
        buffer.drop ((next + start) % buffer.length) ++
          buffer.take ((next + (start + (buffer.length - start))) % buffer.length)
      else (buffer.take ((next + start) % buffer.length + (buffer.length - start))).drop
        ((next + start) % buffer.length) := by
  rw [rotate_eq_drop_append_take inside, Nat.add_sub_cancel' below.le, Nat.add_mod_right]
  by_cases wraps : next + start < buffer.length
  · rw [Nat.mod_eq_of_lt wraps, Nat.mod_eq_of_lt (by omega),
      drop_append_of_le_length (by simp; omega), drop_drop]
    split
    · rfl
    · obtain rfl : next = 0 := by omega
      simp [Nat.add_sub_cancel' below.le]
  · have mapped : (next + start) % buffer.length = next + start - buffer.length := by
      rw [Nat.mod_eq_sub_mod (by omega), Nat.mod_eq_of_lt (by omega)]
    rw [mapped, if_neg (by omega), drop_append, drop_eq_nil_of_le (by simp; omega), nil_append,
      length_drop]
    congr 1
    · omega
    · congr 1
      omega

namespace Holds

theorem length_eq (holds : eb.Holds size contents) : eb.buffer.length = contents.length := by
  rw [← holds.contents_eq, length_rotate]

/-- Adding an element does the same to a buffer and to the queue. -/
theorem add (holds : eb.Holds size contents) (e : α) :
    ∃ after, eb.add e = some after ∧ after.Holds size (queueStep size contents (.add e)) := by
  obtain ⟨buffer, next, maxSize⟩ := eb
  obtain ⟨rfl, length_le, next_eq, next_lt, rfl⟩ := holds
  dsimp only at *
  simp only [RingBuffer.add, isFull, queueStep, length_rotate]
  rcases Nat.eq_zero_or_pos maxSize with rfl | positive
  · have empty : buffer = [] := length_eq_zero_iff.mp (Nat.le_zero.mp length_le)
    subst empty
    exact ⟨_, rfl, rfl, length_le, next_eq, next_lt, rfl⟩
  simp only [positive.ne', if_false, incr, modulo]
  rcases length_le.lt_or_eq with less | full
  · -- The slice still grows, and is in order.
    obtain rfl := next_eq less
    have ordered := @holds_ordered α maxSize (buffer ++ [e]) (by simpa)
    rw [length_append] at ordered
    rw [Nat.sub_eq_zero_of_le less, drop_zero, rotate_length, if_neg (by simpa using less)]
    exact ⟨_, rfl, ordered⟩
  · -- The new element takes the place of the oldest one.
    have inside := next_lt positive full.ge
    obtain ⟨newer, oldest, older, rfl, rfl⟩ : ∃ newer oldest older,
        buffer = newer ++ oldest :: older ∧ next = newer.length :=
      ⟨buffer.take next, buffer[next], buffer.drop (next + 1), by simp, by simp; omega⟩
    subst full
    have rotated : (newer ++ e :: older).rotate (newer.length + 1) = older ++ newer ++ [e] := by
      simpa using rotate_append_length_eq (newer ++ [e]) older
    have length_eq : (newer ++ e :: older).length = (newer ++ oldest :: older).length := by simp
    rw [if_pos (by simp), if_pos inside, rotate_append_length_eq]
    refine ⟨_, rfl, rfl, by simp, by simp, ?_, ?_⟩
    · intro positive _
      simpa using Nat.mod_lt _ positive
    · simp only [set_append_right, le_refl, Nat.sub_self, set_cons_zero]
      rw [← length_eq, rotate_mod, rotated, length_eq]
      simp

variable (holds : eb.Holds size contents)
include holds

theorem atIndex_eq {i : Nat} (bound : i < contents.length) : eb.atIndex i = contents[i]? := by
  rw [← holds.length_eq] at bound
  rw [← holds.contents_eq, getElem?_rotate bound, atIndex, mapIndex, modulo,
    if_neg (Nat.ne_zero_of_lt bound), Nat.add_comm]
  rfl

theorem firstValidIndex_eq {start : Nat} (below : start ≤ contents.length)
    (valid : ∀ i < contents.length, contents[i]?.map isValid = some (decide (start ≤ i))) :
    eb.firstValidIndex isValid = some start := by
  rw [firstValidIndex, holds.length_eq]
  refine search_eq (Nat.zero_le _) below fun i bound => ?_
  rw [holds.atIndex_eq bound, valid i bound]

theorem mapM_atIndex {start count : Nat} (reaches : start + count = contents.length) :
    (range' start count).mapM eb.atIndex = some (contents.drop start) := by
  induction count generalizing start with
  | zero => simp [← reaches]
  | succ count inductionHypothesis =>
    have inside : start < contents.length := by omega
    rw [range'_succ, mapM_cons, inductionHypothesis (by omega), holds.atIndex_eq inside,
      getElem?_eq_getElem inside, drop_eq_getElem_cons inside]
    rfl

theorem iterateValid_eq (suffix : HoldsOnSuffix isValid contents) :
    eb.iterateValid isValid = some (contents.filter isValid) := by
  obtain ⟨start, below, filtered, valid⟩ := suffix.exists_position
  rw [iterateValid, holds.firstValidIndex_eq below valid, filtered, holds.length_eq]
  exact holds.mapM_atIndex (Nat.add_sub_cancel' below)

/-- Compacting does the same to a buffer and to the queue. -/
theorem compact (suffix : HoldsOnSuffix isValid contents) :
    ∃ after, eb.compact isValid = some after ∧
      after.Holds size (queueStep size contents (.compact isValid)) := by
  obtain ⟨start, below, filtered, valid⟩ := suffix.exists_position
  rw [queueStep, filtered, RingBuffer.compact, holds.firstValidIndex_eq below valid]
  obtain ⟨buffer, next, maxSize⟩ := eb
  obtain ⟨rfl, length_le, next_eq, next_lt, rfl⟩ := holds
  dsimp only at *
  simp only [mapIndex, modulo]
  split
  case isTrue empty =>
    obtain rfl := length_eq_zero_iff.mp empty
    simpa using ⟨rfl, length_le, next_eq, next_lt, rfl⟩
  case isFalse nonempty =>
    rw [length_rotate] at below
    simp only [Option.bind_eq_bind, Option.bind_some]
    split
    case isTrue outside =>
      rw [drop_eq_nil_of_le (by simpa using outside)]
      exact ⟨_, rfl, by simpa using holds_ordered [] (Nat.zero_le _)⟩
    case isFalse inside =>
      have cut := @drop_rotate α buffer next start (by omega) (not_le.mp inside)
      have remaining := @holds_resetNext α maxSize ((buffer.rotate next).drop start) next
        (by simp; omega) (by omega)
      split
      case isTrue wraps =>
        rw [if_pos wraps] at cut
        rwa [cut] at remaining ⊢
      case isFalse straight =>
        rw [if_neg straight] at cut
        rwa [cut] at remaining ⊢

theorem call {c : Call α} (legal : Legal contents c) :
    ∃ after, eb.call c = some after ∧ after.Holds size (queueStep size contents c) := by
  cases c with
  | add e => exact holds.add e
  | compact isValid => exact holds.compact legal

/-- A buffer and a queue that hold the same do so after every sequence of legal calls. -/
theorem calls {calls : List (Call α)} (legal : Meets (queueStep size) Legal contents calls) :
    ∃ after, calls.foldlM RingBuffer.call eb = some after ∧
      after.Holds size (run (queueStep size) contents calls) := by
  induction calls generalizing eb contents with
  | nil => exact ⟨eb, rfl, holds⟩
  | cons c rest inductionHypothesis =>
    obtain ⟨next, called, holdsNext⟩ := holds.call legal.1
    rw [foldlM_cons, called]
    exact inductionHypothesis holdsNext legal.2

end Holds

end RingBuffer

/-- The generic ring buffer is a bounded queue: no call panics, and what is read from the buffer is
read from the queue. -/
theorem ringBuffer_isQueue (size : Nat) (calls : List (Call α))
    (legal : Meets (queueStep size) Legal [] calls) :
    ∃ eb, calls.foldlM RingBuffer.call (RingBuffer.newRingBuffer size) = some eb ∧
      eb.size = (run (queueStep size) [] calls).length ∧
      eb.iterate = some (run (queueStep size) [] calls) ∧
      ∀ isValid, HoldsOnSuffix isValid (run (queueStep size) [] calls) →
        eb.iterateValid isValid = some ((run (queueStep size) [] calls).filter isValid) := by
  have start : (RingBuffer.newRingBuffer size : RingBuffer α).Holds size [] := by
    simpa [RingBuffer.newRingBuffer] using RingBuffer.holds_ordered [] (Nat.zero_le size)
  obtain ⟨eb, done, holds⟩ := start.calls legal
  refine ⟨eb, done, holds.length_eq, ?_, fun isValid suffix => holds.iterateValid_eq suffix⟩
  rw [RingBuffer.iterate, holds.iterateValid_eq ⟨[], _, rfl, by simp, by simp⟩, filter_true]

/-- A buffer of two elements that drops the oldest one, is compacted and filled again. -/
theorem ringBuffer_isQueue_compacted :
    ∃ eb, [.add 1, .add 2, .add 3, .compact (· > 2), .add 4].foldlM RingBuffer.call
        (RingBuffer.newRingBuffer 2) = some eb ∧ eb.iterate = some [3, 4] := by
  obtain ⟨eb, done, _, iterated, _⟩ := ringBuffer_isQueue 2
    [.add 1, .add 2, .add 3, .compact (· > 2), .add 4]
    ⟨trivial, trivial, trivial, ⟨[2], [3], rfl, by decide, by decide⟩, trivial, trivial⟩
  exact ⟨eb, done, iterated⟩

end Constellation.Container
