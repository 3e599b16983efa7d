/-
This file models the ring buffer of Hubble: one writer, which increments the write counter before
it stores its event, and a reader, which loads a slot before it loads the counter and decides from
the two whether its position has been written, is ahead of the writer or was overwritten.

Every atomic access is a step of its own, and the wrap-around of the 64-bit words is written out.
The mutex is free exactly when the writer is idle, and what the reader does while it holds the
mutex is one step. No step reads the events kept beside the ring.
-/

import Constellation.Lib.Run

namespace Constellation.Hubble

/-! ### The shape of a ring -/

/-- A capacity of `2 ^ exponent - 1` events. -/
structure Capacity where
  exponent : Nat
  exponent_pos : 0 < exponent
  exponent_le : exponent ≤ 16
  deriving Repr

namespace Capacity

variable (n : Capacity)

def capacity1 : Capacity := ⟨1, by decide, by decide⟩

def capacity3 : Capacity := ⟨2, by decide, by decide⟩

def cap : Nat := 2 ^ n.exponent - 1

def getMask (count : Nat) : Nat := (2 ^ 64 - 1) >>> (64 - count)

/-- `MSB` of the source is the size of a number. -/
def mask : Nat := getMask (Nat.size n.cap)

/-- One slot is reserved for writing. -/
def dataLen : Nat := n.mask + 1

def cycleExp : Nat := Nat.size (n.mask + 1) - 1

def cycleMask : Nat := (2 ^ 64 - 1) >>> n.cycleExp

def halfCycle : Nat := ((2 ^ 64 - 1) >>> n.cycleExp) >>> 1

end Capacity

/-! ### What a reader decides -/

inductive Answer (E : Type)
  | event (event : E)
  | lost
  | eof
  deriving DecidableEq, Repr

/-- What `readFrom` puts into its channel. -/
inductive Message (E : Type)
  | event (event : E)
  | lost
  deriving DecidableEq, Repr

/-- Send to its channel, or wait for a notification. -/
inductive Decision (E : Type)
  | send (message : Message E)
  | wait
  deriving DecidableEq, Repr

def before (position : Nat) : Nat := (position + (2 ^ 64 - 1)) % 2 ^ 64

variable {E : Type} {len low high : Nat} {loaded : Option E} {event : E} (position : Nat)

/-- What `read` decides from the loaded slot and the loaded counter. -/
def Capacity.read (n : Capacity) (read : Nat) (event : Option E) (write : Nat) : Answer E :=
  let readIdx := read &&& n.mask
  let lastWrite := before write
  let lastWriteIdx := lastWrite &&& n.mask
  let readCycle := read >>> n.cycleExp
  let writeCycle := lastWrite >>> n.cycleExp
  let prevWriteCycle := before writeCycle &&& n.cycleMask
  let maxWriteCycle := (writeCycle + n.halfCycle) % 2 ^ 64 &&& n.cycleMask
  if readCycle = writeCycle ∧ readIdx < lastWriteIdx then
    match event with
    | none => .eof
    | some event => .event event
  else if readCycle = prevWriteCycle ∧ readIdx > lastWriteIdx then
    match event with
    | none => .lost
    | some event => .event event
  else if readCycle ≥ writeCycle ∧ readCycle < maxWriteCycle then .eof
  else .lost

/-- What `readFrom` decides from the loaded slot and the loaded counter. -/
def Capacity.readFrom (n : Capacity) (read : Nat) (event : Option E) (write : Nat) : Decision E :=
  let readIdx := read &&& n.mask
  let lastWrite := before write
  let lastWriteIdx := lastWrite &&& n.mask
  let writeCycle := lastWrite >>> n.cycleExp
  let readCycle := read >>> n.cycleExp
  match event with
  | none => .wait
  | some event =>
    if readCycle = before writeCycle &&& n.cycleMask ∧ readIdx > lastWriteIdx then
      .send (.event event)
    else if readCycle = writeCycle then
      if readIdx < lastWriteIdx then .send (.event event) else .wait
    else if readCycle ≥ (writeCycle + 1) % 2 ^ 64 &&& n.cycleMask ∧
        readCycle < (n.halfCycle + writeCycle) % 2 ^ 64 &&& n.cycleMask then .wait
    else .send .lost

/-! ### The threads -/

/-- Where the writer is: outside `Write`, before the store, or before the notification. -/
inductive Writer (E : Type)
  | idle
  | storing (writeIdx : Nat) (entry : E)
  | notifying
  deriving DecidableEq, Repr

inductive Reader (E : Type)
  | idle
  | readLoaded (read : Nat) (event : Option E)
  | returned (read : Nat) (answer : Answer E)
  | starting (read : Nat)
  | loaded (read : Nat) (event : Option E)
  | sending (read : Nat) (message : Message E)
  | parking (read lastWrite : Nat)
  /-- Blocked until the channel for notifications is closed. -/
  | sleeping (read : Nat)
  deriving DecidableEq, Repr

structure System (E : Type) where
  write : Nat
  data : List (Option E)
  /-- Whether there is a channel for notifications. -/
  notifyCh : Bool
  writer : Writer E
  reader : Reader E
  /-- The events of all calls of `Write`. -/
  writes : List E
  /-- What the current `readFrom` sent, with the positions. -/
  sent : List (Nat × Message E)
  /-- The number of writes when a follower was started at `LastWriteParallel`. -/
  origin : Option Nat
  deriving DecidableEq, Repr

inductive Action (E : Type)
  | add (entry : E)
  | store
  | notify
  | callRead (read : Nat)
  | callReadFrom (read : Nat)
  | follow
  | loadSlot
  | loadWrite
  /-- The reader takes the mutex, looks at the counter once more and goes to sleep. -/
  | park
  /-- The channel of the reader takes what is sent. -/
  | deliver
  | cancel
  deriving DecidableEq, Repr

def Action.isAdd : Action E → Bool
  | .add _ => true
  | _ => false

def Action.isFollow : Action E → Bool
  | .follow => true
  | _ => false

def writing (entry : E) : List (Action E) := [.add entry, .store, .notify]

namespace System

variable (n : Capacity)

def newRing : System E where
  write := 0
  data := List.replicate n.dataLen none
  notifyCh := false
  writer := .idle
  reader := .idle
  writes := []
  sent := []
  origin := none

def dataLoadAtomic (s : System E) (dataIdx : Nat) : Option E := s.data.getD dataIdx none

def lastWriteParallel (s : System E) : Nat := (s.write + (2 ^ 64 - 2)) % 2 ^ 64

def wake : Reader E → Reader E
  | .sleeping read => .starting read
  | reader => reader

/-- An action that is not enabled changes nothing. -/
def step (s : System E) : Action E → System E
  | .add entry =>
    match s.writer with
    | .idle =>
      let write := (s.write + 1) % 2 ^ 64
      { s with
        write := write
        writer := .storing (before write &&& n.mask) entry
        writes := s.writes ++ [entry] }
    | _ => s
  | .store =>
    match s.writer with
    | .storing writeIdx entry =>
      { s with data := s.data.set writeIdx (some entry), writer := .notifying }
    | _ => s
  | .notify =>
    match s.writer with
    | .notifying =>
      if s.notifyCh then { s with notifyCh := false, writer := .idle, reader := wake s.reader }
      else { s with writer := .idle }
    | _ => s
  | .callRead read =>
    match s.reader with
    | .idle | .returned _ _ =>
      { s with reader := .readLoaded (read % 2 ^ 64)
                (s.dataLoadAtomic (read % 2 ^ 64 &&& n.mask)) }
    | _ => s
  | .callReadFrom read =>
    match s.reader with
    | .idle | .returned _ _ =>
      { s with reader := .starting (read % 2 ^ 64), sent := [], origin := none }
    | _ => s
  | .follow =>
    match s.reader with
    | .idle | .returned _ _ =>
      { s with reader := .starting s.lastWriteParallel, sent := [], origin := some s.writes.length }
    | _ => s
  | .loadSlot =>
    match s.reader with
    | .starting read => { s with reader := .loaded read (s.dataLoadAtomic (read &&& n.mask)) }
    | _ => s
  | .loadWrite =>
    match s.reader with
    | .readLoaded read event => { s with reader := .returned read (n.read read event s.write) }
    | .loaded read event =>
      match n.readFrom read event s.write with
      | .send message => { s with reader := .sending read message }
      | .wait => { s with reader := .parking read (before s.write) }
    | _ => s
  | .park =>
    match s.reader, s.writer with
    | .parking read lastWrite, .idle =>
      if lastWrite ≠ before s.write then { s with reader := .starting read }
      else { s with reader := .sleeping read, notifyCh := true }
    | _, _ => s
  | .deliver =>
    match s.reader with
    | .sending read message =>
      { s with reader := .starting ((read + 1) % 2 ^ 64), sent := s.sent ++ [(read, message)] }
    | _ => s
  | .cancel =>
    match s.reader with
    | .sending _ _ | .sleeping _ => { s with reader := .idle, origin := none }
    | _ => s

def Free : Reader E → Prop
  | .idle | .returned _ _ => True
  | _ => False

/-- What a step can do. -/
inductive Moves (s : System E) : Action E → System E → Prop
  | stays (action : Action E) : Moves s action s
  | add (entry : E) : s.writer = .idle → Moves s (.add entry) { s with
          write := (s.write + 1) % 2 ^ 64
          writer := .storing (before ((s.write + 1) % 2 ^ 64) &&& n.mask) entry
          writes := s.writes ++ [entry] }
  | store (writeIdx : Nat) (entry : E) : s.writer = .storing writeIdx entry →
      Moves s .store { s with data := s.data.set writeIdx (some entry), writer := .notifying }
  | wake : s.writer = .notifying → s.notifyCh = true →
      Moves s .notify { s with notifyCh := false, writer := .idle, reader := wake s.reader }
  | notify : s.writer = .notifying → s.notifyCh = false → Moves s .notify { s with writer := .idle }
  | callRead (read : Nat) : Free s.reader → Moves s (.callRead read)
        { s with reader := .readLoaded (read % 2 ^ 64)
                  (s.dataLoadAtomic (read % 2 ^ 64 &&& n.mask)) }
  | callReadFrom (read : Nat) : Free s.reader → Moves s (.callReadFrom read)
        { s with reader := .starting (read % 2 ^ 64), sent := [], origin := none }
  | follow : Free s.reader → Moves s .follow { s with
          reader := .starting s.lastWriteParallel, sent := [], origin := some s.writes.length }
  | loadSlot (read : Nat) : s.reader = .starting read →
      Moves s .loadSlot { s with reader := .loaded read (s.dataLoadAtomic (read &&& n.mask)) }
  | answer (read : Nat) (event : Option E) : s.reader = .readLoaded read event →
      Moves s .loadWrite { s with reader := .returned read (n.read read event s.write) }
  | send (read : Nat) (event : Option E) (message : Message E) : s.reader = .loaded read event →
      n.readFrom read event s.write = .send message →
      Moves s .loadWrite { s with reader := .sending read message }
  | wait (read : Nat) (event : Option E) : s.reader = .loaded read event →
      n.readFrom read event s.write = .wait →
      Moves s .loadWrite { s with reader := .parking read (before s.write) }
  | retry (read lastWrite : Nat) : s.reader = .parking read lastWrite → s.writer = .idle →
      lastWrite ≠ before s.write → Moves s .park { s with reader := .starting read }
  | sleep (read lastWrite : Nat) : s.reader = .parking read lastWrite → s.writer = .idle →
      lastWrite = before s.write →
      Moves s .park { s with reader := .sleeping read, notifyCh := true }
  | deliver (read : Nat) (message : Message E) : s.reader = .sending read message → Moves s .deliver
        { s with
          reader := .starting ((read + 1) % 2 ^ 64), sent := s.sent ++ [(read, message)] }
  | cancel : Moves s .cancel { s with reader := .idle, origin := none }

theorem step_moves (s : System E) (action : Action E) : Moves n s action (s.step n action) := by
  cases action with
  | add entry =>
    rw [step]
    split
    case h_1 idle => exact .add entry idle
    · exact .stays _
  | store =>
    rw [step]
    split
    case h_1 writeIdx entry storing => exact .store writeIdx entry storing
    · exact .stays _
  | notify =>
    rw [step]
    split
    case h_1 notifying =>
      split
      case isTrue channel => exact .wake notifying channel
      case isFalse none => exact .notify notifying (Bool.eq_false_of_not_eq_true none)
    · exact .stays _
  | callRead read =>
    rw [step]
    split
    case h_1 idle => exact .callRead read (by rw [idle]; trivial)
    case h_2 returned => exact .callRead read (by rw [returned]; trivial)
    · exact .stays _
  | callReadFrom read =>
    rw [step]
    split
    case h_1 idle => exact .callReadFrom read (by rw [idle]; trivial)
    case h_2 returned => exact .callReadFrom read (by rw [returned]; trivial)
    · exact .stays _
  | follow =>
    rw [step]
    split
    case h_1 idle => exact .follow (by rw [idle]; trivial)
    case h_2 returned => exact .follow (by rw [returned]; trivial)
    · exact .stays _
  | loadSlot =>
    rw [step]
    split
    case h_1 read starting => exact .loadSlot read starting
    · exact .stays _
  | loadWrite =>
    rw [step]
    split
    case h_1 read event loaded => exact .answer read event loaded
    case h_2 read event loaded =>
      split
      case h_1 message decision => exact .send read event message loaded decision
      case h_2 decision => exact .wait read event loaded decision
    · exact .stays _
  | park =>
    rw [step]
    split
    case h_1 read lastWrite parking idle =>
      split
      case isTrue changed => exact .retry read lastWrite parking idle changed
      case isFalse same => exact .sleep read lastWrite parking idle (not_not.mp same)
    · exact .stays _
  | deliver =>
    rw [step]
    split
    case h_1 read message sending => exact .deliver read message sending
    · exact .stays _
  | cancel =>
    rw [step]
    split
    · exact .cancel
    · exact .cancel
    · exact .stays _

end System

/-! ### Cycles and indices -/

/-- A word of ones, shifted so that some of them remain. -/
theorem ones_shiftRight {count : Nat} (small : count ≤ 64) :
    (2 ^ 64 - 1) >>> (64 - count) = 2 ^ count - 1 := by
  have split : 2 ^ 64 = 2 ^ (64 - count) * 2 ^ count := by
    rw [← Nat.pow_add, Nat.sub_add_cancel small]
  have positive : 0 < 2 ^ (64 - count) * 2 ^ count := split ▸ Nat.two_pow_pos 64
  rw [Nat.shiftRight_eq_div_pow, split, Nat.mul_sub_div 0 _ _ positive, Nat.zero_div]

/-- Two numbers are less than a length apart if they are in one cycle, or in two cycles that follow
each other, with the indices in the right order. -/
theorem sub_lt_iff (positive : 0 < len) (le : low ≤ high) :
    low < high ∧ high - low < len ↔ (low / len = high / len ∧ low % len < high % len) ∨
        (low / len + 1 = high / len ∧ high % len < low % len) := by
  have lowSplit := Nat.div_add_mod low len
  have highSplit := Nat.div_add_mod high len
  have lowMod := Nat.mod_lt low positive
  have highMod := Nat.mod_lt high positive
  obtain ⟨more, cycles⟩ := Nat.exists_eq_add_of_le (Nat.div_le_div_right (c := len) le)
  generalize low % len = lowIdx at *
  generalize high % len = highIdx at *
  generalize low / len = lowCycle at *
  generalize high / len = highCycle at *
  subst cycles
  rw [Nat.mul_add] at highSplit
  rcases more with _ | _ | more
  · omega
  · omega
  · have far : len * (more + 1 + 1) = len * more + len + len := by ring
    omega

/-- Different positions with the same index are a cycle apart. -/
theorem add_le_of_mod_eq (less : low < high) (same : low % len = high % len) :
    low + len ≤ high := by
  have divides : len ∣ high - low := (Nat.modEq_iff_dvd' less.le).mp same
  have apart := Nat.le_of_dvd (Nat.sub_pos_of_lt less) divides
  omega

namespace Capacity

variable (n : Capacity)

def cycles : Nat := 2 ^ (64 - n.exponent)

theorem exponent_le_word : n.exponent ≤ 64 := n.exponent_le.trans (by decide)

theorem cycles_mul : n.cycles * 2 ^ n.exponent = 2 ^ 64 := by
  rw [cycles, ← Nat.pow_add, Nat.sub_add_cancel n.exponent_le_word]

theorem mask_eq : n.mask = 2 ^ n.exponent - 1 := by
  have positive := n.exponent_pos
  have size : Nat.size n.cap = n.exponent := by
    refine le_antisymm (Nat.size_le.mpr (Nat.sub_lt (Nat.two_pow_pos _) Nat.one_pos)) ?_
    refine Nat.le_of_pred_lt (Nat.lt_size.mpr ?_)
    have double : 2 ^ n.exponent = 2 * 2 ^ n.exponent.pred := by
      rw [← Nat.pow_succ', Nat.succ_pred_eq_of_pos positive]
    rw [cap]
    omega
  rw [mask, size, getMask, ones_shiftRight n.exponent_le_word]

theorem dataLen_eq : n.dataLen = 2 ^ n.exponent := by
  rw [dataLen, mask_eq, Nat.sub_add_cancel (Nat.two_pow_pos _)]

theorem cycleExp_eq : n.cycleExp = n.exponent := by
  rw [cycleExp, mask_eq, Nat.sub_add_cancel (Nat.two_pow_pos _), Nat.size_pow, Nat.add_sub_cancel]

theorem cycleMask_eq : n.cycleMask = n.cycles - 1 := by
  have shifted := ones_shiftRight (Nat.sub_le 64 n.exponent)
  rw [Nat.sub_sub_self n.exponent_le_word] at shifted
  rw [cycleMask, cycleExp_eq, cycles, shifted]

theorem halfCycle_eq : 2 * n.halfCycle + 2 = n.cycles := by
  have small := n.exponent_le
  have shifted := ones_shiftRight (Nat.sub_le 64 (n.exponent + 1))
  rw [Nat.sub_sub_self (by omega)] at shifted
  have double : 2 ^ (64 - n.exponent) = 2 * 2 ^ (64 - (n.exponent + 1)) := by
    rw [← Nat.pow_succ']
    congr 1
    omega
  have positive := Nat.two_pow_pos (64 - (n.exponent + 1))
  rw [halfCycle, cycleExp_eq, ← Nat.shiftRight_add, shifted, cycles, double]
  omega

theorem and_mask : position &&& n.mask = position % n.dataLen := by
  rw [mask_eq, dataLen_eq, Nat.and_two_pow_sub_one_eq_mod]

theorem shift_cycleExp : position >>> n.cycleExp = position / n.dataLen := by
  rw [cycleExp_eq, dataLen_eq, Nat.shiftRight_eq_div_pow]

theorem and_cycleMask (cycle : Nat) : cycle % 2 ^ 64 &&& n.cycleMask = cycle % n.cycles := by
  rw [cycleMask_eq, cycles, Nat.and_two_pow_sub_one_eq_mod]
  exact Nat.mod_mod_of_dvd _ (Nat.pow_dvd_pow 2 (Nat.sub_le _ _))

theorem dataLen_pos : 0 < n.dataLen := Nat.succ_pos _

theorem dataLen_mul : n.cycles * n.dataLen = 2 ^ 64 := by
  rw [dataLen_eq, cycles_mul]

theorem four_le_cycles : 4 ≤ n.cycles := by
  have small := n.exponent_le
  exact Nat.pow_le_pow_right (show 0 < 2 by decide) (show 2 ≤ 64 - n.exponent by omega)

theorem div_lt_cycles {position : Nat} (word : position < 2 ^ 64) :
    position / n.dataLen < n.cycles := by
  rw [Nat.div_lt_iff_lt_mul n.dataLen_pos, dataLen_mul]
  exact word

/-- The cycle before another one. The cycle before the first is the last. -/
theorem previousCycle_eq {cycle : Nat} (less : cycle < n.cycles) :
    before cycle &&& n.cycleMask = if cycle = 0 then n.cycles - 1 else cycle - 1 := by
  have whole : 2 ^ 64 = n.cycles * n.mask + n.cycles := n.dataLen_mul.symm
  rw [before, and_cycleMask, whole]
  split
  case isTrue zero =>
    have last : cycle + (n.cycles * n.mask + n.cycles - 1) = n.cycles - 1 + n.cycles * n.mask := by
      omega
    rw [last, Nat.add_mul_mod_self_left, Nat.mod_eq_of_lt (Nat.sub_lt (by omega) Nat.one_pos)]
  case isFalse nonzero =>
    have earlier : cycle + (n.cycles * n.mask + n.cycles - 1) =
        cycle - 1 + n.cycles * (n.mask + 1) := by
      rw [Nat.mul_succ]
      omega
    rw [earlier, Nat.add_mul_mod_self_left, Nat.mod_eq_of_lt (by omega)]

/-! ### Decisions by distance -/

/-- How far the last write is ahead of a position, in 64 bits. -/
def lag (read write : Nat) : Nat := (before write + (2 ^ 64 - read)) % 2 ^ 64

/-- The reader is in the cycle before the writer, at an index that is not overwritten. -/
def InPreviousCycle (read write : Nat) : Prop :=
  read >>> n.cycleExp = before (before write >>> n.cycleExp) &&& n.cycleMask ∧
    read &&& n.mask > before write &&& n.mask

/-- The reader is in the cycle of the writer, at an index that is written. -/
def InCurrentCycle (read write : Nat) : Prop :=
  read >>> n.cycleExp = before write >>> n.cycleExp ∧ read &&& n.mask < before write &&& n.mask

variable {read write : Nat}

section

variable (word : read < 2 ^ 64)
include word

/-- The two valid ranges are the positions that are less than the buffer behind the last write. -/
theorem inCycles_iff :
    n.InCurrentCycle read write ∨ n.InPreviousCycle read write ↔
      0 < lag read write ∧ lag read write < n.dataLen := by
  have writeWord : before write < 2 ^ 64 := Nat.mod_lt _ (Nat.two_pow_pos 64)
  have positive := n.dataLen_pos
  have many := n.four_le_cycles
  have readCycle := n.div_lt_cycles word
  have writeCycle := n.div_lt_cycles writeWord
  unfold InCurrentCycle InPreviousCycle lag
  simp only [n.and_mask, n.shift_cycleExp, n.previousCycle_eq writeCycle]
  generalize before write = lastWrite at *
  rcases Nat.lt_or_ge lastWrite read with less | le
  · have distance : (lastWrite + (2 ^ 64 - read)) % 2 ^ 64 = lastWrite + 2 ^ 64 - read := by omega
    have ordered := Nat.div_le_div_right (c := n.dataLen) less.le
    have same : lastWrite / n.dataLen = read / n.dataLen →
        lastWrite % n.dataLen < read % n.dataLen := by
      intro cycles
      have lowSplit := Nat.div_add_mod lastWrite n.dataLen
      have highSplit := Nat.div_add_mod read n.dataLen
      rw [cycles] at lowSplit
      omega
    have near := sub_lt_iff positive (show read ≤ lastWrite + 2 ^ 64 by omega)
    rw [← n.dataLen_mul, Nat.add_mul_div_right _ _ positive, Nat.add_mul_mod_self_right,
      n.dataLen_mul] at near
    generalize read / n.dataLen = readCycle at *
    generalize lastWrite / n.dataLen = writeCycle at *
    split <;> omega
  · have distance : (lastWrite + (2 ^ 64 - read)) % 2 ^ 64 = lastWrite - read := by omega
    have ordered := Nat.div_le_div_right (c := n.dataLen) le
    have near := sub_lt_iff positive le
    generalize read / n.dataLen = readCycle at *
    generalize lastWrite / n.dataLen = writeCycle at *
    split <;> omega

/-- `read` returns the loaded event only for a position less than the buffer behind the last
write. -/
theorem read_eq_event (answer : n.read read loaded write = .event event) :
    loaded = some event ∧ 0 < lag read write ∧ lag read write < n.dataLen := by
  rw [← n.inCycles_iff word]
  unfold Capacity.read at answer
  simp only at answer
  split at answer
  case isTrue current =>
    cases loaded with
    | none => cases answer
    | some other =>
      cases answer
      exact ⟨rfl, .inl current⟩
  case isFalse =>
    split at answer
    case isTrue previous =>
      cases loaded with
      | none => cases answer
      | some other =>
        cases answer
        exact ⟨rfl, .inr previous⟩
    case isFalse => split at answer <;> cases answer

theorem readFrom_eq_event (decision : n.readFrom read loaded write = .send (.event event)) :
    loaded = some event ∧ 0 < lag read write ∧ lag read write < n.dataLen := by
  rw [← n.inCycles_iff word]
  unfold Capacity.readFrom at decision
  cases loaded with
  | none => cases decision
  | some other =>
    simp only at decision
    split at decision
    case isTrue previous =>
      cases decision
      exact ⟨rfl, .inr previous⟩
    case isFalse =>
      split at decision
      case isTrue sameCycle =>
        split at decision
        case isTrue written =>
          cases decision
          exact ⟨rfl, .inl ⟨sameCycle, written⟩⟩
        case isFalse => cases decision
      case isFalse => split at decision <;> cases decision

/-- A reader that is in the cycle of the writer is near the last write, before or after it. -/
theorem lag_of_sameCycle (sameCycle : read / n.dataLen = before write / n.dataLen) :
    lag read write < n.dataLen ∨ 2 ^ 64 < lag read write + n.dataLen := by
  have lowMod := Nat.mod_lt read n.dataLen_pos
  have highMod := Nat.mod_lt (before write) n.dataLen_pos
  have lowSplit := Nat.div_add_mod read n.dataLen
  have highSplit := Nat.div_add_mod (before write) n.dataLen
  rw [sameCycle] at lowSplit
  unfold lag
  omega

/-- A reader that is behind the writer by less than half of all positions is not taken to be ahead
of it. -/
theorem not_ahead (near : lag read write < 2 ^ 63)
    (otherCycle : read / n.dataLen ≠ before write / n.dataLen) :
    ¬(read / n.dataLen ≥ (before write / n.dataLen + 1) % n.cycles ∧
      read / n.dataLen < (n.halfCycle + before write / n.dataLen) % n.cycles) := by
  have writeWord : before write < 2 ^ 64 := Nat.mod_lt _ (Nat.two_pow_pos 64)
  have positive := n.dataLen_pos
  have lowMod := Nat.mod_lt read positive
  have highMod := Nat.mod_lt (before write) positive
  have lowSplit := Nat.div_add_mod read n.dataLen
  have highSplit := Nat.div_add_mod (before write) n.dataLen
  have cycle := n.div_lt_cycles writeWord
  have half := n.halfCycle_eq
  have whole : 2 * (n.dataLen * n.halfCycle) + 2 * n.dataLen = 2 ^ 64 := by
    rw [← n.dataLen_mul, ← half]
    ring
  unfold lag at near
  rintro ⟨atLeast, less⟩
  generalize before write = lastWrite at *
  generalize read / n.dataLen = readCycle at *
  generalize lastWrite / n.dataLen = writeCycle at *
  have apart {low high : Nat} (above : low ≤ high) :
      n.dataLen * low ≤ n.dataLen * high := Nat.mul_le_mul_left _ above
  rcases Nat.lt_or_ge readCycle writeCycle with behind | notBehind
  · -- The last cycle is the only one whose successor is not above the cycle of the reader.
    have last : writeCycle + 1 = n.cycles := by
      refine le_antisymm cycle (Nat.le_of_not_lt fun more => ?_)
      rw [Nat.mod_eq_of_lt more] at atLeast
      omega
    have many := n.four_le_cycles
    have wrapped : (n.halfCycle + writeCycle) % n.cycles = n.halfCycle - 1 := by
      rw [show n.halfCycle + writeCycle = n.halfCycle - 1 + n.cycles by omega,
        Nat.add_mod_right, Nat.mod_eq_of_lt (by omega)]
    have far := apart (show readCycle + n.halfCycle + 3 ≤ writeCycle by omega)
    rw [Nat.mul_add, Nat.mul_add] at far
    omega
  · rcases Nat.lt_or_ge (n.halfCycle + writeCycle) n.cycles with inside | outside
    · rw [Nat.mod_eq_of_lt inside] at less
      have above := apart (show writeCycle + 1 ≤ readCycle by omega)
      have close := apart (show readCycle + 1 ≤ n.halfCycle + writeCycle by omega)
      rw [Nat.mul_add, Nat.mul_add] at close
      rw [Nat.mul_add] at above
      omega
    · rw [Nat.mod_eq_sub_mod outside, Nat.mod_eq_of_lt (by omega)] at less
      omega

/-- What `readFrom` decides on an event, by how far the reader is behind the last write. -/
theorem readFrom_some (near : lag read write < 2 ^ 63) (event : E) :
    n.readFrom read (some event) write =
      if lag read write = 0 then .wait
      else if lag read write < n.dataLen then .send (.event event)
      else .send .lost := by
  have writeWord : before write < 2 ^ 64 := Nat.mod_lt _ (Nat.two_pow_pos 64)
  have cycles : n.InCurrentCycle read write ∨ n.InPreviousCycle read write ↔ _ :=
    n.inCycles_iff word
  unfold Capacity.readFrom
  simp only
  split
  case isTrue previous =>
    have valid := cycles.mp (.inr previous)
    rw [if_neg valid.1.ne', if_pos valid.2]
  case isFalse notPrevious =>
    split
    case isTrue sameCycle =>
      split
      case isTrue written =>
        have valid := cycles.mp (.inl ⟨sameCycle, written⟩)
        rw [if_neg valid.1.ne', if_pos valid.2]
      case isFalse notWritten =>
        have invalid :=
          mt cycles.mpr (not_or.mpr ⟨fun current => notWritten current.2, notPrevious⟩)
        rw [n.shift_cycleExp, n.shift_cycleExp] at sameCycle
        have close := n.lag_of_sameCycle word sameCycle
        rw [if_pos (by omega)]
    case isFalse otherCycle =>
      have invalid := mt cycles.mpr (not_or.mpr ⟨fun current => otherCycle current.1, notPrevious⟩)
      simp only [n.shift_cycleExp] at otherCycle ⊢
      have behind : lag read write ≠ 0 := by
        intro zero
        refine otherCycle (congrArg (· / n.dataLen) ?_)
        unfold lag at zero
        omega
      rw [n.and_cycleMask, n.and_cycleMask, if_neg (n.not_ahead word near otherCycle),
        if_neg behind, if_neg (by omega)]

end

end Capacity

end Constellation.Hubble
