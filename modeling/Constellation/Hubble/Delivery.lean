/-
This file is about which events a reader of the ring delivers. The reader loads the slot before
the write counter. If the writer writes the position and the next one between the two loads, the
position passes for readable and the reader delivers an event of an earlier cycle. In every run in
which no reader is passed in this way, a reader only delivers the event of the position it reads.
-/

import Constellation.Hubble.Slots

namespace Constellation.Hubble

open Lib List

variable {E : Type} {reader : Reader E} {action : Action E}

/-- What a reader holds between its loads: the position and the content of its slot. -/
def Reader.between : Reader E → Option (Nat × Option E)
  | .readLoaded read event | .loaded read event => some (read, event)
  | _ => none

namespace System

variable {n : Capacity} {s later : System E}

/-- The writer does not count another event while a reader, between its two loads for the position
of the last event, holds anything but this event. -/
def Unpassed (s : System E) (action : Action E) : Prop :=
  action.isAdd = true → s.writer = .idle → ∀ loaded ∈ s.reader.between.toList,
    loaded.1 = before s.write → loaded.2 = s.writes.getLast?

instance [DecidableEq E] (s : System E) (action : Action E) : Decidable (s.Unpassed action) := by
  delta Unpassed
  infer_instance

/-- What the reader returned or sent for a position is lost events or the event of the position. -/
def DeliversWritten (s : System E) : Prop :=
  (∀ read event, s.reader = .returned read (.event event) → s.writes[read]? = some event) ∧
    ∀ read event, (read, Message.event event) ∈ s.sent → s.writes[read]? = some event

/-- It is the event of the position, or the position is not passed, or it is overwritten. -/
structure Loaded (n : Capacity) (writes : List E) (read : Nat) (event : E) : Prop where
  sameIdx : ∃ position < writes.length, position % n.dataLen = read % n.dataLen
  current : writes[read]? = some event ∨ writes.length ≤ read + 1 ∨ read + n.dataLen < writes.length

/-- What is known of a reader between its loads and where it delivers. -/
def Honest (n : Capacity) (writes : List E) : Reader E → Prop
  | .idle => True
  | .readLoaded read event | .loaded read event =>
    read < 2 ^ 64 ∧ ∀ loaded, event = some loaded → Loaded n writes read loaded
  | .returned read answer => ∀ event, answer = .event event → writes[read]? = some event
  | .sending read message =>
    read < 2 ^ 64 ∧ ∀ event, message = .event event → writes[read]? = some event
  | .starting read | .parking read _ | .sleeping read => read < 2 ^ 64

structure Sound (n : Capacity) (s : System E) : Prop where
  honest : Honest n s.writes s.reader
  sent : ∀ read event, (read, Message.event event) ∈ s.sent → s.writes[read]? = some event

variable {read : Nat} {event : E}

theorem Filled.loaded (filled : Filled n s)
    (content : s.dataLoadAtomic (read &&& n.mask) = some event) : Loaded n s.writes read event := by
  obtain ⟨few, most⟩ := s.stored_le
  rw [n.and_mask] at content
  rcases filled.slot _ (Nat.mod_lt _ n.dataLen_pos) with
    ⟨none, _⟩ | ⟨position, sameIdx, written, last, isContent⟩
  · rw [content] at none
    cases none
  · rw [content] at isContent
    refine ⟨⟨position, by omega, sameIdx⟩, ?_⟩
    rcases Nat.lt_trichotomy position read with less | rfl | more
    · have apart := add_le_of_mod_eq less sameIdx
      exact .inr (.inl (by omega))
    · exact .inl isContent.symm
    · have apart := add_le_of_mod_eq more sameIdx.symm
      exact .inr (.inr (by omega))

variable {writes : List E}

theorem getElem?_append_of_some (entry : E) (isEvent : writes[read]? = some event) :
    (writes ++ [entry])[read]? = some event := by
  rw [getElem?_append_left (List.getElem?_eq_some_iff.mp isEvent).1, isEvent]

/-- Another event is counted. What the reader loaded still relates to the events. -/
theorem Loaded.append {entry : E} (loaded : Loaded n writes read event)
    (unpassed : read + 1 = writes.length → writes.getLast? = some event) :
    Loaded n (writes ++ [entry]) read event := by
  obtain ⟨⟨position, written, sameIdx⟩, current⟩ := loaded
  have length : (writes ++ [entry]).length = writes.length + 1 := length_append
  refine ⟨⟨position, by omega, sameIdx⟩, ?_⟩
  rcases current with isEvent | ahead | overwritten
  · exact .inl (getElem?_append_of_some entry isEvent)
  · rcases Nat.lt_or_ge writes.length (read + 1) with less | ge
    · exact .inr (.inl (by omega))
    · have last : writes.length - 1 = read := by omega
      refine .inl (getElem?_append_of_some entry ?_)
      rw [← unpassed (by omega), getLast?_eq_getElem?, last]
  · exact .inr (.inr (by omega))

/-- A reader for which a position is readable holds the event of the position. -/
theorem Loaded.eq_of_lag {write : Nat} (loaded : Loaded n writes read event) (word : read < 2 ^ 64)
    (few : writes.length < 2 ^ 63) (write_eq : write = writes.length % 2 ^ 64)
    (readable : 0 < Capacity.lag read write ∧ Capacity.lag read write < n.dataLen) :
    writes[read]? = some event := by
  obtain ⟨⟨position, written, sameIdx⟩, current⟩ := loaded
  have lastWrite : before write = writes.length - 1 := by
    unfold before
    omega
  rw [Capacity.lag, lastWrite] at readable
  rcases current with isEvent | ahead | overwritten
  · exact isEvent
  · -- The position wraps below zero, and no position with its index was written yet.
    have below : read < position + 2 ^ 64 := by omega
    have sameWrapped : read % n.dataLen = (position + 2 ^ 64) % n.dataLen := by
      rw [← n.dataLen_mul, Nat.add_mul_mod_self_right, sameIdx]
    have apart := add_le_of_mod_eq below sameWrapped
    omega
  · omega

/-- Another event is counted while the reader is not passed. -/
theorem Honest.append (honest : Honest n writes reader) (entry : E)
    (unpassed : ∀ loaded ∈ reader.between.toList,
      loaded.1 + 1 = writes.length → loaded.2 = writes.getLast?) :
    Honest n (writes ++ [entry]) reader := by
  have loaded {read : Nat} {event : Option E} (isBetween : reader.between = some (read, event))
      (held : ∀ loaded, event = some loaded → Loaded n writes read loaded) (content : E)
      (isContent : event = some content) : Loaded n (writes ++ [entry]) read content := by
    refine (held content isContent).append fun last => ?_
    rw [← isContent]
    exact (unpassed (read, event) (Option.mem_toList.mpr isBetween) last).symm
  cases reader with
  | idle => trivial
  | readLoaded read event | loaded read event => exact ⟨honest.1, loaded rfl honest.2⟩
  | returned read answer =>
    exact fun event isEvent => getElem?_append_of_some entry (honest event isEvent)
  | sending read message =>
    exact ⟨honest.1, fun event isEvent => getElem?_append_of_some entry (honest.2 event isEvent)⟩
  | starting read | parking read lastWrite | sleeping read => exact honest

theorem Honest.wake (honest : Honest n writes reader) : Honest n writes (wake reader) := by
  cases reader <;> exact honest

/-- Every step in which the reader is not passed keeps the invariant. -/
theorem Sound.moves (sound : Sound n s) (filled : Filled n s) (moves : Moves n s action later)
    (unpassed : s.Unpassed action) (few : later.writes.length < 2 ^ 63) : Sound n later := by
  obtain ⟨honest, sent⟩ := sound
  cases moves with
  | stays => exact ⟨honest, sent⟩
  | add entry idle =>
    have notPassed : ∀ loaded ∈ s.reader.between.toList,
        loaded.1 + 1 = s.writes.length → loaded.2 = s.writes.getLast? := by
      intro loaded member last
      refine unpassed rfl idle loaded member ?_
      rw [length_append] at few
      rw [filled.write_eq, ← last, before]
      omega
    exact ⟨honest.append entry notPassed,
      fun read event member => getElem?_append_of_some entry (sent read event member)⟩
  | store => exact ⟨honest, sent⟩
  | wake => exact ⟨honest.wake, sent⟩
  | notify => exact ⟨honest, sent⟩
  | callRead read free =>
    exact ⟨⟨Nat.mod_lt _ (Nat.two_pow_pos 64), fun _ content => filled.loaded content⟩, sent⟩
  | callReadFrom read free | follow free =>
    exact ⟨Nat.mod_lt _ (Nat.two_pow_pos 64), fun _ _ member => absurd member not_mem_nil⟩
  | loadSlot read starting =>
    rw [starting] at honest
    exact ⟨⟨honest, fun _ content => filled.loaded content⟩, sent⟩
  | answer read event loaded =>
    rw [loaded] at honest
    refine ⟨fun content isContent => ?_, sent⟩
    obtain ⟨isEvent, readable⟩ := n.read_eq_event honest.1 isContent
    exact (honest.2 content isEvent).eq_of_lag honest.1 few filled.write_eq readable
  | send read event message loaded decision =>
    rw [loaded] at honest
    refine ⟨⟨honest.1, fun content isContent => ?_⟩, sent⟩
    obtain ⟨isEvent, readable⟩ := n.readFrom_eq_event honest.1 (isContent ▸ decision)
    exact (honest.2 content isEvent).eq_of_lag honest.1 few filled.write_eq readable
  | wait read event loaded =>
    rw [loaded] at honest
    exact ⟨honest.1, sent⟩
  | retry read lastWrite parking | sleep read lastWrite parking =>
    rw [parking] at honest
    exact ⟨honest, sent⟩
  | deliver read message sending =>
    rw [sending] at honest
    refine ⟨Nat.mod_lt _ (Nat.two_pow_pos 64), fun position event member => ?_⟩
    rcases mem_append.mp member with before | new
    · exact sent position event before
    · cases mem_singleton.mp new
      exact honest.2 event rfl
  | cancel => exact ⟨trivial, sent⟩

theorem length_le_of_moves (moves : Moves n s action later) :
    s.writes.length ≤ later.writes.length := by
  cases moves with
  | add entry idle => simp
  | _ => exact le_rfl

/-- In every run with fewer than `2 ^ 63` writes in which the reader is not passed, the reader
delivers lost events and the events of the positions it reads, and nothing else. -/
theorem run_deliversWritten (n : Capacity) (actions : List (Action E))
    (unpassed : Meets (step n) Unpassed (newRing n) actions)
    (few : (run (step n) (newRing n) actions).writes.length < 2 ^ 63) :
    (run (step n) (newRing n : System E) actions).DeliversWritten := by
  have invariant : Filled n (run (step n) (newRing n : System E) actions) ∧
      ((run (step n) (newRing n) actions).writes.length < 2 ^ 63 →
        Sound n (run (step n) (newRing n) actions)) := by
    refine unpassed.invariant (fun s => Filled n s ∧ (s.writes.length < 2 ^ 63 → Sound n s))
      (fun s action ⟨filled, sound⟩ met => ?_) ⟨filled_newRing n, fun _ => ⟨trivial, nofun⟩⟩
    have moves := step_moves n s action
    refine ⟨filled.moves moves, fun laterFew => ?_⟩
    have earlierFew := (length_le_of_moves moves).trans_lt laterFew
    exact (sound earlierFew).moves filled moves met laterFew
  have sound := invariant.2 few
  refine ⟨fun read event returned => ?_, sound.sent⟩
  have honest := sound.honest
  rw [returned] at honest
  exact honest event rfl

/-- A follower sends what is written, goes to sleep, is notified and goes on, while the writer comes
by between its loads. -/
def followedRun : List (Action Nat) :=
  writing 10 ++ writing 11 ++
    [.callReadFrom 0, .loadSlot, .loadWrite, .deliver, .loadSlot, .loadWrite,
    .park] ++ writing 12 ++ [.loadSlot, .add 13, .loadWrite, .deliver, .store, .notify]

theorem followedRun_deliversWritten :
    (run (step .capacity1) (newRing .capacity1) followedRun).DeliversWritten :=
  run_deliversWritten .capacity1 followedRun (by decide +kernel) (by decide +kernel)

/-- The writer writes the third and the fourth position between the loads of a reader. -/
def passedRun : List (Action Nat) :=
  writing 10 ++ writing 11 ++ [.callRead 2] ++ writing 12 ++ writing 13 ++ [.loadWrite]

/-- The reader returns the first event for the third position. -/
theorem passedRun_delivers_stale :
    (run (step .capacity1) (newRing .capacity1) passedRun).writes.length < 2 ^ 63 ∧
      ¬(run (step .capacity1) (newRing .capacity1) passedRun).DeliversWritten := by
  refine ⟨by decide +kernel, fun delivers => ?_⟩
  have stale : (run (step .capacity1) (newRing .capacity1) passedRun).reader =
      .returned 2 (.event 10) := by decide +kernel
  have third : (run (step .capacity1) (newRing .capacity1) passedRun).writes[2]? = some 12 := by
    decide +kernel
  cases third.symm.trans (delivers.1 2 10 stale)

end System

end Constellation.Hubble
