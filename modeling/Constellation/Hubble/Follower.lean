/-
This file is about a follower of the ring: a reader that starts at the last event that was
certainly written and then sends every event as it is written. It sleeps over readable events if
the ring has fewer than two events when it starts, since its position wraps below zero, or if the
writer passes it at an empty slot. In every run without either, and in which it does not fall
behind by `2 ^ 63` events, it has sent or reported as lost all readable events whenever it sleeps.
-/

import Constellation.Hubble.Delivery

namespace Constellation.Hubble.System

open Lib List

variable {E : Type} {n : Capacity} {s later : System E}

def completed (s : System E) : Nat :=
  match s.writer with
  | .idle => s.writes.length
  | _ => s.writes.length - 1

/-- While a follower sleeps, every event that was written after it started, is older than the last
completed write and is not overwritten was sent or reported as lost. -/
def CaughtUp (n : Capacity) (s : System E) : Prop :=
  ∀ read origin, s.reader = .sleeping read → s.origin = some origin →
    ∀ position event, origin ≤ position → position + 1 < s.completed →
      s.writes.length ≤ position + n.dataLen → s.writes[position]? = some event →
        (position % 2 ^ 64, Message.event event) ∈ s.sent ∨ (position % 2 ^ 64, .lost) ∈ s.sent

/-- The position of a follower, as a number that does not wrap around. -/
def followed (s : System E) (origin : Nat) : Nat := origin - 2 + s.sent.length

/-- A follower starts with at least two events, it is not passed, and the writer does not count
another event when it is `2 ^ 63` events ahead. -/
def Followed (s : System E) (action : Action E) : Prop :=
  (action.isFollow = true → 2 ≤ s.writes.length) ∧ s.Unpassed action ∧ (action.isAdd = true →
      ∀ origin ∈ s.origin.toList, s.writes.length < s.followed origin + 2 ^ 63)

instance [DecidableEq E] (s : System E) (action : Action E) : Decidable (s.Followed action) := by
  delta Followed
  infer_instance

/-- What a follower holds between its loads: the event of its position, or its position is that of
the last event, or it is overwritten. -/
def Caught (n : Capacity) (writes : List E) (position : Nat) (event : Option E) : Prop :=
  event = writes[position]? ∨ writes.length = position + 1 ∨
    (event.isSome ∧ position + n.dataLen < writes.length)

def Sendable (writes : List E) (position : Nat) (message : Message E) : Prop :=
  message = .lost ∨ ∃ event, message = .event event ∧ writes[position]? = some event

def Follows (n : Capacity) (s : System E) (position : Nat) : Reader E → Prop
  | .starting read => read = position % 2 ^ 64
  | .loaded read event => read = position % 2 ^ 64 ∧ Caught n s.writes position event
  | .sending read message =>
    read = position % 2 ^ 64 ∧ Sendable s.writes position message ∧ position + 1 < s.writes.length
  | .parking read lastWrite => read = position % 2 ^ 64 ∧ lastWrite = position % 2 ^ 64
  | .sleeping read =>
    read = position % 2 ^ 64 ∧ s.notifyCh = true ∧
      (s.writes.length = position + 1 ∨ s.writes.length = position + 2 ∧ s.writer ≠ .idle)
  | _ => False

structure Following (n : Capacity) (s : System E) (origin : Nat) : Prop where
  behind : s.followed origin < s.writes.length
  near : s.writes.length ≤ s.followed origin + 2 ^ 63
  sent : ∀ index message, s.sent[index]? = some message →
    message.1 = (origin - 2 + index) % 2 ^ 64 ∧ Sendable s.writes (origin - 2 + index) message.2
  reader : Follows n s (s.followed origin) s.reader

/-! ### Loading and deciding -/

variable {position : Nat}

theorem Filled.caught (filled : Filled n s) (behind : position < s.writes.length) :
    Caught n s.writes position (s.dataLoadAtomic (position % 2 ^ 64 &&& n.mask)) := by
  obtain ⟨few, most⟩ := s.stored_le
  have idx : position % n.dataLen ≤ position := Nat.mod_le _ _
  rw [n.and_mask, mod_mod_dataLen]
  rcases filled.slot _ (Nat.mod_lt position n.dataLen_pos) with
    ⟨_, unwritten⟩ | ⟨other, sameIdx, written, last, content⟩
  · exact .inr (.inl (by omega))
  · rcases Nat.lt_trichotomy other position with less | rfl | more
    · have apart := add_le_of_mod_eq less sameIdx
      exact .inr (.inl (by omega))
    · exact .inl content
    · have apart := add_le_of_mod_eq more sameIdx.symm
      refine .inr (.inr ⟨?_, by omega⟩)
      rw [content, getElem?_eq_getElem (by omega)]
      rfl

variable {writes : List E} {event : Option E}

/-- The writer counts another event and does not pass the follower. -/
theorem Caught.append (caught : Caught n writes position event) (behind : position < writes.length)
    (entry : E) (unpassed : writes.length = position + 1 → event = writes.getLast?) :
    Caught n (writes ++ [entry]) position event := by
  have kept : (writes ++ [entry])[position]? = writes[position]? :=
    getElem?_append_left behind
  have length : (writes ++ [entry]).length = writes.length + 1 := length_append
  rcases caught with isEvent | last | ⟨isSome, overwritten⟩
  · exact .inl (isEvent.trans kept.symm)
  · refine .inl ?_
    rw [unpassed last, kept, getLast?_eq_getElem?, last, Nat.add_sub_cancel]
  · exact .inr (.inr ⟨isSome, by omega⟩)

theorem lag_eq {length : Nat} (behind : position < length) (near : length ≤ position + 2 ^ 63) :
    Capacity.lag (position % 2 ^ 64) (length % 2 ^ 64) = length - (position + 1) := by
  unfold Capacity.lag before
  omega

/-- A follower that waits is at the last event. -/
theorem Caught.wait (caught : Caught n writes position event) (behind : position < writes.length)
    (near : writes.length ≤ position + 2 ^ 63)
    (decision : n.readFrom (position % 2 ^ 64) event (writes.length % 2 ^ 64) = .wait) :
    writes.length = position + 1 := by
  cases event with
  | none =>
    rcases caught with isEvent | last | ⟨isSome, _⟩
    · rw [getElem?_eq_getElem behind] at isEvent
      cases isEvent
    · exact last
    · cases isSome
  | some event =>
    have distance := lag_eq behind near
    rw [n.readFrom_some (Nat.mod_lt _ (Nat.two_pow_pos 64)) (by omega)] at decision
    split at decision
    case isTrue zero => omega
    case isFalse => split at decision <;> cases decision

variable {message : Message E}

/-- A follower that sends is behind the last event, and sends the event of its position or that it
is lost. -/
theorem Caught.send (caught : Caught n writes position event) (behind : position < writes.length)
    (near : writes.length ≤ position + 2 ^ 63)
    (decision : n.readFrom (position % 2 ^ 64) event (writes.length % 2 ^ 64) = .send message) :
    Sendable writes position message ∧ position + 1 < writes.length := by
  cases event with
  | none => cases decision
  | some event =>
    have distance := lag_eq behind near
    rw [n.readFrom_some (Nat.mod_lt _ (Nat.two_pow_pos 64)) (by omega)] at decision
    split at decision
    case isTrue => cases decision
    case isFalse ahead =>
      refine ⟨?_, by omega⟩
      split at decision
      case isTrue readable =>
        cases decision
        rcases caught with isEvent | last | ⟨_, overwritten⟩
        · exact .inr ⟨event, rfl, isEvent.symm⟩
        · omega
        · omega
      case isFalse =>
        cases decision
        exact .inl rfl

theorem Sendable.append (sendable : Sendable writes position message) (entry : E) :
    Sendable (writes ++ [entry]) position message := by
  rcases sendable with lost | ⟨event, isEvent, written⟩
  · exact .inl lost
  · exact .inr ⟨event, isEvent, getElem?_append_of_some entry written⟩

/-! ### The invariant -/

theorem following_follow (filled : Filled n s) (two : 2 ≤ s.writes.length) :
    Following n { s with
      reader := .starting s.lastWriteParallel, sent := [], origin := some s.writes.length }
      s.writes.length where
  behind := show s.writes.length - 2 + 0 < s.writes.length by omega
  near := show s.writes.length ≤ s.writes.length - 2 + 0 + 2 ^ 63 by omega
  sent index message none := by simp at none
  reader := by
    show (s.write + (2 ^ 64 - 2)) % 2 ^ 64 = (s.writes.length - 2 + 0) % 2 ^ 64
    rw [filled.write_eq]
    omega

variable {origin : Nat}

section

variable (following : Following n s origin)
include following

theorem Following.add (filled : Filled n s) (entry : E) (idle : s.writer = .idle)
    (unpassed : ∀ loaded ∈ s.reader.between.toList,
      loaded.1 = before s.write → loaded.2 = s.writes.getLast?)
    (ahead : s.writes.length < s.followed origin + 2 ^ 63) :
    Following n { s with
        write := (s.write + 1) % 2 ^ 64
        writer := .storing (before ((s.write + 1) % 2 ^ 64) &&& n.mask) entry
        writes := s.writes ++ [entry] } origin := by
  obtain ⟨behind, near, sent, reader⟩ := following
  have length : (s.writes ++ [entry]).length = s.writes.length + 1 := length_append
  refine ⟨?_, ?_, fun index message member => ?_, ?_⟩
  · show s.followed origin < (s.writes ++ [entry]).length
    omega
  · show (s.writes ++ [entry]).length ≤ s.followed origin + 2 ^ 63
    omega
  · obtain ⟨position, sendable⟩ := sent index message member
    exact ⟨position, sendable.append entry⟩
  · show Follows n _ (s.followed origin) s.reader
    rw [filled.write_eq] at unpassed
    generalize s.reader = state at reader unpassed
    cases state with
    | starting | parking => exact reader
    | loaded read event =>
      refine ⟨reader.1, reader.2.append behind entry fun last => ?_⟩
      refine unpassed (read, event) (Option.mem_toList.mpr rfl) ?_
      rw [reader.1, last, before]
      omega
    | sending read message =>
      exact ⟨reader.1, reader.2.1.append entry, reader.2.2.trans (length ▸ Nat.lt_succ_self _)⟩
    | sleeping read =>
      obtain ⟨isPosition, channel, last | ⟨_, busy⟩⟩ := reader
      · refine ⟨isPosition, channel, .inr ⟨?_, by rintro ⟨⟩⟩⟩
        show (s.writes ++ [entry]).length = _
        omega
      · exact absurd idle busy
    | idle | readLoaded | returned => exact reader.elim

theorem Following.read {reader : Reader E} {channel : Bool}
    (follows : Follows n { s with reader := reader, notifyCh := channel } (s.followed origin)
      reader) : Following n { s with reader := reader, notifyCh := channel } origin :=
  ⟨following.behind, following.near, following.sent, follows⟩

/-- The channel of a follower takes what it sends. -/
theorem Following.deliver {read : Nat} (sending : s.reader = .sending read message) :
    Following n
      { s with reader := .starting ((read + 1) % 2 ^ 64), sent := s.sent ++ [(read, message)] }
      origin := by
  obtain ⟨behind, near, sent, reader⟩ := following
  rw [sending] at reader
  obtain ⟨isPosition, sendable, ahead⟩ := reader
  have position : System.followed { s with
      reader := .starting ((read + 1) % 2 ^ 64), sent := s.sent ++ [(read, message)] } origin =
      s.followed origin + 1 := by
    simp only [followed, length_append, length_singleton, Nat.add_assoc]
  refine ⟨?_, ?_, fun index sentMessage member => ?_, ?_⟩
  · rw [position]
    exact ahead
  · rw [position]
    exact near.trans (by omega)
  · rcases Nat.lt_or_ge index s.sent.length with less | ge
    · rw [getElem?_append_left less] at member
      exact sent index sentMessage member
    · rw [getElem?_append_right ge] at member
      have bound : index - s.sent.length < 1 := (List.getElem?_eq_some_iff.mp member).1
      obtain rfl : index = s.sent.length := by omega
      rw [Nat.sub_self] at member
      cases member
      exact ⟨isPosition, sendable⟩
  · rw [position]
    show (read + 1) % 2 ^ 64 = (s.followed origin + 1) % 2 ^ 64
    omega

end

/-- Every step that meets the condition keeps the invariant of followers. -/
theorem following_moves (filled : Filled n s)
    (following : ∀ origin, s.origin = some origin → Following n s origin) {action : Action E}
    (moves : Moves n s action later) (met : s.Followed action) :
    ∀ origin, later.origin = some origin → Following n later origin := by
  intro origin isOrigin
  cases moves with
  | stays => exact following origin isOrigin
  | add entry idle =>
    exact (following origin isOrigin).add filled entry idle (met.2.1 rfl idle)
      (met.2.2 rfl origin (Option.mem_toList.mpr isOrigin))
  | store writeIdx entry storing =>
    obtain ⟨behind, near, sent, reader⟩ := following origin isOrigin
    refine ⟨behind, near, sent, ?_⟩
    show Follows n _ (s.followed origin) s.reader
    generalize s.reader = state at reader
    cases state with
    | sleeping read =>
      obtain ⟨isPosition, channel, last | ⟨more, _⟩⟩ := reader
      · exact ⟨isPosition, channel, .inl last⟩
      · exact ⟨isPosition, channel, .inr ⟨more, nofun⟩⟩
    | _ => exact reader
  | wake notifying channel =>
    obtain ⟨behind, near, sent, reader⟩ := following origin isOrigin
    refine ⟨behind, near, sent, ?_⟩
    cases isReader : s.reader with
    | sleeping read =>
      rw [isReader] at reader
      exact reader.1
    | _ =>
      rw [isReader] at reader
      exact reader
  | notify notifying channel =>
    obtain ⟨behind, near, sent, reader⟩ := following origin isOrigin
    refine ⟨behind, near, sent, ?_⟩
    cases isReader : s.reader with
    | sleeping read =>
      rw [isReader] at reader
      cases channel.symm.trans reader.2.1
    | _ =>
      rw [isReader] at reader
      exact reader
  | callRead read free =>
    have reader := (following origin isOrigin).reader
    cases isReader : s.reader <;> rw [isReader] at free reader <;>
      first | exact free.elim | exact reader.elim
  | callReadFrom read free => cases isOrigin
  | follow free =>
    cases isOrigin
    exact following_follow filled (met.1 rfl)
  | loadSlot read starting =>
    have known := following origin isOrigin
    have reader := known.reader
    rw [starting] at reader
    refine known.read ⟨reader, ?_⟩
    rw [show read = s.followed origin % 2 ^ 64 from reader]
    exact filled.caught known.behind
  | answer read event loaded =>
    have reader := (following origin isOrigin).reader
    rw [loaded] at reader
    exact reader.elim
  | send read event message loaded decision =>
    have known := following origin isOrigin
    have reader := known.reader
    rw [loaded] at reader
    rw [reader.1, filled.write_eq] at decision
    exact known.read ⟨reader.1, reader.2.send known.behind known.near decision⟩
  | wait read event loaded decision =>
    have known := following origin isOrigin
    have reader := known.reader
    rw [loaded] at reader
    rw [reader.1, filled.write_eq] at decision
    have last := reader.2.wait known.behind known.near decision
    refine known.read ⟨reader.1, ?_⟩
    rw [filled.write_eq, last, before]
    omega
  | retry read lastWrite parking =>
    have known := following origin isOrigin
    have reader := known.reader
    rw [parking] at reader
    exact known.read reader.1
  | sleep read lastWrite parking idle same =>
    have known := following origin isOrigin
    have reader := known.reader
    rw [parking] at reader
    refine known.read ⟨reader.1, rfl, .inl ?_⟩
    have behind := known.behind
    have near := known.near
    show s.writes.length = s.followed origin + 1
    rw [reader.2, filled.write_eq, before] at same
    omega
  | deliver read message sending => exact (following origin isOrigin).deliver sending
  | cancel => cases isOrigin

/-- In every run in which followers start with at least two events, are not passed and do not fall
behind too far, a follower that sleeps has sent or reported as lost every readable event. -/
theorem run_caughtUp (n : Capacity) (actions : List (Action E))
    (followed : Meets (step n) Followed (newRing n) actions) :
    (run (step n) (newRing n : System E) actions).CaughtUp n := by
  have invariant : Filled n (run (step n) (newRing n : System E) actions) ∧
      ∀ origin, (run (step n) (newRing n : System E) actions).origin = some origin →
        Following n (run (step n) (newRing n) actions) origin := by
    refine followed.invariant
      (fun s => Filled n s ∧ ∀ origin, s.origin = some origin → Following n s origin)
      (fun s action ⟨filled, following⟩ met => ?_) ⟨filled_newRing n, nofun⟩
    have moves := step_moves n s action
    exact ⟨filled.moves moves, following_moves filled following moves met⟩
  generalize run (step n) (newRing n : System E) actions = s at invariant
  intro read origin sleeping isOrigin position event after older _ written
  obtain ⟨behind, _, sent, reader⟩ := invariant.2 origin isOrigin
  rw [sleeping] at reader
  have passed : position < s.followed origin := by
    obtain ⟨_, _, last | ⟨more, busy⟩⟩ := reader
    · unfold completed at older
      split at older <;> omega
    · unfold completed at older
      split at older
      · contradiction
      · omega
  unfold System.followed at passed
  have index : position - (origin - 2) < s.sent.length := by omega
  obtain ⟨isPosition, sendable⟩ := sent _ _ (getElem?_eq_getElem index)
  rw [show origin - 2 + (position - (origin - 2)) = position by omega] at isPosition sendable
  have member := getElem_mem index
  generalize s.sent[position - (origin - 2)] = message at isPosition sendable member
  obtain ⟨sentAt, content⟩ := message
  subst isPosition
  rcases sendable with rfl | ⟨other, rfl, isOther⟩
  · exact .inr member
  · cases written.symm.trans isOther
    exact .inl member

/-- A ring with two events: a follower starts, sends both, sleeps, is notified and goes on. -/
def startedRun : List (Action Nat) :=
  writing 10 ++ writing 11 ++ [.follow, .loadSlot, .loadWrite, .deliver, .loadSlot, .loadWrite,
    .park] ++ writing 12 ++ [.loadSlot, .loadWrite, .deliver, .loadSlot, .loadWrite, .park]

theorem startedRun_caughtUp : (run (step .capacity3) (newRing .capacity3) startedRun).CaughtUp
    .capacity3 :=
  run_caughtUp .capacity3 startedRun (by decide +kernel)

def emptyRun : List (Action Nat) :=
  [.follow, .loadSlot, .loadWrite, .park] ++ writing 10 ++ [.loadSlot, .loadWrite, .park] ++
    writing 11 ++ [.loadSlot, .loadWrite, .park]

/-- The follower sleeps, although the first event is readable. -/
theorem emptyRun_sleeps : ¬(run (step .capacity3) (newRing .capacity3) emptyRun).CaughtUp
    .capacity3 := by
  intro caughtUp
  have sleeping : (run (step .capacity3) (newRing .capacity3) emptyRun).reader =
      .sleeping (2 ^ 64 - 2) := by decide +kernel
  have found := caughtUp _ 0 sleeping (by decide +kernel) 0 10 (by decide +kernel)
    (by decide +kernel) (by decide +kernel) (by decide +kernel)
  exact found.elim not_mem_nil not_mem_nil

end Constellation.Hubble.System
