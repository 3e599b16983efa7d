/-
This file proves what the slots of the ring hold: the last event that was stored for a position
with the slot's index. A position has been stored if it was counted, except that the writer may
not have stored the event it counted last.
-/

import Constellation.Hubble.Ring

namespace Constellation.Hubble

open Lib List

variable {E : Type}

/-- Nothing, or the event of the last position with the index of the slot. -/
def Slot (n : Capacity) (writes : List E) (stored idx : Nat) (content : Option E) : Prop :=
  (content = none ∧ stored ≤ idx) ∨
    ∃ position, position % n.dataLen = idx ∧ position < stored ∧ stored ≤ position + n.dataLen ∧
      content = writes[position]?

namespace System

def stored (s : System E) : Nat :=
  match s.writer with
  | .storing _ _ => s.writes.length - 1
  | _ => s.writes.length

structure Filled (n : Capacity) (s : System E) : Prop where
  write_eq : s.write = s.writes.length % 2 ^ 64
  length_eq : s.data.length = n.dataLen
  slot : ∀ idx < n.dataLen, Slot n s.writes s.stored idx (s.dataLoadAtomic idx)
  storing : ∀ writeIdx entry, s.writer = .storing writeIdx entry →
    s.writes.getLast? = some entry ∧ writeIdx = (s.writes.length - 1) % n.dataLen

theorem stored_le (s : System E) : s.stored ≤ s.writes.length ∧ s.writes.length ≤ s.stored + 1 := by
  unfold stored
  split <;> omega

theorem Filled.of_same {n : Capacity} {s later : System E} (filled : Filled n s)
    (write : later.write = s.write) (data : later.data = s.data) (writer : later.writer = s.writer)
    (writes : later.writes = s.writes) : Filled n later := by
  obtain ⟨write_eq, length_eq, slot, storing⟩ := filled
  have loads (idx : Nat) : later.dataLoadAtomic idx = s.dataLoadAtomic idx := by
    rw [dataLoadAtomic, dataLoadAtomic, data]
  have sameStored : later.stored = s.stored := by rw [stored, stored, writer, writes]
  refine ⟨?_, ?_, fun idx less => ?_, fun writeIdx entry => ?_⟩
  · rw [write, writes, write_eq]
  · rw [data, length_eq]
  · rw [loads, sameStored, writes]
    exact slot idx less
  · rw [writer, writes]
    exact storing writeIdx entry

theorem filled_newRing (n : Capacity) : Filled n (newRing n : System E) where
  write_eq := rfl
  length_eq := length_replicate
  slot idx less := by
    refine .inl ⟨?_, Nat.zero_le _⟩
    rw [dataLoadAtomic, newRing, getD_eq_getElem?_getD, getElem?_replicate, if_pos less]
    rfl
  storing writeIdx entry := nofun

variable {n : Capacity} {s : System E}

theorem before_succ (length : Nat) : before ((length % 2 ^ 64 + 1) % 2 ^ 64) = length % 2 ^ 64 := by
  unfold before
  omega

theorem mod_mod_dataLen (position : Nat) : position % 2 ^ 64 % n.dataLen = position % n.dataLen :=
  Nat.mod_mod_of_dvd _ (Dvd.intro_left _ n.dataLen_mul)

variable (filled : Filled n s)
include filled

theorem Filled.add (entry : E) (idle : s.writer = .idle) :
    Filled n { s with
        write := (s.write + 1) % 2 ^ 64
        writer := .storing (before ((s.write + 1) % 2 ^ 64) &&& n.mask) entry
        writes := s.writes ++ [entry] } := by
  have allStored : s.stored = s.writes.length := by rw [stored, idle]
  refine ⟨?_, filled.length_eq, fun idx less => ?_, fun writeIdx other same => ?_⟩
  · simp only [filled.write_eq, length_append, length_singleton]
    omega
  · have sameStored : System.stored { s with
        write := (s.write + 1) % 2 ^ 64
        writer := .storing (before ((s.write + 1) % 2 ^ 64) &&& n.mask) entry
        writes := s.writes ++ [entry] } = s.stored := by
      rw [allStored]
      simp only [stored, length_append, length_singleton, Nat.add_sub_cancel]
    rw [sameStored]
    rcases filled.slot idx less with ⟨none, few⟩ | ⟨position, isIdx, before, last, content⟩
    · exact .inl ⟨none, few⟩
    · refine .inr ⟨position, isIdx, before, last, content.trans ?_⟩
      exact (getElem?_append_left (allStored ▸ before)).symm
  · cases same
    refine ⟨getLast?_concat, ?_⟩
    rw [filled.write_eq, before_succ, n.and_mask, mod_mod_dataLen, length_append,
      length_singleton, Nat.add_sub_cancel]

theorem Filled.store {writeIdx : Nat} {entry : E} (storing : s.writer = .storing writeIdx entry) :
    Filled n { s with data := s.data.set writeIdx (some entry), writer := .notifying } := by
  obtain ⟨isLast, isIdx⟩ := filled.storing writeIdx entry storing
  have positive : 0 < s.writes.length := by
    rcases Nat.eq_zero_or_pos s.writes.length with zero | positive
    · rw [eq_nil_of_length_eq_zero zero] at isLast
      cases isLast
    · exact positive
  have stored : s.stored + 1 = s.writes.length := by
    rw [System.stored, storing]
    exact Nat.sub_add_cancel positive
  refine ⟨filled.write_eq, ?_, fun idx less => ?_, fun _ _ same => nomatch same⟩
  · rw [length_set, filled.length_eq]
  · show Slot n s.writes s.writes.length idx ((s.data.set writeIdx (some entry)).getD idx none)
    rw [getD_eq_getElem?_getD]
    by_cases here : writeIdx = idx
    · subst here
      rw [getElem?_set_self (filled.length_eq ▸ less)]
      refine .inr ⟨s.writes.length - 1, isIdx.symm, by omega, ?_, ?_⟩
      · have := n.dataLen_pos
        omega
      · rw [← getLast?_eq_getElem?, isLast]
        rfl
    · rw [getElem?_set_ne here, ← getD_eq_getElem?_getD]
      rcases filled.slot idx less with ⟨none, few⟩ | ⟨position, isPosition, before, last, content⟩
      · refine .inl ⟨none, stored ▸ lt_of_le_of_ne few fun same => here ?_⟩
        rw [isIdx, ← stored, Nat.add_sub_cancel, same, Nat.mod_eq_of_lt less]
      · refine .inr ⟨position, isPosition, by omega, ?_, content⟩
        refine stored ▸ lt_of_le_of_ne last fun same => here ?_
        rw [isIdx, ← stored, Nat.add_sub_cancel, same, Nat.add_mod_right, isPosition]

theorem Filled.notify (notifying : s.writer = .notifying) (channel : Bool) (reader : Reader E) :
    Filled n { s with notifyCh := channel, writer := .idle, reader := reader } := by
  have allStored : s.stored = s.writes.length := by rw [stored, notifying]
  refine ⟨filled.write_eq, filled.length_eq, fun idx less => ?_, nofun⟩
  show Slot n s.writes s.writes.length idx (s.dataLoadAtomic idx)
  rw [← allStored]
  exact filled.slot idx less

/-- Every step keeps the slots as they should be. The steps of the reader do not touch them. -/
theorem Filled.moves {action : Action E} {later : System E} (moves : Moves n s action later) :
    Filled n later := by
  cases moves with
  | stays => exact filled
  | add entry idle => exact filled.add entry idle
  | store writeIdx entry storing => exact filled.store storing
  | wake notifying => exact filled.notify notifying false (wake s.reader)
  | notify notifying => exact filled.notify notifying s.notifyCh s.reader
  | _ => exact filled.of_same rfl rfl rfl rfl

end System

end Constellation.Hubble
