/-
This file models the write-ahead log, `pkg/wal/wal.go`. A record is the length of its data in
eight bytes, followed by the data. After a crash the file may end within a record. The reader
fills data that is cut off with zeros, and the writer appends to whatever the file ends with.
-/

import Mathlib

namespace Constellation.Wal

open List

abbrev Bytes := List UInt8

/-- No slice has as many bytes as there are addresses. -/
structure Data where
  bytes : Bytes
  short : bytes.length < 2 ^ 48

/-- A number in bytes, the lowest first. -/
def putUint : Nat → Nat → Bytes
  | 0, _ => []
  | width + 1, n => UInt8.ofNat n :: putUint width (n / 256)

def uint (buf : Bytes) : Nat := Nat.ofDigits 256 (buf.map UInt8.toNat)

def record (e : Data) : Bytes := putUint 8 e.bytes.length ++ e.bytes

def write (events : List Data) : Bytes := events.flatMap record

/-- None if a slice is asked for that cannot be made. A read gives as many bytes as are there, and
the rest of a slice stays zero. -/
def events (file : Bytes) : Option (List Bytes) :=
  if _header : file.length < 8 then some []
  else
    let dataLen := uint (file.take 8)
    if dataLen ≥ 2 ^ 48 then none
    else
      let rest := file.drop 8
      (events (rest.drop dataLen)).map
        ((rest.take dataLen ++ replicate (dataLen - rest.length) 0) :: ·)
termination_by file.length
decreasing_by rw [length_drop, length_drop]; omega

def complete : List Data → Nat → List Data
  | [], _ => []
  | e :: rest, cut =>
    if (record e).length ≤ cut then e :: complete rest (cut - (record e).length) else []

/-- After the file was cut, the reader yields the events before the cut and all events that are
appended later, if any. -/
def Survives (written : List Data) (cut : Nat) : Prop :=
  ∀ more, events ((write written).take cut ++ write more) =
    some ((complete written cut ++ more).map Data.bytes)

def Between : List Data → Nat → Prop
  | [], _ => True
  | e :: rest, cut => cut = 0 ∨ (record e).length ≤ cut ∧ Between rest (cut - (record e).length)

theorem uint_putUint (width n : Nat) : uint (putUint width n) = n % 256 ^ width := by
  induction width generalizing n with
  | zero => exact (Nat.mod_one n).symm
  | succ width inductionHypothesis =>
    rw [pow_succ', Nat.mod_mul, ← inductionHypothesis]
    rfl

theorem events_append {buf : Bytes} (eight : buf.length = 8) (rest : Bytes) :
    events (buf ++ rest) = if uint buf ≥ 2 ^ 48 then none
      else (events (rest.drop (uint buf))).map
        ((rest.take (uint buf) ++ replicate (uint buf - rest.length) 0) :: ·) := by
  rw [events, dif_neg (by simp [eight])]
  simp only [take_left' eight, drop_left' eight]

/-- A whole header makes the reader yield as many bytes as it says, whether they are there or
not. -/
theorem exists_of_events {buf rest : Bytes} (eight : buf.length = 8) {found : List Bytes}
    (read : events (buf ++ rest) = some found) :
    ∃ first others, found = first :: others ∧ first.length = uint buf := by
  rw [events_append eight] at read
  split at read
  · cases read
  · obtain ⟨others, _, rfl⟩ := Option.map_eq_some_iff.mp read
    refine ⟨_, _, rfl, ?_⟩
    rw [length_append, length_take, length_replicate]
    omega

theorem events_record (e : Data) (rest : Bytes) :
    events (record e ++ rest) = (events rest).map (e.bytes :: ·) := by
  rw [record, append_assoc, events_append rfl, uint_putUint,
    Nat.mod_eq_of_lt (e.short.trans (by decide)), if_neg (Nat.not_le.mpr e.short), drop_left,
    take_left, length_append, Nat.sub_eq_zero_of_le (Nat.le_add_right _ _), replicate_zero,
    append_nil]

theorem events_write (written : List Data) :
    events (write written) = some (written.map Data.bytes) := by
  induction written with
  | nil => rw [events]; rfl
  | cons e rest inductionHypothesis =>
    rw [write, flatMap_cons, events_record, ← write, inductionHypothesis]
    rfl

/-- A header that is cut off reads, together with what is appended, as a large number. -/
theorem le_uint_of_torn {buf rest : Bytes} (torn : 0 < buf.length) :
    256 ≤ uint (buf ++ 1 :: rest) := by
  have high : 1 ≤ uint (1 :: rest) := Nat.le_add_right 1 _
  calc 256 = 256 ^ 1 := (pow_one 256).symm
    _ ≤ 256 ^ buf.length := Nat.pow_le_pow_right (by decide) torn
    _ ≤ 256 ^ buf.length * uint (1 :: rest) := Nat.le_mul_of_pos_right _ high
    _ ≤ uint buf + 256 ^ buf.length * uint (1 :: rest) := Nat.le_add_left _ _
    _ = uint (buf ++ 1 :: rest) := by
      rw [uint, uint, uint, map_append, Nat.ofDigits_append, length_map]

/-- A log that ends within a record: if the header is whole, then the data is filled up; else an
event that is appended is taken for the rest of the header. -/
theorem not_survives {e : Data} {rest : List Data} {cut : Nat} (some : cut ≠ 0)
    (within : cut < (record e).length) : ¬Survives (e :: rest) cut := by
  intro survives
  have torn : (write (e :: rest)).take cut = (record e).take cut :=
    take_append_of_le_length within.le
  have none : complete (e :: rest) cut = [] := if_neg (Nat.not_le.mpr within)
  rw [Survives, torn, none, record] at survives
  by_cases header : 8 ≤ cut
  · have read := survives []
    rw [take_append, take_of_length_le header, append_assoc] at read
    obtain ⟨_, _, found, _⟩ := exists_of_events rfl read
    cases found
  · have read := survives [⟨[1], by decide⟩]
    rw [take_append_of_le_length (Nat.le_of_not_le header)] at read
    have length : ((putUint 8 e.bytes.length).take cut).length = cut :=
      length_take_of_le (Nat.le_of_not_le header)
    generalize (putUint 8 e.bytes.length).take cut = buf at read length
    have split : buf ++ write [⟨[1], by decide⟩] =
        buf ++ 1 :: take (7 - cut) [0, 0, 0, 0, 0, 0, 0, 1] ++
          drop (7 - cut) [0, 0, 0, 0, 0, 0, 0, 1] := by
      rw [append_assoc, cons_append, take_append_drop]
      rfl
    rw [split] at read
    obtain ⟨_, _, found, first⟩ := exists_of_events (by simp [length]; omega) read
    cases found
    have large := first.trans_ge (le_uint_of_torn (by omega))
    exact absurd large (by decide)

/-- A log survives a cut exactly if the cut is not within a record. -/
theorem survives_iff (written : List Data) (cut : Nat) :
    Survives written cut ↔ Between written cut := by
  induction written generalizing cut with
  | nil =>
    refine iff_of_true (fun more => ?_) trivial
    rw [write, flatMap_nil, take_nil]
    exact events_write more
  | cons e rest inductionHypothesis =>
    by_cases whole : (record e).length ≤ cut
    · have step : Survives (e :: rest) cut ↔ Survives rest (cut - (record e).length) := by
        unfold Survives
        refine forall_congr' fun more => ?_
        rw [complete, if_pos whole, write, flatMap_cons, take_append, take_of_length_le whole,
          append_assoc, events_record]
        exact (Option.map_injective cons_injective).eq_iff (b := some _)
      rw [step, inductionHypothesis, Between]
      refine ⟨fun between => .inr ⟨whole, between⟩, ?_⟩
      rintro (rfl | ⟨_, between⟩)
      · cases Nat.le_zero.mp whole
      · exact between
    by_cases zero : cut = 0
    · subst zero
      refine iff_of_true (fun more => ?_) (.inl rfl)
      rw [complete, if_neg whole]
      exact events_write more
    · refine iff_of_false (not_survives zero (Nat.not_le.mp whole)) ?_
      rintro (none | ⟨fits, _⟩)
      · exact zero none
      · exact whole fits

/-- The record of one byte, cut off after its header. -/
theorem not_survives_of_lost : ¬Survives [⟨[1], by decide⟩] 8 :=
  not_survives (by decide) (by decide)

end Constellation.Wal
