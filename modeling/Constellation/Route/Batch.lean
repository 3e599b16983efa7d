/-
This file models how the batched operations of the route reconciler,
`pkg/datapath/linux/route/reconciler/reconciler.go`, report failures. The log names a record that
it could not write by its position among the events. A deletion leaves out the entries that the
kernel refused, but still reads the position as one among all entries, so that a failure is
reported to an earlier one.
-/

import Mathlib

namespace Constellation.Route

open List Function

structure DesiredRoute (κ : Type) where
  ownerlessKey : κ
  selected : Bool

variable {κ Err : Type}

def needing (batch : List (DesiredRoute κ)) (needed : DesiredRoute κ → Bool) : List Nat :=
  (range batch.length).filter fun i => batch[i]?.any needed

/-- The errors of writing events. The log is open and can be flushed. -/
def write (record : Nat → Option Err) (events : List Nat) : List (Nat × Err) :=
  events.zipIdx.filterMap fun event => (record event.1).map (event.2, ·)

def markFailed (entries : List Nat) (results : Nat → Option Err) (errors : List (Nat × Err)) :
    Nat → Option Err :=
  errors.foldl (fun results e =>
    entries[e.1]?.elim results fun entry => update results entry (some e.2)) results

/-- The routes of the entries without an error are replaced. -/
def updateBatch (batch : List (DesiredRoute κ)) (record routeReplace : Nat → Option Err) :
    Nat → Option Err :=
  let selected := needing batch (·.selected)
  let results := markFailed selected (fun _ => none) (write record selected)
  fun entry => if entry ∈ selected then (results entry).or (routeReplace entry) else results entry

def unwanted [DecidableEq κ] (tbl : List (DesiredRoute κ)) (object : DesiredRoute κ) : Bool :=
  object.ownerlessKey ∉ tbl.map (·.ownerlessKey)

/-- The error of a deletion, none if the route did not exist. -/
def deletion (isESRCH : Err → Bool) (routeDel : Nat → Option Err) (entry : Nat) : Option Err :=
  (routeDel entry).filter (!isESRCH ·)

def deleteBatch [DecidableEq κ] (tbl batch : List (DesiredRoute κ)) (isESRCH : Err → Bool)
    (record routeDel : Nat → Option Err) : Nat → Option Err :=
  let toDelete := needing batch (unwanted tbl)
  let results := fun entry => if entry ∈ toDelete then deletion isESRCH routeDel entry else none
  markFailed toDelete results (write record (toDelete.filter fun entry => (results entry).isNone))

/-- An entry has a result exactly if it needed work and its own call or its own record failed. -/
def Reports (entries : List Nat) (record handle results : Nat → Option Err) : Prop :=
  ∀ entry, (results entry).isSome ↔
    entry ∈ entries ∧ ((handle entry).isSome ∨ (record entry).isSome)

variable {record : Nat → Option Err}

/-! ### The marked entries -/

/-- The entry is at the position of an event whose record failed. -/
def Marked (record : Nat → Option Err) (entries events : List Nat) (entry : Nat) : Prop :=
  ∃ i : Nat, ∃ event, events[i]? = some event ∧ (record event).isSome ∧ entries[i]? = some entry

theorem markFailed_isSome (entries events : List Nat) (results : Nat → Option Err) (entry : Nat) :
    (markFailed entries results (write record events) entry).isSome ↔
      (results entry).isSome ∨ Marked record entries events entry := by
  have folded (errors : List (Nat × Err)) : (markFailed entries results errors entry).isSome ↔
      (results entry).isSome ∨ ∃ e ∈ errors, entries[e.1]? = some entry := by
    induction errors generalizing results with
    | nil => simp [markFailed]
    | cons e rest inductionHypothesis =>
      refine (inductionHypothesis _).trans ?_
      rw [exists_mem_cons_iff, ← or_assoc]
      refine or_congr_left ?_
      dsimp only
      cases entries[e.1]? with
      | none => simp
      | some other =>
        by_cases same : entry = other
        · simp [same]
        · simp [same, Ne.symm same]
  rw [folded]
  refine or_congr_right ⟨?_, ?_⟩
  · rintro ⟨e, member, there⟩
    obtain ⟨⟨event, i⟩, listed, failed⟩ := mem_filterMap.mp member
    obtain ⟨err, failed, rfl⟩ := Option.map_eq_some_iff.mp failed
    exact ⟨i, event, mk_mem_zipIdx_iff_getElem?.mp listed, by simp_all, there⟩
  · rintro ⟨i, event, listed, failed, there⟩
    obtain ⟨err, failed⟩ := Option.isSome_iff_exists.mp failed
    exact ⟨(i, err), mem_filterMap.mpr
      ⟨(event, i), mk_mem_zipIdx_iff_getElem?.mpr listed, by rw [failed]; rfl⟩, there⟩

variable {entries events : List Nat} {entry last : Nat}

theorem Marked.mem (marked : Marked record entries events entry) : entry ∈ entries :=
  have ⟨_, _, _, _, there⟩ := marked
  mem_of_getElem? there

theorem marked_self :
    Marked record entries entries entry ↔ entry ∈ entries ∧ (record entry).isSome := by
  refine ⟨fun marked => ⟨marked.mem, ?_⟩, fun ⟨member, failed⟩ => ?_⟩
  · obtain ⟨i, event, listed, failed, there⟩ := marked
    cases listed.symm.trans there
    exact failed
  · obtain ⟨i, listed⟩ := mem_iff_getElem?.mp member
    exact ⟨i, entry, listed, failed, listed⟩

theorem marked_concat (short : events.length ≤ entries.length) :
    Marked record (entries ++ [last]) events entry ↔ Marked record entries events entry := by
  refine exists_congr fun i => exists_congr fun event => and_congr_right fun listed => ?_
  have inside : i < events.length := (List.getElem?_eq_some_iff.mp listed).1
  rw [getElem?_append_left (Nat.lt_of_lt_of_le inside short)]

theorem marked_concat_event (written : record last = none) :
    Marked record entries (events ++ [last]) entry ↔ Marked record entries events entry := by
  refine exists_congr fun i => exists_congr fun event => ?_
  rw [getElem?_append]
  split
  · rfl
  case isFalse behind =>
    rw [getElem?_eq_none (Nat.not_lt.mp behind)]
    refine iff_of_false (fun ⟨listed, failed, _⟩ => ?_) nofun
    rw [mem_singleton.mp (mem_of_getElem? listed), written] at failed
    cases failed

/-- The failures among the removed entries are reported to them exactly if none of them comes after
a refused entry. -/
theorem marked_iff {removed : Nat → Bool} (nodup : entries.Nodup) :
    (∀ entry ∈ entries, removed entry = true →
      (Marked record entries (entries.filter removed) entry ↔ (record entry).isSome)) ↔
      entries.Pairwise fun entry later =>
        removed entry = false → removed later = true → record later = none := by
  -- The last entry is marked if no entry was refused, and is behind all events otherwise.
  induction entries using List.reverseRecOn with
  | nil => simp
  | append_singleton entries last inductionHypothesis =>
    obtain ⟨nodup, _, apart⟩ := nodup_append.mp nodup
    have fresh : last ∉ entries := fun member => apart last member last (.head _) rfl
    cases kernel : removed last with
    | false =>
      rw [pairwise_append, ← inductionHypothesis nodup, forall_mem_append]
      simp [kernel, marked_concat (length_filter_le ..)]
    | true =>
      by_cases refused : ∃ entry ∈ entries, ¬removed entry
      · have short := length_filter_lt_length_iff_exists.mpr refused
        have marks (entry : Nat) : Marked record (entries ++ [last])
            ((entries ++ [last]).filter removed) entry ↔
              Marked record entries (entries.filter removed ++ [last]) entry := by
          rw [filter_append, filter_cons_of_pos kernel]
          exact marked_concat (by rw [length_append]; exact short)
        rw [pairwise_append, ← inductionHypothesis nodup, forall_mem_append]
        simp only [marks, mem_singleton, forall_eq, kernel, true_imp_iff, pairwise_singleton,
          true_and, iff_false_intro (mt Marked.mem fresh), false_iff, Option.not_isSome_iff_eq_none]
        obtain ⟨entry, member, refused⟩ := refused
        have last_iff : (∀ entry ∈ entries, removed entry = false → record last = none) ↔
            record last = none :=
          ⟨fun written => written entry member (eq_false_of_ne_true refused), fun w _ _ _ => w⟩
        rw [last_iff]
        refine and_congr_left fun written => ?_
        simp only [marked_concat_event written]
      · have all : ∀ entry ∈ entries ++ [last], removed entry = true := by
          simpa [kernel, or_imp, forall_and] using refused
        rw [filter_eq_self.mpr all]
        refine iff_of_true (fun entry member _ => marked_self.trans (and_iff_right member)) ?_
        refine pairwise_of_forall_mem_list fun entry member _ _ refused => ?_
        rw [all entry member] at refused
        cases refused

/-- The results of an update are always right. Those of a deletion are right exactly if no entry
that the kernel removed and whose record failed comes after an entry that the kernel refused. -/
theorem batches_report_iff [DecidableEq κ] (tbl batch : List (DesiredRoute κ))
    (isESRCH : Err → Bool) (record routeReplace routeDel : Nat → Option Err) :
    Reports (needing batch (·.selected)) record routeReplace
        (updateBatch batch record routeReplace) ∧
      (Reports (needing batch (unwanted tbl)) record (deletion isESRCH routeDel)
          (deleteBatch tbl batch isESRCH record routeDel) ↔
        (needing batch (unwanted tbl)).Pairwise fun entry later =>
          (deletion isESRCH routeDel entry).isNone = false →
            (deletion isESRCH routeDel later).isNone = true → record later = none) := by
  constructor
  · intro entry
    unfold updateBatch
    split
    case isTrue member => simp [markFailed_isSome, marked_self, member, or_comm]
    case isFalse absent => simp [markFailed_isSome, marked_self, absent]
  · have nodup : (needing batch (unwanted tbl)).Nodup := nodup_range.filter _
    rw [← marked_iff nodup, Reports]
    unfold deleteBatch
    generalize needing batch (unwanted tbl) = toDelete
    generalize deletion isESRCH routeDel = handle
    have events : (toDelete.filter fun entry =>
        (if entry ∈ toDelete then handle entry else none).isNone) =
          toDelete.filter fun entry => (handle entry).isNone :=
      filter_congr fun entry member => by rw [if_pos member]
    refine forall_congr' fun entry => ?_
    rw [events, markFailed_isSome]
    by_cases member : entry ∈ toDelete
    · cases handle entry <;> simp [member]
    · simp [member, mt Marked.mem member]

/-- The kernel refuses to remove the first of two routes, and the record of the second one cannot be
written: its failure is reported to the first one. -/
theorem second_failure_lost :
    let batch := [⟨0, true⟩, ⟨1, true⟩]
    let record := fun entry => if entry = 1 then some "wal" else none
    let routeDel := fun entry => if entry = 0 then some "netlink" else none
    ¬Reports (needing batch (unwanted [])) record (deletion (fun _ => false) routeDel)
      (deleteBatch [] batch (fun _ => false) record routeDel) := by
  intro batch record routeDel reports
  exact absurd (reports 1) (by decide)

end Constellation.Route
