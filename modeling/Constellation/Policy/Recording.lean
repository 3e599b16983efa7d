/-
This file states what a round of changes records about a map state, and proves that the operations
on single entries and the loops over them keep the record. `Recorded` says that what is not added
is as it was, and what is gone is deleted. The deletion of a key whose old value was saved earlier
in the round is not recorded, so a key has to be `clear` to be deleted, or it has to be written
again by the same operation.
-/

import Constellation.Policy.Insert

namespace Constellation.Policy

open Lib Option Tracked MapState MapStateEntry ChangeState

variable {updated : StateEntry}

/-! ### What a round records -/

/-- `Get` of the source. -/
def MapState.getExported (ms : MapState) (key : Key) : Option MapStateEntry :=
  (ms.get key).map StateEntry.toMapStateEntry

namespace ChangeState

variable (changes : ChangeState) (key : Key)

def Adds : Prop := ∃ adds ∈ changes.adds, key ∈ adds
  deriving Decidable

def Deletes : Prop := ∃ deletes ∈ changes.deletes, key ∈ deletes
  deriving Decidable

def Saves : Prop := ∃ old ∈ changes.old, key ∈ old
  deriving Decidable

def IsRecording : Prop :=
  ∃ adds deletes old, changes = ⟨some adds, some deletes, some old⟩

variable {changes : ChangeState}

theorem insertOldIfNotExists_recording (adds deletes : GoSet Key) (old : GoMap Key StateEntry)
    (key : Key) (entry : StateEntry) :
    insertOldIfNotExists ⟨some adds, some deletes, some old⟩ key entry =
      if key ∈ old ∨ key ∈ adds then (⟨some adds, some deletes, some old⟩, false)
      else (⟨some adds, some deletes, some (old.insert key entry)⟩, true) := by
  by_cases stored : key ∈ old
  · simp [insertOldIfNotExists, stored]
  · simp [insertOldIfNotExists, stored, hasKey]

end ChangeState

theorem MapStateEntry.merge_self (entry : MapStateEntry) : entry.merge entry = entry := by
  unfold merge mergeAuthRequirement
  simp

theorem MapStateEntry.merge_invalid (own added : MapStateEntry) :
    (own.merge added).invalid = own.invalid := by
  unfold merge
  split
  · split <;> rfl
  · rfl

/-- Merging leaves the written part of an entry as it is if both entries agree on it, and keeps a
valid entry valid. -/
theorem mergeEntries_spec {oldEntry entry merged : StateEntry}
    (result : mergeEntries oldEntry entry = some merged) :
    (oldEntry.toMapStateEntry = entry.toMapStateEntry →
      merged.toMapStateEntry = oldEntry.toMapStateEntry) ∧
      (oldEntry.isValid = true → merged.isValid = true) := by
  unfold mergeEntries at result
  generalize PassMetas.mergeClone oldEntry.passes entry.passes = cloned at result
  dsimp only at result
  split at result
  case isTrue invalid =>
    cases result
    exact ⟨Eq.symm, fun valid => by rw [valid] at invalid; cases invalid⟩
  case isFalse _ =>
    split at result
    case isFalse _ =>
      cases result
      exact ⟨fun _ => rfl, fun valid => valid⟩
    case isTrue entryValid =>
      split at result
      case isTrue _ =>
        cases result
        refine ⟨fun same => ?_, fun valid => ?_⟩
        · rw [← same]
          exact merge_self _
        · rw [← valid]
          exact congrArg not (merge_invalid _ _)
      case isFalse _ =>
        split at result
        case isTrue _ =>
          cases result
          exact ⟨Eq.symm, fun _ => entryValid⟩
        case isFalse _ =>
          split at result
          · cases result
          · cases result
            exact ⟨fun _ => rfl, fun valid => valid⟩

/-! ### What is held and recorded of one key -/

/-- The entry of a key, whether it is recorded as added or deleted, and its old entry if that was
saved. -/
structure KeyState where
  entry : Option StateEntry
  added : Bool
  deleted : Bool
  old : Option StateEntry

namespace KeyState

variable (own : KeyState) (entry : StateEntry)

/-- The old entry was saved, or there was none. -/
def known : Bool := own.old.isSome || own.added

def save : KeyState := if own.known then own else { own with old := some entry }

theorem known_save : (own.save entry).known = true := by
  unfold save
  split
  case isTrue known => exact known
  · rfl

def update : KeyState := { own with entry := some entry }

def write : KeyState := ⟨some entry, true, false, own.old⟩

/-- Recorded if the old entry is saved with it. -/
def delete : KeyState := ⟨none, false, own.deleted || !own.known, (own.save entry).old⟩

end KeyState

namespace Tracked

def view (state : Tracked) (key : Key) : KeyState where
  entry := state.ms.get key
  added := decide (state.changes.Adds key)
  deleted := decide (state.changes.Deletes key)
  old := state.changes.old.bind fun old => old.lookup key

/-- A state records everything, and differs from an earlier one in what it holds and records of one
key only. -/
structure Changes (state later : Tracked) (key : Key) (own : KeyState) : Prop where
  recording : later.changes.IsRecording
  view_eq : ∀ other, later.view other = if other = key then own else state.view other

section

variable (ms : MapState) (adds deletes : GoSet Key) (old : GoMap Key StateEntry) (key : Key)
include ms adds deletes old key

theorem view_recording : view ⟨ms, ⟨some adds, some deletes, some old⟩⟩ key =
      ⟨ms.get key, decide (key ∈ adds), decide (key ∈ deletes), old.lookup key⟩ := by
  simp [view, ChangeState.Adds, ChangeState.Deletes]

theorem known_view : (view ⟨ms, ⟨some adds, some deletes, some old⟩⟩ key).known =
      decide (key ∈ old ∨ key ∈ adds) := by
  rw [view_recording, Bool.eq_iff_iff, KeyState.known, Bool.or_eq_true, AList.lookup_isSome]
  simp

end

variable {state : Tracked} (recording : state.changes.IsRecording) (key : Key) (entry : StateEntry)
include recording

theorem changes_update : state.Changes ⟨state.ms.updateExisting key entry, state.changes⟩ key
    ((state.view key).update entry) := by
  refine ⟨recording, fun other => ?_⟩
  rw [view, updateExisting, get_upsert]
  split
  case isTrue same =>
    rw [same]
    rfl
  · rfl

theorem changes_save : state.Changes ⟨state.ms, (state.changes.insertOldIfNotExists key entry).1⟩
    key ((state.view key).save entry) := by
  obtain ⟨ms, changes⟩ := state
  obtain ⟨adds, deletes, old, rfl⟩ := recording
  rw [insertOldIfNotExists_recording, KeyState.save, known_view]
  refine ⟨by split <;> exact ⟨_, _, _, rfl⟩, fun other => ?_⟩
  by_cases same : other = key
  · subst same
    by_cases skipped : other ∈ old ∨ other ∈ adds
    · simp [skipped]
    · simp [skipped, view_recording]
  · split <;> simp [same, view_recording]

theorem changes_write : state.Changes ⟨state.ms.upsert key entry, state.changes.recordAdd key⟩ key
    ((state.view key).write entry) := by
  obtain ⟨ms, changes⟩ := state
  obtain ⟨adds, deletes, old, rfl⟩ := recording
  refine ⟨⟨_, _, _, rfl⟩, fun other => ?_⟩
  simp only [recordAdd, map_some, view_recording, get_upsert]
  by_cases same : other = key
  · subst same
    simp [KeyState.write]
  · simp [same]

theorem changes_delete : state.Changes (state.deleteExistingWithChanges key entry) key
    ((state.view key).delete entry) := by
  obtain ⟨ms, changes⟩ := state
  obtain ⟨adds, deletes, old, rfl⟩ := recording
  unfold deleteExistingWithChanges recordDelete
  rw [insertOldIfNotExists_recording, KeyState.delete, KeyState.save, known_view]
  by_cases skipped : key ∈ old ∨ key ∈ adds
  all_goals
    simp only [skipped, if_true, decide_true, if_false, decide_false]
    refine ⟨⟨_, _, _, rfl⟩, fun other => ?_⟩
    by_cases same : other = key
    · subst same
      simp [view_recording, get_delete]
    · simp [same, view_recording, get_delete]

end Tracked

/-! ### The invariant of a round -/

structure RecordedAt (before : Option MapStateEntry) (clear exempt : Prop) (own : KeyState) :
    Prop where
  added_present : own.added → own.entry ≠ none
  deleted_absent : own.deleted → own.entry = none
  unchanged : ∀ entry, own.entry = some entry → ¬own.added → before = some entry.toMapStateEntry
  deleted : before ≠ none → own.entry = none → ¬exempt → own.deleted
  saved : before ≠ none → own.entry = none → own.old.isSome
  added_new : own.added → ¬own.old.isSome → before = none
  valid : ∀ written entry, before = some written → written.isValid = true →
    own.entry = some entry → entry.isValid = true
  cleared : clear → own.entry = none ∨ ¬own.old.isSome

/-- Within an operation, some keys are `clear`, they can be deleted without loss, and the keys that
the operation is about to write are `exempt`, their deletion need not be recorded. -/
structure Recorded (initial : MapState) (clear exempt : Key → Prop) (state : Tracked) : Prop where
  recording : state.changes.IsRecording
  added_present : ∀ key, state.changes.Adds key → state.ms.get key ≠ none
  deleted_absent : ∀ key, state.changes.Deletes key → state.ms.get key = none
  unchanged : ∀ key entry, state.ms.get key = some entry → ¬state.changes.Adds key →
    initial.getExported key = some entry.toMapStateEntry
  deleted : ∀ key, initial.getExported key ≠ none → state.ms.get key = none → ¬exempt key →
    state.changes.Deletes key
  saved : ∀ key, initial.getExported key ≠ none → state.ms.get key = none → state.changes.Saves key
  added_new : ∀ key, state.changes.Adds key → ¬state.changes.Saves key →
    initial.getExported key = none
  valid : ∀ key before entry, initial.getExported key = some before → before.isValid = true →
    state.ms.get key = some entry → entry.isValid = true
  cleared : ∀ key, clear key → state.ms.get key = none ∨ ¬state.changes.Saves key

/-- What holds between two operations, when no key is clear or exempt. -/
abbrev Settled (initial : MapState) (state : Tracked) : Prop :=
  Recorded initial (fun _ => False) (fun _ => False) state

section

variable {initial : MapState} {clear exempt : Key → Prop} {state later : Tracked} {key : Key}

theorem Tracked.entry_view : (state.view key).entry = state.ms.get key :=
  rfl

theorem Tracked.added_view : (state.view key).added ↔ state.changes.Adds key :=
  decide_eq_true_iff

theorem Tracked.deleted_view : (state.view key).deleted ↔ state.changes.Deletes key :=
  decide_eq_true_iff

theorem Tracked.saved_view : (state.view key).old.isSome ↔ state.changes.Saves key := by
  unfold ChangeState.Saves view
  cases state.changes.old with
  | none => simp
  | some old => simp [AList.lookup_isSome]

theorem recorded_iff : Recorded initial clear exempt state ↔ state.changes.IsRecording ∧
    ∀ key, RecordedAt (initial.getExported key) (clear key) (exempt key) (state.view key) := by
  constructor
  · intro recorded
    refine ⟨recorded.recording, fun key => ?_⟩
    constructor
    all_goals simp only [entry_view, added_view, deleted_view, saved_view]
    exacts [recorded.added_present key, recorded.deleted_absent key, recorded.unchanged key,
      recorded.deleted key, recorded.saved key, recorded.added_new key, recorded.valid key,
      recorded.cleared key]
  · rintro ⟨recording, each⟩
    constructor
    case recording => exact recording
    all_goals simp only [← entry_view, ← added_view, ← deleted_view, ← saved_view]
    exacts [fun key => (each key).added_present, fun key => (each key).deleted_absent,
      fun key => (each key).unchanged, fun key => (each key).deleted, fun key => (each key).saved,
      fun key => (each key).added_new, fun key => (each key).valid, fun key => (each key).cleared]

/-- A step on one key keeps the record if it keeps that of the key. -/
theorem Recorded.step {own : KeyState} (recorded : Recorded initial clear exempt state)
    (changed : state.Changes later key own)
    (keeps : RecordedAt (initial.getExported key) (clear key) (exempt key) (state.view key) →
      RecordedAt (initial.getExported key) (clear key) (exempt key) own) :
    Recorded initial clear exempt later := by
  obtain ⟨_, each⟩ := recorded_iff.mp recorded
  refine recorded_iff.mpr ⟨changed.recording, fun other => ?_⟩
  rw [changed.view_eq]
  split
  case isTrue same =>
    rw [same]
    exact keeps (each key)
  · exact each other

end

namespace RecordedAt

variable {before : Option MapStateEntry} {clear exempt : Prop} {own : KeyState} {entry : StateEntry}
  (recorded : RecordedAt before clear exempt own)
include recorded

theorem delete (spared : clear ∨ exempt) (entry : StateEntry) :
    RecordedAt before clear exempt (own.delete entry) where
  added_present := nofun
  deleted_absent _ := rfl
  unchanged := nofun
  deleted existed _ notExempt := by
    by_cases absent : own.entry = none
    · exact Bool.or_eq_true_iff.mpr (.inl (recorded.deleted existed absent notExempt))
    · have notSaved := (recorded.cleared (spared.resolve_right notExempt)).resolve_left absent
      have notAdded : ¬own.added := fun added => existed (recorded.added_new added notSaved)
      simp [KeyState.delete, KeyState.known, notSaved, notAdded]
  saved existed _ := by
    by_contra notSaved
    unfold KeyState.delete KeyState.save at notSaved
    split at notSaved
    case isTrue known =>
      exact existed (recorded.added_new ((Bool.or_eq_true_iff.mp known).resolve_left notSaved)
        notSaved)
    · exact notSaved rfl
  added_new := nofun
  valid := nofun
  cleared _ := .inl rfl

theorem update (present : own.entry = some entry)
    (same : updated.toMapStateEntry = entry.toMapStateEntry) :
    RecordedAt before clear exempt (own.update updated) where
  added_present _ := some_ne_none updated
  deleted_absent isDeleted := by
    rw [recorded.deleted_absent isDeleted] at present
    cases present
  unchanged found isFound notAdded := by
    cases isFound
    rw [same]
    exact recorded.unchanged entry present notAdded
  deleted _ := nofun
  saved _ := nofun
  added_new := recorded.added_new
  valid written found existed isValid isFound := by
    cases isFound
    rw [same]
    exact recorded.valid written entry existed isValid present
  cleared isClear := by
    have cleared := recorded.cleared isClear
    rw [present] at cleared
    exact .inr (cleared.resolve_left (some_ne_none entry))

theorem save (notClear : ¬clear) : RecordedAt before clear exempt (own.save entry) := by
  unfold KeyState.save
  split
  · exact recorded
  · exact { recorded with
      saved := fun _ _ => rfl
      added_new := fun _ => absurd rfl
      cleared := fun isClear => absurd isClear notClear }

theorem write (notClear : ¬clear) (known : own.entry = none ∨ own.known)
    (keepsValid : ∀ written, before = some written → written.isValid = true →
      entry.isValid = true) :
    RecordedAt before clear exempt (own.write entry) where
  added_present _ := some_ne_none entry
  deleted_absent := nofun
  unchanged _ _ notAdded := absurd rfl notAdded
  deleted _ := nofun
  saved _ := nofun
  added_new _ notSaved := by
    by_contra existed
    rcases known with absent | known
    · exact notSaved (recorded.saved existed absent)
    · exact existed (recorded.added_new ((Bool.or_eq_true_iff.mp known).resolve_left notSaved)
        notSaved)
  valid written _ existed valid isWritten :=
    Option.some.inj isWritten ▸ keepsValid written existed valid
  cleared isClear := absurd isClear notClear

end RecordedAt

namespace Recorded

variable {initial : MapState} {clear exempt : Key → Prop} {state : Tracked} {key : Key}
  {entry : StateEntry}

theorem start (ms : MapState) : Settled ms ⟨ms, empty⟩ := by
  refine recorded_iff.mpr ⟨⟨_, _, _, rfl⟩, fun key => ?_⟩
  have absent (existed : ms.getExported key ≠ none) : ms.get key ≠ none :=
    mt (fun absent => by rw [getExported, absent]; rfl) existed
  constructor
  case added_present | deleted_absent | added_new => exact nofun
  case unchanged =>
    intro entry present _
    rw [getExported, show ms.get key = some entry from present, map_some]
  case deleted => exact fun existed gone => absurd gone (absent existed)
  case saved => exact fun existed gone => absurd gone (absent existed)
  case valid =>
    intro written entry existed valid present
    rw [getExported, show ms.get key = some entry from present] at existed
    cases existed
    exact valid
  case cleared => exact False.elim

/-- At the start of an operation, the clear and exempt keys are chosen. -/
theorem enter (recorded : Settled initial state)
    (cleared : ∀ key, clear key → state.ms.get key = none ∨ ¬state.changes.Saves key) :
    Recorded initial clear exempt state :=
  { recorded with
    deleted := fun key before absent _ => recorded.deleted key before absent not_false
    cleared := cleared }

section

variable (recorded : Recorded initial clear exempt state)
include recorded

/-- At the end of an operation, the exempt keys have an entry. -/
theorem leave (present : ∀ key, exempt key → state.ms.get key ≠ none) :
    Settled initial state :=
  { recorded with
    deleted := fun key before absent _ =>
      recorded.deleted key before absent fun written => present key written absent
    cleared := fun _ => False.elim }

theorem deleteExisting (spared : clear key ∨ exempt key) (entry : StateEntry) :
    Recorded initial clear exempt (state.deleteExistingWithChanges key entry) :=
  recorded.step (changes_delete recorded.recording key entry) fun own =>
    own.delete spared entry

/-- Changing only the bookkeeping of an entry needs no record. -/
theorem updateExisting (present : state.ms.get key = some entry)
    (same : updated.toMapStateEntry = entry.toMapStateEntry) :
    Recorded initial clear exempt ⟨state.ms.updateExisting key updated, state.changes⟩ :=
  recorded.step (changes_update recorded.recording key updated) fun own =>
    own.update present same

/-- Writing an entry is recorded by adding its key, once the old entry was saved. -/
theorem write (notClear : ¬clear key) (known : state.ms.get key = none ∨ (state.view key).known)
    (keepsValid : ∀ before, initial.getExported key = some before → before.isValid = true →
      entry.isValid = true) :
    Recorded initial clear exempt ⟨state.ms.upsert key entry, state.changes.recordAdd key⟩ :=
  recorded.step (changes_write recorded.recording key entry) fun own =>
    own.write notClear known keepsValid

/-- Adding an entry is recorded. A key that was valid at the start of the round and has been deleted
since must get a valid entry. -/
theorem addKey (notClear : ¬clear key)
    (keepsValid : state.ms.get key = none → entry.isValid = true ∨
      ∀ before, initial.getExported key = some before → before.isValid = false) :
    Recorded initial clear exempt (state.addKeyWithChanges key entry) := by
  unfold addKeyWithChanges
  cases existing : state.ms.get key with
  | none =>
    refine recorded.write notClear (.inl existing) fun before existed valid => ?_
    refine (keepsValid existing).resolve_right fun invalid => ?_
    rw [invalid before existed] at valid
    cases valid
  | some oldEntry =>
    dsimp only
    split
    · exact recorded
    · have saves := changes_save recorded.recording key oldEntry
      have saving := recorded.step saves fun own => own.save notClear
      cases result : mergeEntries oldEntry entry with
      | none => exact saving
      | some merged =>
        obtain ⟨unchanged, valid⟩ := mergeEntries_spec result
        dsimp only
        split
        case isTrue same => exact saving.updateExisting existing (unchanged same)
        · refine saving.write notClear (.inr ?_) fun before existed beforeValid =>
            valid (recorded.valid key before oldEntry existed beforeValid existing)
          rw [saves.view_eq, if_pos rfl]
          exact KeyState.known_save _ oldEntry

end

end Recorded

/-- A later state has no entries but those of an earlier one. -/
structure Tracked.OnlyDeletes (earlier later : Tracked) : Prop where
  cluster_eq : later.ms.cluster = earlier.ms.cluster
  get_eq : ∀ key entry, later.ms.get key = some entry → earlier.ms.get key = some entry

namespace Recorded

variable {newKey : Key} {newEntry : StateEntry}

/-- Pruning an entry deletes it, or leaves what is written of it, unless it loses its verdict and
keeps a pass. -/
theorem pruneCoveredNarrowerKey_cases (later : Tracked) (visit : Key × StateEntry)
    {precedence : Nat}
    (whole : prunesVerdict later.ms.cluster visit.1 visit.2 newKey newEntry precedence =
      true → visit.2.isValid = true → ∀ pass ∈ visit.2.passMetas,
        pass.isDifferentTierOrHigherPrecedence precedence = false) :
    prunesVerdict later.ms.cluster visit.1 visit.2 newKey newEntry precedence = true ∧
        later.pruneCoveredNarrowerKey visit.1 visit.2 newKey newEntry precedence =
          later.deleteExistingWithChanges visit.1 visit.2 ∨
      later.pruneCoveredNarrowerKey visit.1 visit.2 newKey newEntry precedence = later ∨
        ∃ updated : StateEntry, updated.toMapStateEntry = visit.2.toMapStateEntry ∧
          prunedEntry later.ms.cluster visit.1 visit.2 newKey newEntry precedence = some updated ∧
          later.pruneCoveredNarrowerKey visit.1 visit.2 newKey newEntry precedence =
            ⟨later.ms.updateExisting visit.1 updated, later.changes⟩ := by
  unfold prunedEntry pruneCoveredNarrowerKey
  by_cases both : (visit.2.passMetas.all fun pass =>
      !pass.isDifferentTierOrHigherPrecedence precedence) &&
        prunesVerdict later.ms.cluster visit.1 visit.2 newKey newEntry precedence
  · exact .inl ⟨(Bool.and_eq_true_iff.mp both).2, if_pos both⟩
  · simp only [both, if_false, Bool.false_eq_true]
    split
    · refine .inr (.inr ⟨_, ?_, rfl, rfl⟩)
      split
      case isFalse _ => rfl
      case isTrue prunes =>
        have invalid : visit.2.invalid = true := by
          by_contra valid
          refine both (Bool.and_eq_true_iff.mpr ⟨List.all_eq_true.mpr fun pass member => ?_,
            prunes⟩)
          rw [whole prunes (by simp [isValid, valid]) pass member]
          rfl
        show { visit.2.toMapStateEntry with invalid := true } = visit.2.toMapStateEntry
        rw [← invalid]
    · exact .inr (.inl rfl)

variable {initial : MapState} {clear exempt : Key → Prop} {state : Tracked}
  (recorded : Recorded initial clear exempt state) {visits : List (Key × StateEntry)}

include recorded

/-- A loop whose steps delete clear and exempt keys. -/
theorem foldl_deletes {α : Type} {step : Tracked → α → Tracked} {items : List α}
    (each : ∀ later, state.OnlyDeletes later → ∀ item ∈ items, step later item = later ∨
      ∃ key entry, (clear key ∨ exempt key) ∧
        step later item = later.deleteExistingWithChanges key entry) :
    Recorded initial clear exempt (items.foldl step state) ∧
      state.OnlyDeletes (items.foldl step state) := by
  refine List.foldlRecOn (motive := fun later => Recorded initial clear exempt later ∧
    state.OnlyDeletes later) items step ⟨recorded, rfl, fun _ _ found => found⟩ ?_
  rintro later ⟨soFar, only⟩ item member
  rcases each later only item member with same | ⟨key, entry, spared, deletes⟩
  · rw [same]
    exact ⟨soFar, only⟩
  · rw [deletes]
    refine ⟨soFar.deleteExisting spared entry, ?_, fun other found present => ?_⟩
    · exact (later.deleteExistingWithChanges_cluster key entry).trans only.cluster_eq
    · rw [get_deleteExistingWithChanges] at present
      split at present
      · cases present
      · exact only.get_eq other found present

theorem deleteVisited (wanted : Key → StateEntry → Bool)
    (spared : ∀ visit ∈ visits, wanted visit.1 visit.2 = true → clear visit.1 ∨ exempt visit.1) :
    Recorded initial clear exempt (state.deleteVisited visits wanted) ∧
      state.OnlyDeletes (state.deleteVisited visits wanted) := by
  refine recorded.foldl_deletes fun later _ visit member => ?_
  dsimp only
  split
  case isTrue isWanted => exact .inr ⟨visit.1, visit.2, spared visit member isWanted, rfl⟩
  · exact .inl rfl

theorem pruneAggregated (order : IterationOrder) (loop : Nat)
    (spared : ∀ key entry, state.ms.get key = some entry →
      isDuplicate state.ms.cluster newKey newEntry key entry = true → clear key ∨ exempt key) :
    Recorded initial clear exempt (state.pruneAggregated order loop newKey newEntry) ∧
      state.OnlyDeletes (state.pruneAggregated order loop newKey newEntry) := by
  have same : Recorded initial clear exempt state ∧ state.OnlyDeletes state :=
    ⟨recorded, rfl, fun _ _ found => found⟩
  unfold Tracked.pruneAggregated
  split
  · split
    · exact same
    · refine recorded.foldl_deletes fun later only id _ => ?_
      unfold pruneAggregatedID
      split
      case isFalse _ => exact .inl rfl
      case isTrue below =>
        split
        · exact .inl rfl
        case h_2 entry present =>
          split
          case isFalse _ => exact .inl rfl
          case isTrue equivalent =>
            refine .inr ⟨_, entry, spared _ entry (only.get_eq _ entry present) ?_, rfl⟩
            rw [isDuplicate_withIdentity, ← only.cluster_eq, below, equivalent]
            rfl
  · exact same

theorem deleteKey {key : Key} (spared : clear key ∨ exempt key) :
    Recorded initial clear exempt (state.deleteKeyWithChanges key) := by
  unfold deleteKeyWithChanges
  split
  · exact recorded
  · exact recorded.deleteExisting spared _

theorem deleteId (order : IterationOrder)
    {id : NumericIdentity} (spared : ∀ key : Key, key.identity = id → clear key ∨ exempt key) :
    Recorded initial clear exempt (state.deleteIdWithChanges order id) := by
  unfold deleteIdWithChanges
  split
  · exact recorded
  · refine (recorded.foldl_deletes fun later _ lpmKey _ => ?_).1
    unfold deleteKeyWithChanges
    split
    · exact .inl rfl
    · exact .inr ⟨_, _, spared _ rfl, rfl⟩

/-- Pruning below a covering key, where no entry loses its verdict and keeps a pass. -/
theorem pruneCovered
    (listed : ∀ visit ∈ visits, state.ms.get visit.1 = some visit.2) {precedence : Nat}
    (spared : ∀ visit ∈ visits, prunesVerdict state.ms.cluster visit.1 visit.2 newKey
      newEntry precedence = true → (clear visit.1 ∨ exempt visit.1) ∧
        (visit.2.isValid = true → ∀ pass ∈ visit.2.passMetas,
          pass.isDifferentTierOrHigherPrecedence precedence = false)) :
    Recorded initial clear exempt (state.pruneCovered visits newKey newEntry precedence) := by
  have steps := state.pruneCovered_localSteps listed newKey newEntry precedence
  refine steps.foldl_induction (List.Subset.refl _) (steps.within_foldl rfl (List.nil_subset _))
    recorded ?_
  rintro later ⟨cluster, reached⟩ soFar visit member
  have result := @pruneCoveredNarrowerKey_cases newKey newEntry later visit precedence
    (by rw [cluster]; exact fun prunes => (spared visit member prunes).2)
  rw [cluster] at result
  dsimp only
  rcases result with ⟨prunes, deletes⟩ | unchanged | ⟨updated, written, pruned, updates⟩
  · rw [deletes]
    exact soFar.deleteExisting (spared visit member prunes).1 visit.2
  · rw [unchanged]
    exact soFar
  · rw [updates]
    rcases reached visit member with present | present
    · exact soFar.updateExisting (present.trans (listed visit member)) written
    · exact soFar.updateExisting (present.trans pruned) rfl

end Recorded

end Constellation.Policy
