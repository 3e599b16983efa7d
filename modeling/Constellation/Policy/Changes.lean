/-
This file models the operations by which entries enter and leave a map state while the changes are
recorded for the datapath: the keys to add to the policy map, the keys to delete from it, and the
old values of changed entries. What an operation does to the map state does not depend on what is
recorded.
-/

import Constellation.Lib.LocalSteps
import Constellation.Policy.MapState

namespace Constellation.Policy

open Lib MapState

structure ChangeState where
  adds : Option (GoSet Key)
  deletes : Option (GoSet Key)
  old : Option (GoMap Key StateEntry)

def ChangeState.disabled : ChangeState := ⟨none, none, none⟩

/-- A change state that records everything and has recorded nothing yet. -/
def ChangeState.empty : ChangeState := ⟨some ∅, some ∅, some ∅⟩

def hasKey (keys : Option (GoSet Key)) (key : Key) : Bool :=
  decide (∃ present ∈ keys, key ∈ present)

namespace ChangeState

/-- Not if one was saved before or the key was added in this round. Returns whether the entry was
saved. -/
def insertOldIfNotExists (changes : ChangeState) (key : Key) (entry : StateEntry) :
    ChangeState × Bool :=
  match changes.old with
  | none => (changes, false)
  | some old =>
    if key ∈ old then (changes, false)
    else if hasKey changes.adds key then (changes, false)
    else ({ changes with old := some (old.insert key entry) }, true)

/-- An add overrides an earlier delete. -/
def recordAdd (changes : ChangeState) (key : Key) : ChangeState :=
  match changes.adds with
  | none => changes
  | some adds =>
    { changes with
      adds := some (adds.insert key ())
      deletes := changes.deletes.map fun deletes => deletes.erase key }

/-- Recorded with the old value only; an earlier add is dropped. -/
def recordDelete (changes : ChangeState) (key : Key) (entry : StateEntry) : ChangeState :=
  let (saved, inserted) := changes.insertOldIfNotExists key entry
  { saved with
    adds := saved.adds.map fun adds => adds.erase key
    deletes := if inserted then saved.deletes.map fun deletes => deletes.insert key ()
      else saved.deletes }

end ChangeState

structure Tracked where
  ms : MapState
  changes : ChangeState

/-- Entries of one priority level are merged, otherwise the higher one is taken; an invalid entry
only contributes its pass metadata. Nothing if the existing entry is kept as it is. -/
def mergeEntries (oldEntry entry : StateEntry) : Option StateEntry :=
  let (passes, passUpdated) := PassMetas.mergeClone oldEntry.passes entry.passes
  if !oldEntry.isValid then some { entry with passes := passes }
  else if entry.isValid then
    if Precedence.proxyPortPrecedenceMayDiffer oldEntry.precedence entry.precedence then
      some
        { toMapStateEntry := oldEntry.toMapStateEntry.merge entry.toMapStateEntry
          passes := passes
          derivedFromRules := oldEntry.derivedFromRules.merge entry.derivedFromRules }
    else if oldEntry.precedence < entry.precedence then some { entry with passes := passes }
    else if !passUpdated then none
    else some { oldEntry with passes := passes }
  else some { oldEntry with passes := passes }

namespace Tracked

section

variable (state : Tracked)

def addKeyWithChanges (key : Key) (entry : StateEntry) : Tracked :=
  match state.ms.get key with
  | none => ⟨state.ms.upsert key entry, state.changes.recordAdd key⟩
  | some oldEntry =>
    if entry.equal oldEntry then state
    else
      let changes := (state.changes.insertOldIfNotExists key oldEntry).1
      match mergeEntries oldEntry entry with
      | none => ⟨state.ms, changes⟩
      | some merged =>
        ⟨state.ms.updateExisting key merged,
          if oldEntry.toMapStateEntry = entry.toMapStateEntry then changes
          else changes.recordAdd key⟩

/-- The entry must be the given one. -/
def deleteExistingWithChanges (key : Key) (entry : StateEntry) : Tracked :=
  ⟨state.ms.delete key, state.changes.recordDelete key entry⟩

def deleteKeyWithChanges (key : Key) : Tracked :=
  match state.ms.get key with
  | none => state
  | some entry => state.deleteExistingWithChanges key entry

/-- Deletes all entries of an identity, by the index of identities. -/
def deleteIdWithChanges (order : IterationOrder) (state : Tracked) (id : NumericIdentity) :
    Tracked :=
  match state.ms.byId.bind fun index => index.lookup id with
  | none => state
  | some lpmKeys =>
    (order.visit 0 lpmKeys.keys).foldl
      (fun state lpmKey => state.deleteKeyWithChanges ⟨lpmKey, id⟩) state

/-- The entry is invalid, of lower precedence, a deny of equal precedence under another key, or a
duplicate of the entry of the aggregate on the same level. -/
def prunesVerdict (cluster : ClusterInfo) (visitedKey : Key) (visited : StateEntry) (key : Key)
    (entry : StateEntry) (precedence : Nat) : Bool :=
  !visited.isValid || (decide (visited.precedence < precedence) ||
      (visited.isDeny && visited.precedence == precedence && visitedKey != key)) ||
    (key.lpmKey == visitedKey.lpmKey &&
      aggregates cluster key.identity visitedKey.identity && visited.equivalent entry)

/-- Besides the verdict, pass metadata of the same tier goes if it does not exceed the
precedence. -/
def pruneCoveredNarrowerKey (visitedKey : Key) (visited : StateEntry)
    (key : Key) (entry : StateEntry) (precedence : Nat) : Tracked :=
  let deletePassMeta :=
    visited.passMetas.all fun pass => !pass.isDifferentTierOrHigherPrecedence precedence
  let deletePassEntry :=
    visited.passMetas.any fun pass => !pass.isDifferentTierOrHigherPrecedence precedence
  let deleteEntry := prunesVerdict state.ms.cluster visitedKey visited key entry precedence
  if deletePassMeta && deleteEntry then state.deleteExistingWithChanges visitedKey visited
  else if deletePassMeta || deletePassEntry || deleteEntry then
    let passes :=
      if deletePassMeta then none
      else if deletePassEntry then some (PassMetas.delete visited.passMetas precedence)
      else visited.passes
    let kept := { visited with passes := passes }
    ⟨state.ms.updateExisting visitedKey
      (if deleteEntry then { kept with toMapStateEntry := kept.invalidate } else kept),
      state.changes⟩
  else state

end

/-! ### What the operations make of the entries -/

def addedEntry (existing : Option StateEntry) (entry : StateEntry) : StateEntry :=
  match existing with
  | none => entry
  | some oldEntry =>
    if entry.equal oldEntry then oldEntry else (mergeEntries oldEntry entry).getD oldEntry

section

variable (state : Tracked) (key : Key) (entry : StateEntry)
include state key entry

theorem get_addKeyWithChanges (other : Key) :
    (state.addKeyWithChanges key entry).ms.get other =
      if other = key then some (addedEntry (state.ms.get key) entry) else state.ms.get other := by
  unfold addKeyWithChanges addedEntry
  cases existing : state.ms.get key with
  | none => exact get_upsert _ _ _ _
  | some oldEntry =>
    have unchanged : state.ms.get other =
        if other = key then some oldEntry else state.ms.get other := by
      split
      case isTrue same => rw [same, existing]
      · rfl
    by_cases equal : entry.equal oldEntry = true
    · simp only [equal, if_true]
      exact unchanged
    · simp only [equal, if_false, Bool.false_eq_true]
      cases mergeEntries oldEntry entry with
      | none => exact unchanged
      | some merged => exact get_upsert _ _ _ _

@[simp]
theorem addKeyWithChanges_cluster :
    (state.addKeyWithChanges key entry).ms.cluster = state.ms.cluster := by
  unfold addKeyWithChanges
  split
  · exact upsert_cluster _ _ _
  · split
    · rfl
    · split
      · rfl
      · exact upsert_cluster _ _ _

theorem get_deleteExistingWithChanges (other : Key) :
    (state.deleteExistingWithChanges key entry).ms.get other =
      if other = key then none else state.ms.get other :=
  get_delete _ _ _

@[simp]
theorem deleteExistingWithChanges_cluster :
    (state.deleteExistingWithChanges key entry).ms.cluster = state.ms.cluster :=
  delete_cluster _ _

end

def prunedEntry (cluster : ClusterInfo) (visitedKey : Key) (visited : StateEntry) (key : Key)
    (entry : StateEntry) (precedence : Nat) : Option StateEntry :=
  let deletePassMeta :=
    visited.passMetas.all fun pass => !pass.isDifferentTierOrHigherPrecedence precedence
  let deletePassEntry :=
    visited.passMetas.any fun pass => !pass.isDifferentTierOrHigherPrecedence precedence
  let deleteEntry := prunesVerdict cluster visitedKey visited key entry precedence
  if deletePassMeta && deleteEntry then none
  else
    let passes :=
      if deletePassMeta then none
      else if deletePassEntry then some (PassMetas.delete visited.passMetas precedence)
      else visited.passes
    let kept := { visited with passes := passes }
    some (if deleteEntry then { kept with toMapStateEntry := kept.invalidate } else kept)

theorem get_pruneCoveredNarrowerKey_of_ne (state : Tracked) {visitedKey : Key}
    (visited : StateEntry) (key : Key) (entry : StateEntry) (precedence : Nat) {other : Key}
    (differ : other ≠ visitedKey) :
    (state.pruneCoveredNarrowerKey visitedKey visited key entry precedence).ms.get other =
      state.ms.get other := by
  unfold pruneCoveredNarrowerKey
  dsimp only
  split
  · rw [get_deleteExistingWithChanges, if_neg differ]
  · split
    · exact (get_upsert _ _ _ _).trans (if_neg differ)
    · rfl

section

variable (state : Tracked) (visitedKey : Key) (visited : StateEntry) (key : Key)
  (entry : StateEntry) (precedence : Nat)
include state visitedKey visited key entry precedence

theorem get_pruneCoveredNarrowerKey
    (present : state.ms.get visitedKey = some visited ∨ state.ms.get visitedKey =
      prunedEntry state.ms.cluster visitedKey visited key entry precedence) :
    (state.pruneCoveredNarrowerKey visitedKey visited key entry precedence).ms.get visitedKey =
      prunedEntry state.ms.cluster visitedKey visited key entry precedence := by
  unfold pruneCoveredNarrowerKey
  unfold prunedEntry at present ⊢
  dsimp only at present ⊢
  split
  case isTrue whole =>
    rw [get_deleteExistingWithChanges, if_pos rfl]
  case isFalse part =>
    split
    · exact (get_upsert _ _ _ _).trans (if_pos rfl)
    case isFalse untouched =>
      simp only [Bool.or_eq_true, not_or, Bool.not_eq_true] at untouched
      simp only [untouched, Bool.false_eq_true, if_false] at present ⊢
      exact present.elim id id

@[simp]
theorem pruneCoveredNarrowerKey_cluster :
    (state.pruneCoveredNarrowerKey visitedKey visited key entry precedence).ms.cluster =
      state.ms.cluster := by
  unfold pruneCoveredNarrowerKey
  dsimp only
  split
  · exact deleteExistingWithChanges_cluster _ _ _
  · split
    · exact upsert_cluster _ _ _
    · rfl

end

def pruneCovered (state : Tracked) (visits : List (Key × StateEntry)) (key : Key)
    (entry : StateEntry) (precedence : Nat) : Tracked :=
  visits.foldl (fun state (visitedKey, visited) =>
      state.pruneCoveredNarrowerKey visitedKey visited key entry precedence) state

variable {visits : List (Key × StateEntry)}

section

variable (state : Tracked) (listed : ∀ visit ∈ visits, state.ms.get visit.1 = some visit.2)
  (key : Key) (entry : StateEntry) (precedence : Nat)
include state listed key entry precedence

/-- The pruning loop works on each visited entry by itself. -/
theorem pruneCovered_localSteps :
    LocalSteps (fun state => state.ms.get) (fun later => later.ms.cluster = state.ms.cluster)
      Prod.fst
      (fun visit => prunedEntry state.ms.cluster visit.1 visit.2 key entry precedence)
      (fun state (visitedKey, visited) =>
        state.pruneCoveredNarrowerKey visitedKey visited key entry precedence)
      state visits where
  keeps later cluster _ _ := (pruneCoveredNarrowerKey_cluster ..).trans cluster
  elsewhere later _ _ _ _ differ := get_pruneCoveredNarrowerKey_of_ne later _ key entry _ differ
  there later cluster visit member reached := by
    rw [listed visit member] at reached
    rw [← cluster] at reached ⊢
    exact get_pruneCoveredNarrowerKey later visit.1 visit.2 key entry precedence reached
  unique first firstMember second secondMember same := by
    have entries : first.2 = second.2 := by
      have found := listed first firstMember
      rw [same, listed second secondMember] at found
      exact (Option.some.inj found).symm
    rw [same, entries]

@[simp]
theorem pruneCovered_cluster :
    (state.pruneCovered visits key entry precedence).ms.cluster = state.ms.cluster :=
  (state.pruneCovered_localSteps listed key entry precedence).keep_foldl rfl

end

/-- Pruning the entries below a key prunes each entry the key covers, and no other. -/
theorem get_pruneCovered (state : Tracked) (key : Key) (listed : ∀ visit, visit ∈ visits ↔
      state.ms.get visit.1 = some visit.2 ∧ key.Covers state.ms.cluster visit.1)
    (entry : StateEntry) (precedence : Nat) (other : Key) :
    (state.pruneCovered visits key entry precedence).ms.get other =
      if key.Covers state.ms.cluster other then
        (state.ms.get other).bind fun visited =>
          prunedEntry state.ms.cluster other visited key entry precedence
      else state.ms.get other := by
  have steps := state.pruneCovered_localSteps (fun visit member => ((listed visit).mp member).1)
    key entry precedence
  by_cases covers : key.Covers state.ms.cluster other
  · rw [if_pos covers]
    cases found : state.ms.get other with
    | none =>
      refine (steps.read_foldl_of_not_mem rfl fun visit member same => ?_).trans found
      have present := ((listed visit).mp member).1
      rw [same, found] at present
      cases present
    | some visited =>
      exact steps.read_foldl_of_mem rfl ((listed (other, visited)).mpr ⟨found, covers⟩)
  · rw [if_neg covers]
    refine steps.read_foldl_of_not_mem rfl fun visit member same => covers ?_
    rw [← same]
    exact ((listed visit).mp member).2

end Tracked

end Constellation.Policy
