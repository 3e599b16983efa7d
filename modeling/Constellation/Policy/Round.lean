/-
This file relates the changes recorded in one round to the change of the map state, and applies
them to the policy map of the datapath. The record is not always complete: the deletion of a key
that was changed earlier in the round is not recorded, nor is a change in place of an entry that
loses its verdict but keeps a pass, or takes over a proxy port or an authentication type. The
condition `Records` on an operation excludes these, and along every round that meets it the record
is exact.
-/

import Constellation.Lib.Run
import Constellation.Policy.Recording

namespace Constellation.Policy

open Lib AList Tracked ChangeState MapState StateEntry

/-! ### Applying recorded changes to the policy map -/

/-- The policy map of an endpoint, by the keys of the map state. -/
abbrev MapStateMap := GoMap Key MapStateEntry

def MapStateMap.Realizes (policyMap : MapStateMap) (ms : MapState) : Prop :=
  ∀ key, policyMap.lookup key = ms.getExported key

/-- The desired policy does not fit into the policy map and the endpoint is locked down, or it comes
out of a lockdown, or a call on the map failed. -/
inductive ApplyError
  | policyEntryMaxExceeded
  | comingOutOfLockdown
  | updateFailed
  deriving DecidableEq, Repr

/-- The order in which keys are visited, the size of the realized policy, if there is one, the size
of the policy map, the keys for which a call on the map fails, and whether the endpoint has to be
locked down if its policy does not fit, or is so. -/
structure ApplyContext where
  order : IterationOrder
  realizedLen : Option Nat
  maxEntries : Nat
  fails : Key → Bool
  enableEndpointLockdownOnPolicyOverflow : Bool
  lockdown : Bool

namespace ApplyContext

variable (context : ApplyContext)

/-- Also fails for a new key if the map is full. -/
def addPolicyKey (policyMap : MapStateMap) (key : Key) (entry : MapStateEntry) :
    MapStateMap × Bool :=
  if context.fails key = true ∨ key ∉ policyMap ∧ context.maxEntries ≤ policyMap.keys.length then
    (policyMap, false)
  else (policyMap.insert key entry, true)

/-- A key that is not in the map is no error. -/
def deletePolicyKey (policyMap : MapStateMap) (key : Key) : MapStateMap × Bool :=
  if context.fails key = true ∧ key ∈ policyMap then (policyMap, false)
  else (policyMap.erase key, true)

/-- Counts the errors of a loop over keys. -/
def countErrors (call : MapStateMap → Key → MapStateMap × Bool) (state : MapStateMap × Nat)
    (key : Key) : MapStateMap × Nat :=
  ((call state.1 key).1, if (call state.1 key).2 then state.2 else state.2 + 1)

/-- A key without an entry is skipped with a warning. -/
def addPolicyKeys (loop : Nat) (desired : MapState) (adds : GoSet Key)
    (state : MapStateMap × Nat) : MapStateMap × Nat :=
  (context.order.visit loop adds.keys).foldl (countErrors fun policyMap key =>
      match desired.getExported key with
      | none => (policyMap, true)
      | some entry => context.addPolicyKey policyMap key entry)
    state

/-- Keys that were added as well are not deleted. -/
def deletePolicyKeys (loop : Nat) (deletes adds : GoSet Key) (state : MapStateMap × Nat) :
    MapStateMap × Nat :=
  (context.order.visit loop deletes.keys).foldl (countErrors fun policyMap key =>
      if key ∈ adds then (policyMap, true) else context.deletePolicyKey policyMap key)
    state

/-- Entries are added before others are deleted, unless the realized policy and the added keys
together exceed the size of the map. -/
def updatePolicyMap (desired : MapState) (adds deletes : GoSet Key) (policyMap : MapStateMap) :
    MapStateMap × Nat :=
  if context.realizedLen.all fun len => len + adds.keys.length ≤ context.maxEntries then
    context.deletePolicyKeys 1 deletes adds (context.addPolicyKeys 0 desired adds (policyMap, 0))
  else context.addPolicyKeys 1 desired adds (context.deletePolicyKeys 0 deletes adds (policyMap, 0))

/-- The part that concerns the policy map. After an error the map is as good as unknown. -/
def applyPolicyMapChangesLocked (desired : Tracked) (policyMap : MapStateMap) :
    Except ApplyError MapStateMap :=
  if context.enableEndpointLockdownOnPolicyOverflow = true ∧
      context.maxEntries < desired.ms.entries.keys.length then .error .policyEntryMaxExceeded
  else if context.lockdown then .error .comingOutOfLockdown
  else
    let (policyMap, errors) := context.updatePolicyMap desired.ms (desired.changes.adds.getD ∅)
      (desired.changes.deletes.getD ∅) policyMap
    if 0 < errors then .error .updateFailed else .ok policyMap

/-- The endpoint is not locked down and will not be, no call on the map fails, and the map has room
for all added keys. -/
structure Unhindered (desired : Tracked) (policyMap : MapStateMap) : Prop where
  fits : context.enableEndpointLockdownOnPolicyOverflow = true →
    desired.ms.entries.keys.length ≤ context.maxEntries
  released : context.lockdown = false
  serves : ∀ key, context.fails key = false
  room : policyMap.keys.length + (desired.changes.adds.getD ∅).keys.length ≤ context.maxEntries

/-! #### Loops without an error -/

section Loop

variable {context} {call : MapStateMap → Key → MapStateMap × Bool} {visits : List Key}
  {state : MapStateMap × Nat}

/-- A loop that counts no error has changed the map by all its visits. -/
theorem foldl_countErrors {change : MapStateMap → Key → MapStateMap}
    (changes : ∀ policyMap key, (call policyMap key).2 = true →
      (call policyMap key).1 = change policyMap key)
    (flawless : (visits.foldl (countErrors call) state).2 = 0) :
    state.2 = 0 ∧ (visits.foldl (countErrors call) state).1 =
      visits.foldl change state.1 := by
  induction visits generalizing state with
  | nil => exact ⟨flawless, rfl⟩
  | cons key rest inductionHypothesis =>
    obtain ⟨none, same⟩ := inductionHypothesis flawless
    cases done : (call state.1 key).2 with
    | false => simp [countErrors, done] at none
    | true =>
      rw [countErrors, done, if_pos rfl] at none
      refine ⟨none, same.trans ?_⟩
      rw [countErrors, changes state.1 key done]
      rfl

/-- A loop counts no error if each visit succeeds as long as there is room, and leaves room for the
visits after it. -/
theorem foldl_countErrors_of_room (room : Nat → MapStateMap → Prop)
    (succeeds : ∀ count policyMap key, room (count + 1) policyMap →
      (call policyMap key).2 = true ∧ room count (call policyMap key).1)
    (enough : room visits.length state.1) :
    (visits.foldl (countErrors call) state).2 = state.2 ∧
      room 0 (visits.foldl (countErrors call) state).1 := by
  induction visits generalizing state with
  | nil => exact ⟨rfl, enough⟩
  | cons key rest inductionHypothesis =>
    obtain ⟨done, left⟩ := succeeds _ state.1 key enough
    rw [List.foldl_cons, countErrors, done, if_pos rfl]
    exact inductionHypothesis left

variable {policyMap : MapStateMap} {key : Key} {entry : MapStateEntry}

theorem addPolicyKey_fst (done : (context.addPolicyKey policyMap key entry).2 = true) :
    (context.addPolicyKey policyMap key entry).1 = policyMap.insert key entry := by
  unfold addPolicyKey at done ⊢
  split
  case isTrue refused =>
    rw [if_pos refused] at done
    cases done
  · rfl

theorem deletePolicyKey_fst (done : (context.deletePolicyKey policyMap key).2 = true) :
    (context.deletePolicyKey policyMap key).1 = policyMap.erase key := by
  unfold deletePolicyKey at done ⊢
  split
  case isTrue refused =>
    rw [if_pos refused] at done
    cases done
  · rfl

theorem lookup_addPolicyKeys {loop : Nat} {desired : MapState} {adds : GoSet Key}
    (flawless : (context.addPolicyKeys loop desired adds state).2 = 0) :
    state.2 = 0 ∧ ∀ key, (context.addPolicyKeys loop desired adds state).1.lookup key =
      if key ∈ adds then (desired.getExported key).or (state.1.lookup key)
      else state.1.lookup key := by
  have changes (policyMap : MapStateMap) (key : Key) (done : (match desired.getExported key with
      | none => (policyMap, true)
      | some entry => context.addPolicyKey policyMap key entry).2 = true) :
      (match desired.getExported key with
        | none => (policyMap, true)
        | some entry => context.addPolicyKey policyMap key entry).1 =
          (desired.getExported key).elim policyMap (policyMap.insert key) := by
    cases exported : desired.getExported key with
    | none => rfl
    | some entry =>
      rw [exported] at done
      exact addPolicyKey_fst done
  obtain ⟨none, same⟩ := foldl_countErrors changes flawless
  refine ⟨none, fun key => ?_⟩
  rw [addPolicyKeys, same]
  simp only [mem_keys, ← context.order.mem_visit loop adds.keys]
  generalize state.1 = policyMap
  induction context.order.visit loop adds.keys generalizing policyMap with
  | nil => simp
  | cons visit rest inductionHypothesis =>
    rw [List.foldl_cons, inductionHypothesis]
    by_cases same : key = visit
    · subst same
      cases exported : desired.getExported key <;> simp
    · cases exported : desired.getExported visit <;> simp [same, lookup_insert_ne]

theorem lookup_deletePolicyKeys {loop : Nat} {deletes adds : GoSet Key}
    (flawless : (context.deletePolicyKeys loop deletes adds state).2 = 0) :
    state.2 = 0 ∧ ∀ key,
      (context.deletePolicyKeys loop deletes adds state).1.lookup key =
        if key ∈ deletes ∧ key ∉ adds then none else state.1.lookup key := by
  have changes (policyMap : MapStateMap) (key : Key) (done : (if key ∈ adds then (policyMap, true)
      else context.deletePolicyKey policyMap key).2 = true) :
      (if key ∈ adds then (policyMap, true) else context.deletePolicyKey policyMap key).1 =
        if key ∈ adds then policyMap else policyMap.erase key := by
    split
    · rfl
    case isFalse notAdded =>
      rw [if_neg notAdded] at done
      exact deletePolicyKey_fst done
  obtain ⟨none, same⟩ := foldl_countErrors changes flawless
  refine ⟨none, fun key => ?_⟩
  rw [deletePolicyKeys, same, GoMap.lookup_foldl_erase]
  simp only [IterationOrder.mem_visit, ← mem_keys]

/-- Where no call fails, adding keys that there is room for counts no error. -/
theorem addPolicyKeys_snd {loop : Nat} {desired : MapState} {adds : GoSet Key}
    (serves : ∀ key, context.fails key = false)
    (room : state.1.keys.length + adds.keys.length ≤ context.maxEntries) :
    (context.addPolicyKeys loop desired adds state).2 = state.2 := by
  have visits := (context.order.visit_perm loop adds.keys).length_eq
  refine (foldl_countErrors_of_room (fun count policyMap =>
    policyMap.keys.length + count ≤ context.maxEntries) ?_ (visits ▸ room)).1
  intro count policyMap key room
  split
  · exact ⟨rfl, Nat.le_of_succ_le room⟩
  case h_2 entry _ =>
    have fits : ¬(context.fails key = true ∨
        key ∉ policyMap ∧ context.maxEntries ≤ policyMap.keys.length) := by
      simp [serves key]
      omega
    rw [addPolicyKey, if_neg fits]
    refine ⟨rfl, ?_⟩
    have grown := (policyMap.keys).length_erase_le (a := key)
    rw [keys_insert, List.length_cons]
    omega

theorem deletePolicyKeys_snd {loop : Nat} {deletes adds : GoSet Key}
    (serves : ∀ key, context.fails key = false) :
    (context.deletePolicyKeys loop deletes adds state).2 = state.2 ∧
      (context.deletePolicyKeys loop deletes adds state).1.keys.length ≤
        state.1.keys.length := by
  refine foldl_countErrors_of_room (fun _ later => later.keys.length ≤ state.1.keys.length) ?_
    le_rfl
  intro count later key fewer
  split
  · exact ⟨rfl, fewer⟩
  · rw [deletePolicyKey, if_neg (by simp [serves key])]
    refine ⟨rfl, le_trans ?_ fewer⟩
    rw [keys_erase]
    exact List.length_erase_le

end Loop

variable {desired : Tracked} {policyMap later : MapStateMap}

/-- What changes that are applied without an error make of the policy map. -/
theorem lookup_applyPolicyMapChangesLocked
    (applied : context.applyPolicyMapChangesLocked desired policyMap = .ok later) (key : Key) :
    later.lookup key = if key ∈ desired.changes.adds.getD ∅ then
        (desired.ms.getExported key).or (policyMap.lookup key)
      else if key ∈ desired.changes.deletes.getD ∅ then none else policyMap.lookup key := by
  unfold applyPolicyMapChangesLocked at applied
  split at applied
  · cases applied
  split at applied
  · cases applied
  dsimp only at applied
  split at applied
  · cases applied
  case isFalse flawless =>
    cases applied
    replace flawless := Nat.eq_zero_of_not_pos flawless
    unfold updatePolicyMap at flawless ⊢
    split at flawless
    case isTrue first =>
      obtain ⟨added, lookup⟩ := lookup_deletePolicyKeys flawless
      rw [if_pos first, lookup, (lookup_addPolicyKeys added).2]
      split_ifs <;> simp_all
    case isFalse first =>
      obtain ⟨deleted, lookup⟩ := lookup_addPolicyKeys flawless
      rw [if_neg first, lookup, (lookup_deletePolicyKeys deleted).2]
      split_ifs <;> simp_all

theorem exists_applyPolicyMapChangesLocked (unhindered : context.Unhindered desired policyMap) :
    ∃ later, context.applyPolicyMapChangesLocked desired policyMap = .ok later := by
  obtain ⟨fits, released, serves, room⟩ := unhindered
  have flawless : (context.updatePolicyMap desired.ms (desired.changes.adds.getD ∅)
      (desired.changes.deletes.getD ∅) policyMap).2 = 0 := by
    unfold updatePolicyMap
    split
    · exact (deletePolicyKeys_snd serves).1.trans (addPolicyKeys_snd serves room)
    · obtain ⟨none, fewer⟩ := @deletePolicyKeys_snd context (policyMap, 0) 0
        (desired.changes.deletes.getD ∅) (desired.changes.adds.getD ∅) serves
      exact (addPolicyKeys_snd serves (Nat.le_trans (Nat.add_le_add_right fewer _) room)).trans none
  unfold applyPolicyMapChangesLocked
  rw [if_neg fun overflow => absurd (fits overflow.1) (not_le.mpr overflow.2), released,
    if_neg Bool.false_ne_true]
  dsimp only
  rw [flawless]
  exact ⟨_, rfl⟩

end ApplyContext

/-! ### The operations of a round -/

inductive Operation
  | insert (order : IterationOrder) (tierMaxPrecedence : Nat) (newKey : Key)
      (newEntry : StateEntry) (features : PolicyFeatures)
  | deleteKey (key : Key)
  | deleteId (order : IterationOrder) (id : NumericIdentity)

def Tracked.perform (state : Tracked) : Operation → Tracked
  | .insert order tierMaxPrecedence newKey newEntry features =>
    state.insertWithChanges order tierMaxPrecedence newKey newEntry features
  | .deleteKey key => state.deleteKeyWithChanges key
  | .deleteId order id => state.deleteIdWithChanges order id

/-- That of its pass where pass rules are in use, and otherwise its own. -/
def StateEntry.pruningPrecedence (entry : StateEntry) (features : PolicyFeatures) : Nat :=
  match features.passRules, entry.passes with
  | true, some [newPass] => newPass.precedence
  | _, _ => entry.precedence

/-- One has the broader port and protocol, and the identities are the same or in one aggregate. -/
def Key.Related (cluster : ClusterInfo) (key other : Key) : Prop :=
  (key.lpmKey.IsAncestor other.lpmKey ∨ other.lpmKey.IsAncestor key.lpmKey) ∧
    (other.identity = key.identity ∨ other.identity = aggregateFor cluster key.identity ∨
      aggregateFor cluster other.identity = key.identity)
  deriving Decidable

namespace Tracked

section Condition

variable (state : Tracked) (newKey : Key) (newEntry : StateEntry) (features : PolicyFeatures)

/-- What is written for the new entry where authentication types are propagated. -/
def derivedEntry : Option StateEntry :=
  deriveFromCovering newKey newEntry.authRequirement.isExplicit
    (state.ms.coveringKeysWithSameID newKey) newEntry false

/-- An entry of the new entry's identity that is lower than what is written for the new entry. -/
def OutrankedByDerived (key : Key) (entry : StateEntry) : Prop :=
  features.passRules = false ∧ features.authRules = true ∧ newEntry.isDeny = false ∧
    key.identity = newKey.identity ∧
      ∃ derived ∈ state.derivedEntry newKey newEntry, entry.precedence < derived.precedence
  deriving Decidable

/-- An entry whose verdict goes when the new entry is inserted. -/
def Displaces (key : Key) (entry : StateEntry) : Prop :=
  newKey.Covers state.ms.cluster key ∧ (prunesVerdict state.ms.cluster key entry newKey newEntry
    (newEntry.pruningPrecedence features) = true ∨
      state.OutrankedByDerived newKey newEntry features key entry)
  deriving Decidable

/-- No other key that was changed earlier in the round is displaced. -/
def SparesChanged : Prop :=
  ∀ key ∈ state.ms.entries.keys, ∀ entry ∈ state.ms.get key,
    state.Displaces newKey newEntry features key entry → key ≠ newKey → ¬state.changes.Saves key
  deriving Decidable

/-- No displaced entry keeps a pass. -/
def DisplacesWhole : Prop :=
  features.passRules = true → ∀ key ∈ state.ms.entries.keys, ∀ entry ∈ state.ms.get key,
    state.Displaces newKey newEntry features key entry → entry.isValid = true →
      ∀ pass ∈ entry.passMetas,
        pass.isDifferentTierOrHigherPrecedence (newEntry.pruningPrecedence features) = false
  deriving Decidable

/-- An entry without a verdict does not take the place of one with a verdict. -/
def KeepsVerdict : Prop :=
  newEntry.isValid = true ∨ (newKey ∈ state.ms.entries ∨ ¬state.changes.Saves newKey) ∧
      ∀ entry ∈ state.ms.get newKey, entry.isValid = true →
        ¬state.Displaces newKey newEntry features newKey entry
  deriving Decidable

/-- No related entry has a pass of a higher tier that elevates the new entry. -/
def Unelevated (tierMaxPrecedence : Nat) : Prop :=
  features.passRules = true → newEntry.passes = none →
    ∀ key ∈ state.ms.entries.keys, ∀ entry ∈ state.ms.get key,
      newKey.Related state.ms.cluster key → ∀ pass ∈ entry.passMetas,
        pass.tierMinPrecedence ≤ newEntry.precedence ∧ pass.precedence ≤ tierMaxPrecedence
  deriving Decidable

/-- An entry below that is lower than what is written states no type, and another one is not given
the type that the new entry states. -/
def OverridesNothing : Prop :=
  features.authRules = true → features.passRules = false → newEntry.isDeny = false →
    ∀ derived ∈ state.derivedEntry newKey newEntry,
      ∀ key ∈ state.ms.entries.keys, ∀ entry ∈ state.ms.get key,
        newKey.lpmKey.IsAncestor key.lpmKey ∧ key.identity = newKey.identity →
          NotOverridden newKey derived newEntry.authRequirement.isExplicit key entry
  deriving Decidable

end Condition

/-- Nothing that was changed earlier in the round is deleted, and no entry is changed in place. -/
def Records (state : Tracked) : Operation → Prop
  | .insert _ tierMaxPrecedence newKey newEntry features =>
    state.SparesChanged newKey newEntry features ∧ state.DisplacesWhole newKey newEntry features ∧
      state.KeepsVerdict newKey newEntry features ∧
      state.Unelevated newKey newEntry features tierMaxPrecedence ∧
      state.OverridesNothing newKey newEntry features
  | .deleteKey key => key ∈ state.ms.entries → ¬state.changes.Saves key
  | .deleteId _ id =>
    ∀ key ∈ state.ms.entries.keys, key.identity = id → ¬state.changes.Saves key

instance (state : Tracked) (operation : Operation) : Decidable (state.Records operation) := by
  cases operation <;> delta Records <;> infer_instance

end Tracked

/-! ### Every operation keeps the record -/

/-- The keys that an insertion deletes, the inserted key apart. -/
def Tracked.Drops (state : Tracked) (newKey : Key) (newEntry : StateEntry)
    (features : PolicyFeatures) (key : Key) : Prop :=
  key ≠ newKey ∧ ∃ entry, state.ms.get key = some entry ∧
    state.Displaces newKey newEntry features key entry

namespace Recorded

variable {initial : MapState} {state later : Tracked} {newKey : Key} {newEntry : StateEntry}
  {features : PolicyFeatures} (recorded : Settled initial state)

include recorded in
theorem enterInsert (spares : state.SparesChanged newKey newEntry features) (exempt : Key → Prop) :
    Recorded initial (state.Drops newKey newEntry features) exempt state := by
  refine recorded.enter fun key drops => .inr ?_
  obtain ⟨differ, entry, present, displaces⟩ := drops
  exact spares key ((GoMap.mem_of_lookup present)) entry present displaces differ

variable {key : Key} {entry : StateEntry}

/-- A displaced key is dropped or written anew. -/
theorem drops_or_eq (present : state.ms.get key = some entry)
    (displaces : state.Displaces newKey newEntry features key entry) :
    state.Drops newKey newEntry features key ∨ key = newKey := by
  by_cases same : key = newKey
  · exact .inr same
  · exact .inl ⟨same, entry, present, displaces⟩

include recorded in
/-- The last part of an insertion, which adds the entry. What was under the key is still there, or
it was displaced. -/
theorem addNew (keeps : state.KeepsVerdict newKey newEntry features)
    (pruned : Recorded initial (state.Drops newKey newEntry features) (· = newKey) later)
    (lost : ∀ entry, state.ms.get newKey = some entry → later.ms.get newKey = none →
      state.Displaces newKey newEntry features newKey entry)
    {added : StateEntry} (sameValid : added.isValid = newEntry.isValid) :
    Recorded initial (state.Drops newKey newEntry features) (· = newKey)
      (later.addKeyWithChanges newKey added) := by
  refine pruned.addKey (fun drops => drops.1 rfl) fun absent => ?_
  rcases keeps with valid | ⟨known, notDisplaced⟩
  · exact .inl (sameValid.trans valid)
  · refine .inr fun before existed => ?_
    rw [← Bool.not_eq_true]
    intro beforeValid
    cases found : state.ms.get newKey with
    | none =>
      have saved := recorded.saved newKey (by rw [existed]; simp) found
      rcases known with present | notSaved
      · obtain ⟨entry, present⟩ := mem_entries_iff.mp present
        rw [found] at present
        cases present
      · exact notSaved saved
    | some entry =>
      exact notDisplaced entry found
        (recorded.valid newKey before entry existed beforeValid found) (lost entry found absent)

theorem leaveInsert
    (recorded : Recorded initial (state.Drops newKey newEntry features) (· = newKey) later)
    (present : later.ms.get newKey ≠ none) :
    Settled initial later :=
  recorded.leave fun _ same => same ▸ present

theorem get_addKeyWithChanges_ne_none (later : Tracked) (key : Key) (entry : StateEntry) :
    (later.addKeyWithChanges key entry).ms.get key ≠ none := by
  rw [get_addKeyWithChanges, if_pos rfl]
  exact Option.some_ne_none _

variable {visits : List (Key × StateEntry)}

theorem pruningPrecedence_of_no_passRules (noPassRules : features.passRules = false) :
    newEntry.pruningPrecedence features = newEntry.precedence := by
  rw [pruningPrecedence, noPassRules]

theorem drops_of_isDuplicate (present : state.ms.get key = some entry)
    (duplicate : isDuplicate state.ms.cluster newKey newEntry key entry = true) :
    state.Drops newKey newEntry features key := by
  refine ⟨?_, entry, present, (covers_of_isDuplicate duplicate).1, .inl ?_⟩
  · rintro rfl
    rw [not_isDuplicate rfl] at duplicate
    cases duplicate
  · simp only [isDuplicate, Bool.and_eq_true, decide_eq_true_eq] at duplicate
    simp [prunesVerdict, duplicate]

/-- Without pass rules, a covered entry of lower precedence is displaced, and so is one of equal
precedence below a deny. -/
theorem displaces_of_outranked (noPassRules : features.passRules = false)
    (covers : newKey.Covers state.ms.cluster key)
    (outranked : outranked newKey newEntry key entry = true) :
    state.Displaces newKey newEntry features key entry := by
  refine ⟨covers, .inl ?_⟩
  rw [pruningPrecedence_of_no_passRules noPassRules]
  simp only [Tracked.outranked, Bool.or_eq_true, Bool.and_eq_true, decide_eq_true_eq,
    beq_iff_eq] at outranked
  rcases outranked with lower | ⟨⟨deny, same⟩, differ⟩
  · simp [prunesVerdict, lower]
  · have denied : entry.isDeny = true := by
      rw [MapStateEntry.isDeny, same]
      exact deny
    simp [prunesVerdict, denied, same, differ]

theorem isValid_of_deriveFromCovering {explicit derived : Bool} {derivedEntry : StateEntry}
    (result : deriveFromCovering newKey explicit visits entry derived = some derivedEntry) :
    derivedEntry.isValid = entry.isValid := by
  induction visits generalizing entry derived with
  | nil =>
    cases result
    rfl
  | cons visit rest inductionHypothesis =>
    unfold deriveFromCovering at result
    split at result
    · split at result
      · cases result
      · cases result
        rfl
    · split at result
      · have tail := inductionHypothesis result
        exact tail
      · exact inductionHypothesis result

section

include recorded

variable (spares : state.SparesChanged newKey newEntry features)
  (keeps : state.KeepsVerdict newKey newEntry features)
include spares keeps

/-- Pruning under the inserted key and adding the entry, where pass rules are in use. -/
theorem pruneThenAdd
    (whole : state.DisplacesWhole newKey newEntry features) (passRules : features.passRules = true)
    (listed : ∀ visit, visit ∈ visits ↔
      state.ms.get visit.1 = some visit.2 ∧ newKey.Covers state.ms.cluster visit.1) :
    Settled initial ((state.pruneCovered visits newKey newEntry
        (newEntry.pruningPrecedence features)).addKeyWithChanges newKey newEntry) := by
  refine (recorded.addNew keeps ?_ ?_ rfl).leaveInsert (get_addKeyWithChanges_ne_none _ _ _)
  · refine (recorded.enterInsert spares _).pruneCovered
      (fun visit member => ((listed visit).mp member).1) fun visit member prunes => ?_
    obtain ⟨present, covers⟩ := (listed visit).mp member
    exact ⟨drops_or_eq present ⟨covers, .inl prunes⟩, whole passRules visit.1
      ((GoMap.mem_of_lookup present)) visit.2 present ⟨covers, .inl prunes⟩⟩
  · intro entry present absent
    refine ⟨Key.Covers.refl newKey, .inl ?_⟩
    rw [state.get_pruneCovered newKey listed, if_pos (Key.Covers.refl newKey), present,
      Option.bind_some] at absent
    unfold prunedEntry at absent
    dsimp only at absent
    split at absent
    case isTrue both => exact (Bool.and_eq_true_iff.mp both).2
    · cases absent

theorem insertWithPasses {tierMaxPrecedence : Nat} (order : IterationOrder)
    (whole : state.DisplacesWhole newKey newEntry features)
    (unelevated : state.Unelevated newKey newEntry features tierMaxPrecedence)
    (passRules : features.passRules = true) :
    Settled initial (state.insertWithPasses order tierMaxPrecedence newKey newEntry) := by
  unfold Tracked.insertWithPasses
  split
  · exact recorded
  · split
    case h_1 newPass single =>
      split
      · exact recorded
      · unfold insertPass
        split
        · exact recorded
        · have added := recorded.pruneThenAdd spares keeps whole passRules fun visit =>
            @MapState.mem_coveredNarrowerOrEqualKeys state.ms order 0 newKey visit
          rw [pruningPrecedence, passRules, single] at added
          exact added
    · exact recorded
    case h_3 noPass =>
      have related {key : Key} {entry : StateEntry} (present : state.ms.get key = some entry)
          (relation : newKey.Related state.ms.cluster key) :=
        unelevated passRules noPass key ((GoMap.mem_of_lookup present)) entry
          present relation
      rw [insertVerdict_of_no_passes]
      · split
        · exact recorded
        · have added := recorded.pruneThenAdd spares keeps whole passRules fun visit =>
            @Tracked.mem_filter_narrowerOrEqualKeys state order 2 newKey visit
          rw [pruningPrecedence, passRules, noPass] at added
          exact added
      · intro visit member pass passMember
        obtain ⟨present, above, identities⟩ := mem_broaderOrEqualKeys.mp member
        exact (related present ⟨.inr above, identities⟩ pass passMember).1
      · intro visit member pass passMember
        obtain ⟨present, below, identities⟩ := mem_narrowerOrEqualKeys.mp member
        refine (related present ⟨.inl below, ?_⟩ pass passMember).2
        rcases identities with same | lower | upper
        · exact .inl same.symm
        · exact .inr (.inr lower.symm)
        · exact .inr (.inl upper)

theorem insertLevel
    (order : IterationOrder) (loop : Nat) :
    Settled initial
      ((state.pruneAggregated order loop newKey newEntry).addKeyWithChanges newKey newEntry) := by
  refine (recorded.addNew keeps ?_ ?_ rfl).leaveInsert (get_addKeyWithChanges_ne_none _ _ _)
  · exact ((recorded.enterInsert spares _).pruneAggregated order loop
      fun key entry present duplicate => .inl (drops_of_isDuplicate present duplicate)).1
  · intro entry present absent
    rw [get_pruneAggregated, present, Option.filter_some, not_isDuplicate rfl] at absent
    cases absent

/-- Insertion by precedence deletes what the entry outranks and its duplicates, and adds it. -/
theorem insertByPrecedence (order : IterationOrder) (noPassRules : features.passRules = false) :
    Settled initial (((state.deleteVisited (state.ms.coveredNarrowerOrEqualKeys order 0 newKey)
        (outranked newKey newEntry)).pruneAggregated order 1 newKey
          newEntry).addKeyWithChanges newKey newEntry) := by
  have listed (visit : Key × StateEntry) := @MapState.mem_coveredNarrowerOrEqualKeys state.ms
    order 0 newKey visit
  obtain ⟨deleted, only⟩ := (recorded.enterInsert spares (· = newKey)).deleteVisited
    (outranked newKey newEntry) fun visit member wanted =>
      drops_or_eq ((listed visit).mp member).1
        (displaces_of_outranked noPassRules ((listed visit).mp member).2 wanted)
  refine (recorded.addNew keeps ?_ ?_ rfl).leaveInsert (get_addKeyWithChanges_ne_none _ _ _)
  · refine (deleted.pruneAggregated order 1 fun key entry present duplicate => ?_).1
    rw [only.cluster_eq] at duplicate
    exact .inl (drops_of_isDuplicate (only.get_eq key entry present) duplicate)
  · intro entry present absent
    rw [get_pruneAggregated, get_deleteVisited state _ listed, present,
      Option.filter_some] at absent
    split at absent
    · rw [Option.filter_some, not_isDuplicate rfl] at absent
      cases absent
    case isFalse dropped =>
      simp only [Bool.not_eq_true', Bool.not_eq_false, Bool.and_eq_true, decide_eq_true_eq]
        at dropped
      exact displaces_of_outranked noPassRules dropped.1 dropped.2

/-- Insertion within the identity, where nothing is changed in place. -/
theorem insertWithAuth (order : IterationOrder) (noPassRules : features.passRules = false)
    (authRules : features.authRules = true) (allow : newEntry.isDeny = false)
    (overrides : state.OverridesNothing newKey newEntry features) :
    Settled initial
      ((state.authPreferredInsert order newKey newEntry).pruneAggregated order 1 newKey
        newEntry) := by
  unfold authPreferredInsert
  dsimp only
  split
  · exact ((recorded.enterInsert spares fun _ => False).pruneAggregated order 1
      fun key entry present duplicate =>
        .inl (drops_of_isDuplicate present duplicate)).1.leave fun _ => False.elim
  case h_2 derivedEntry derives =>
    have sameValid := isValid_of_deriveFromCovering derives
    have listed (visit : Key × StateEntry) := @MapState.mem_subsetKeysWithSameID state.ms order 0
      newKey visit
    have displaced {key : Key} {entry : StateEntry}
        (inside : newKey.lpmKey.IsAncestor key.lpmKey ∧ key.identity = newKey.identity)
        (lower : entry.precedence < derivedEntry.precedence) :
        state.Displaces newKey newEntry features key entry :=
      ⟨⟨inside.1, .inl inside.2.symm⟩,
        .inr ⟨noPassRules, authRules, allow, inside.2, derivedEntry, derives, lower⟩⟩
    rw [foldl_propagateToSubset_fst]
    · obtain ⟨deleted, only⟩ := (recorded.enterInsert spares (· = newKey)).deleteVisited
        (fun _ visited => decide (visited.precedence < derivedEntry.precedence))
        fun visit member wanted => drops_or_eq ((listed visit).mp member).1
          (displaced ((listed visit).mp member).2 (of_decide_eq_true wanted))
      have added := recorded.addNew keeps deleted (fun entry present absent => ?_) sameValid
      · refine (added.pruneAggregated order 1 fun key entry found duplicate => ?_).1.leaveInsert ?_
        · rw [addKeyWithChanges_cluster, only.cluster_eq] at duplicate
          refine .inl (drops_of_isDuplicate ?_ duplicate)
          rw [get_addKeyWithChanges] at found
          split at found
          case isTrue same =>
            rw [same, not_isDuplicate rfl] at duplicate
            cases duplicate
          · exact only.get_eq key entry found
        · rw [get_pruneAggregated, get_addKeyWithChanges, if_pos rfl,
            Option.filter_some, not_isDuplicate rfl]
          exact Option.some_ne_none _
      · rw [get_deleteVisited state (fun key => newKey.lpmKey.IsAncestor key.lpmKey ∧
          key.identity = newKey.identity) listed, present, Option.filter_some] at absent
        split at absent
        · cases absent
        case isFalse dropped =>
          simp only [Bool.not_eq_true', Bool.not_eq_false, Bool.and_eq_true, decide_eq_true_eq]
            at dropped
          exact displaced ⟨dropped.1.1, rfl⟩ dropped.2
    · intro visit member
      obtain ⟨present, inside⟩ := (listed visit).mp member
      exact overrides authRules noPassRules allow derivedEntry derives visit.1
        (GoMap.mem_of_lookup present) visit.2 present inside

end

include recorded in
theorem insert (order : IterationOrder) (tierMaxPrecedence : Nat)
    (records : state.Records (.insert order tierMaxPrecedence newKey newEntry features)) :
    Settled initial (state.insertWithChanges order tierMaxPrecedence newKey newEntry features) := by
  obtain ⟨spares, whole, keeps, unelevated, overrides⟩ := records
  unfold insertWithChanges
  split
  · exact recorded
  · split
    case isTrue passRules =>
      exact recorded.insertWithPasses spares keeps order whole unelevated passRules
    case isFalse noPassRules =>
      rw [Bool.not_eq_true] at noPassRules
      split
      case isTrue auth =>
        simp only [Bool.and_eq_true, Bool.not_eq_true'] at auth
        exact recorded.insertWithAuth spares keeps order noPassRules auth.2 auth.1 overrides
      · split
        · split
          · exact recorded
          · exact recorded.insertByPrecedence spares keeps order noPassRules
        · exact recorded.insertLevel spares keeps order 1

include recorded in
theorem perform (operation : Operation) (records : state.Records operation) :
    Settled initial (state.perform operation) := by
  have clearable (clear : Key → Prop)
      (notSaved : ∀ key ∈ state.ms.entries, clear key → ¬state.changes.Saves key) :
      Recorded initial clear (fun _ => False) state := by
    refine recorded.enter fun key isClear => ?_
    cases present : state.ms.get key with
    | none => exact .inl rfl
    | some entry => exact .inr (notSaved key (GoMap.mem_of_lookup present) isClear)
  cases operation with
  | insert order tierMaxPrecedence newKey newEntry features =>
    exact recorded.insert order tierMaxPrecedence records
  | deleteKey key =>
    refine ((clearable (· = key) ?_).deleteKey (.inl rfl)).leave fun _ => False.elim
    rintro other member rfl
    exact records member
  | deleteId order id =>
    refine ((clearable (fun key => key.identity = id) ?_).deleteId order
      fun key same => .inl same).leave fun _ => False.elim
    exact fun key member => records key member

end Recorded

/-! ### The record of a round -/

/-- A key that loses its verdict is deleted, a key that is new or written differently is added, and
no key is both. Applied without an error to a policy map that equals the one state, the changes make
it equal to the other; and they are applied without an error if nothing is in the way. -/
structure Describes (ms : MapState) (after : Tracked) : Prop where
  deletes : ∀ key entry, ms.get key = some entry → entry.isValid = true →
    (∀ entry', after.ms.get key = some entry' → entry'.isValid = false) → after.changes.Deletes key
  adds : ∀ key entry, after.ms.get key = some entry →
    ms.getExported key ≠ some entry.toMapStateEntry → after.changes.Adds key
  disjoint : ∀ key, after.changes.Adds key → ¬after.changes.Deletes key
  present : ∀ key, after.changes.Adds key → key ∈ after.ms.entries
  applies : ∀ (context : ApplyContext) policyMap, MapStateMap.Realizes policyMap ms →
    (∀ later, context.applyPolicyMapChangesLocked after policyMap = .ok later →
      later.Realizes after.ms) ∧
    (context.Unhindered after policyMap →
      ∃ later, context.applyPolicyMapChangesLocked after policyMap = .ok later)

theorem Recorded.realizes {ms : MapState} {after : Tracked} (recorded : Settled ms after)
    {context : ApplyContext} {policyMap later : MapStateMap} (realizes : policyMap.Realizes ms)
    (applied : context.applyPolicyMapChangesLocked after policyMap = .ok later) :
    later.Realizes after.ms := by
  intro key
  obtain ⟨adds, deletes, old, same⟩ := recorded.recording
  have addsIff : after.changes.Adds key ↔ key ∈ adds := by simp [ChangeState.Adds, same]
  have deletesIff : after.changes.Deletes key ↔ key ∈ deletes := by
    simp [ChangeState.Deletes, same]
  have before := realizes key
  have lookup := context.lookup_applyPolicyMapChangesLocked applied key
  rw [same] at lookup
  dsimp only [Option.getD_some] at lookup
  rw [lookup]
  cases present : after.ms.get key with
  | none =>
    have exported : after.ms.getExported key = none := by
      rw [getExported, present, Option.map_none]
    have notAdded : key ∉ adds := fun added =>
      recorded.added_present key (addsIff.mpr added) present
    rw [if_neg notAdded, exported, before]
    split
    · rfl
    case isFalse notDeleted =>
      by_contra existed
      exact notDeleted (deletesIff.mp (recorded.deleted key existed present not_false))
  | some entry =>
    have exported : after.ms.getExported key = some entry.toMapStateEntry := by
      rw [getExported, present, Option.map_some]
    have notDeleted : key ∉ deletes := by
      intro deleted
      rw [recorded.deleted_absent key (deletesIff.mpr deleted)] at present
      cases present
    rw [exported, if_neg notDeleted, before]
    split
    · exact Option.some_or
    case isFalse notAdded =>
      exact recorded.unchanged key entry present (addsIff.not.mpr notAdded)

/-- A round that kept the record describes its difference. -/
theorem Recorded.describes {ms : MapState} {after : Tracked}
    (recorded : Settled ms after) : Describes ms after := by
  constructor
  case deletes =>
    intro key entry found valid lost
    have existed : ms.getExported key = some entry.toMapStateEntry := by
      rw [getExported, found, Option.map_some]
    cases present : after.ms.get key with
    | none => exact recorded.deleted key (by rw [existed]; simp) present not_false
    | some later =>
      have kept := recorded.valid key _ later existed valid present
      rw [lost later present] at kept
      cases kept
  case adds =>
    intro key entry present differs
    by_contra notAdded
    exact differs (recorded.unchanged key entry present notAdded)
  case disjoint =>
    exact fun key added deleted =>
      recorded.added_present key added (recorded.deleted_absent key deleted)
  case present =>
    intro key added
    obtain ⟨entry, present⟩ := Option.ne_none_iff_exists'.mp (recorded.added_present key added)
    exact mem_entries_iff.mpr ⟨entry, present⟩
  case applies =>
    exact fun context policyMap realizes => ⟨fun later => recorded.realizes realizes,
      context.exists_applyPolicyMapChangesLocked⟩

/-- Along every round whose operations meet the condition, the recorded changes describe the
difference between the map state at the start of the round and the one reached, and applying them
brings the policy map from the one to the other. -/
theorem run_describes (ms : MapState) (operations : List Operation)
    (meets : Meets perform Tracked.Records ⟨ms, empty⟩ operations) :
    Describes ms (run perform ⟨ms, empty⟩ operations) :=
  (meets.invariant (Settled ms)
    (fun _ operation recorded records => recorded.perform operation records)
    (Recorded.start ms)).describes

def rulesEntry (priority : Nat) (verdict : Verdict) : StateEntry :=
  newMapStateEntry priority 0 lowestPriority none 0 0 verdict noAuthRequirement

def orderedFeatures : PolicyFeatures := ⟨false, true, false, true, false, true⟩

def webState : MapState :=
  (newMapState orderedFeatures defaultClusterInfo).upsert (tcpKey 80#16 1000) (rulesEntry 5 .allow)

/-- A deny of TCP takes the place of the allow, another identity is allowed, and then the deny is
lifted. -/
def orderlyRound : List Operation :=
  [.insert .listed (Priority.toDenyPrecedence 0) (tcpKey 0#16 1000) (rulesEntry 2 .deny)
      orderedFeatures,
    .insert .listed (Priority.toDenyPrecedence 0) (tcpKey 80#16 1001) (rulesEntry 5 .allow)
      orderedFeatures,
    .deleteId .listed 1000]

theorem orderlyRound_describes :
    Meets perform Tracked.Records ⟨webState, empty⟩ orderlyRound ∧
      Describes webState (run perform ⟨webState, empty⟩ orderlyRound) :=
  have meets : Meets perform Tracked.Records ⟨webState, empty⟩
      orderlyRound := by
    decide +kernel
  ⟨meets, run_describes webState orderlyRound meets⟩

/-- An endpoint with a realized policy of one entry, and a policy map that serves all calls. -/
def plainContext : ApplyContext where
  order := .listed
  realizedLen := some 1
  maxEntries := 16384
  fails _ := false
  enableEndpointLockdownOnPolicyOverflow := false
  lockdown := false

/-- The identity of the allow is selected by a rule of higher priority as well, and then deleted. -/
def churnedRound : List Operation :=
  [.insert .listed (Priority.toDenyPrecedence 0) (tcpKey 80#16 1000) (rulesEntry 1 .allow)
      orderedFeatures,
    .deleteId .listed 1000]

/-- A key that is changed and then deleted in one round is not recorded as deleted: the allow stays
in the policy map of the datapath. -/
theorem churnedRound_stale :
    webState.getExported (tcpKey 80#16 1000) = some (rulesEntry 5 .allow).toMapStateEntry ∧
      (run perform ⟨webState, empty⟩ churnedRound).ms.get (tcpKey 80#16 1000) = none ∧
      ¬(run perform ⟨webState, empty⟩ churnedRound).changes.Deletes (tcpKey 80#16 1000) ∧
      (plainContext.applyPolicyMapChangesLocked (run perform ⟨webState, empty⟩ churnedRound)
        ((∅ : MapStateMap).insert (tcpKey 80#16 1000)
          (rulesEntry 5 .allow).toMapStateEntry)).map (·.lookup (tcpKey 80#16 1000)) =
            .ok (some (rulesEntry 5 .allow).toMapStateEntry) := by
  refine ⟨?_, ?_, ?_, ?_⟩ <;> decide +kernel

/-- A map state and its policy map before and after a round, which begins with an empty record,
whose operations meet the condition and whose changes are applied without an error. -/
def Regenerates (operations : List Operation) (context : ApplyContext)
    (state later : MapState × MapStateMap) : Prop :=
  Meets perform Records ⟨state.1, empty⟩ operations ∧
    later.1 = (run perform ⟨state.1, empty⟩ operations).ms ∧
    context.applyPolicyMapChangesLocked (run perform ⟨state.1, empty⟩ operations) state.2 =
      .ok later.2

end Constellation.Policy
