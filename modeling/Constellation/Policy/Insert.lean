/-
This file models how an entry of a rule is inserted into a map state. `insertWithChanges` inserts
an entry unless it is covered by one of higher precedence, and removes the entries that it covers
and outranks. With authentication rules `authPreferredInsert` does this within one identity and
carries authentication types and proxy ports between nested keys. With pass rules
`insertWithPasses` elevates the precedence of an entry over the passes of higher tiers that cover
it.
-/

import Constellation.Policy.Changes

namespace Constellation.Policy

open Lib List

namespace Tracked

/-! ### Insertion with pass rules -/

/-- The covering passes of higher tiers, keys with the identity of a pass that does not cover the
key, keys that need no further processing, the highest precedence of a covering verdict, and whether
the insertion ends here. -/
structure PassScan where
  passes : PassMetas
  l34Keys : GoSet Key
  doneKeys : GoSet Key
  bailPrecedence : Nat
  returned : Bool

/-- A covering pass of the same tier that exceeds the new entry ends the insertion; this is tested
for the inserted key only, not for the keys derived from it. -/
def scanPasses (inserted isCoveringKey : Bool) (narrowed : Key) (entry : StateEntry) :
    PassMetas → PassScan → PassScan
  | [], scan => scan
  | pass :: rest, scan =>
    if pass.tierMinPrecedence > entry.precedence then
      if isCoveringKey then
        scanPasses inserted isCoveringKey narrowed entry rest
          { scan with passes := scan.passes.collect pass }
      else { scan with l34Keys := scan.l34Keys.insert narrowed () }
    else if inserted && isCoveringKey && decide (pass.precedence > entry.precedence) then
      { scan with returned := true }
    else scanPasses inserted isCoveringKey narrowed entry rest scan

def scanVerdict (inserted isCoveringKey : Bool) (narrowed key : Key) (entry : StateEntry)
    (tierMaxPrecedence : Nat) (visitedKey : Key) (visited : StateEntry) (scan : PassScan) :
    PassScan :=
  if visited.isValid && (decide (visited.precedence > entry.precedence) ||
      (entry.isDeny && visited.precedence == entry.precedence && visitedKey != key)) then
    if isCoveringKey then
      if visited.precedence ≤ tierMaxPrecedence then { scan with returned := inserted }
      else { scan with bailPrecedence := max scan.bailPrecedence visited.precedence }
    else if visited.precedence ≤ tierMaxPrecedence then
      { scan with doneKeys := scan.doneKeys.insert narrowed () }
    else scan
  else scan

/-- `inserted` tells the inserted key from the keys derived from it. -/
def scanBroader (inserted : Bool) (aggregateID : NumericIdentity) (key : Key) (entry : StateEntry)
    (tierMaxPrecedence : Nat) : List (Key × StateEntry) → PassScan → PassScan
  | [], scan => scan
  | (visitedKey, visited) :: rest, scan =>
    let isCoveringKey := key.identity != aggregateID || visitedKey.identity == aggregateID
    let narrowed := key.withIdentity visitedKey.identity
    let scanned := scanPasses inserted isCoveringKey narrowed entry visited.passMetas scan
    if scanned.returned then scanned
    else
      let judged := scanVerdict inserted isCoveringKey narrowed key entry tierMaxPrecedence
        visitedKey visited scanned
      if judged.returned then judged
      else scanBroader inserted aggregateID key entry tierMaxPrecedence rest judged

/-- The keys still to be processed, and the keys that were ever queued or need no processing. -/
structure KeyQueue where
  keys : List Key
  doneKeys : GoSet Key

def KeyQueue.addNewKey (queue : KeyQueue) (key : Key) : KeyQueue :=
  if key ∈ queue.doneKeys then queue
  else ⟨queue.keys ++ [key], queue.doneKeys.insert key ()⟩

def KeyQueue.addNewKeys (order : IterationOrder) (loop : Nat) (queue : KeyQueue)
    (l34Keys : GoSet Key) : KeyQueue :=
  (order.visit loop l34Keys.keys).foldl KeyQueue.addNewKey queue

/-- With the identity of the inserted key if that is narrower, if the entry has a pass above the
tier. -/
def KeyQueue.collectNarrowerPasses (cluster : ClusterInfo) (queue : KeyQueue)
    (tierMaxPrecedence : Nat) (visitedKey : Key) (visited : StateEntry) (key : Key) : KeyQueue :=
  let narrower :=
    if visitedKey.identity = aggregateFor cluster key.identity then
      visitedKey.withIdentity key.identity
    else visitedKey
  if narrower ≠ key ∧ visited.passMetas.any fun pass => pass.precedence > tierMaxPrecedence then
    queue.addNewKey narrower
  else queue

def pruneAndAdd (order : IterationOrder) (loop : Nat) (state : Tracked) (key : Key)
    (entry : StateEntry) (precedence : Nat) : Tracked :=
  let pruned := state.pruneCovered (state.ms.coveredNarrowerOrEqualKeys order loop key) key entry
    precedence
  pruned.addKeyWithChanges key
    { entry with toMapStateEntry := { entry.toMapStateEntry with precedence := precedence } }

/-- Each key is inserted with the precedence that the passes covering it lend to the entry, unless a
covering verdict is as high; the keys found on the way are queued. The fuel bounds the number of
keys. -/
def processKeys (order : IterationOrder) (aggregateID : NumericIdentity) (entry : StateEntry)
    (tierMaxPrecedence : Nat) : Nat → Tracked → KeyQueue → Tracked
  | 0, state, _ => state
  | fuel + 1, state, queue =>
    match queue.keys with
    | [] => state
    | key :: keys =>
      let scan := scanBroader false aggregateID key entry tierMaxPrecedence
        (state.ms.broaderOrEqualKeys order (3 * fuel + 4) key) ⟨[], ∅, queue.doneKeys, 0, false⟩
      let queue := KeyQueue.addNewKeys order (3 * fuel + 5) ⟨keys, scan.doneKeys⟩ scan.l34Keys
      let precedence := entry.inheritPassPrecedence scan.passes
      let state :=
        if precedence > scan.bailPrecedence then
          state.pruneAndAdd order (3 * fuel + 6) key entry precedence
        else state
      processKeys order aggregateID entry tierMaxPrecedence fuel state queue

/-- Nothing is inserted if a covering pass or verdict of the same tier is as high. -/
def insertPass (order : IterationOrder) (state : Tracked) (tierMaxPrecedence : Nat) (key : Key)
    (entry : StateEntry) (newPass : PassMeta) : Tracked :=
  if (state.ms.coveringBroaderOrEqualKeys key).any fun (_, visited) =>
      (visited.isValid && decide (tierMaxPrecedence ≥ visited.precedence) &&
        decide (visited.precedence > newPass.precedence)) ||
      visited.passMetas.any fun pass =>
        pass.tierMinPrecedence == newPass.tierMinPrecedence &&
          decide (pass.precedence ≥ newPass.precedence) then state
  else
    let pruned := state.pruneCovered (state.ms.coveredNarrowerOrEqualKeys order 0 key) key entry
      newPass.precedence
    pruned.addKeyWithChanges key entry

section

variable (state : Tracked)

/-- A key part and an identity of an entry, or of the inserted key. -/
def queueBound : Nat :=
  (state.ms.entries.keys.length + 1) * (state.ms.entries.keys.length + 1)

/-- Removes what the entry covers and outranks, unless it is to be bailed out. -/
def pruneNarrower (bail : Bool) (aggregateID : NumericIdentity) (key : Key)
    (entry : StateEntry) (visits : List (Key × StateEntry)) : Tracked :=
  if bail then state
  else
    state.pruneCovered (visits.filter fun visit =>
        key.identity == aggregateID || visit.1.identity == key.identity)
      key entry entry.precedence

/-- Queues the keys of passes above the tier. Reads the entries as they were before the first part
of the loop. -/
def KeyQueue.collectNarrower (cluster : ClusterInfo) (queue : KeyQueue) (tierMaxPrecedence : Nat)
    (key : Key) (visits : List (Key × StateEntry)) : KeyQueue :=
  visits.foldl (fun queue (visitedKey, visited) =>
      queue.collectNarrowerPasses cluster tierMaxPrecedence visitedKey visited key)
    queue

variable (order : IterationOrder)

def insertVerdict (state : Tracked) (tierMaxPrecedence : Nat) (key : Key)
    (entry : StateEntry) : Tracked :=
  let aggregateID := aggregateFor state.ms.cluster key.identity
  let scan := scanBroader true aggregateID key entry tierMaxPrecedence
    (state.ms.broaderOrEqualKeys order 0 key) ⟨[], ∅, ∅, 0, false⟩
  if scan.returned then state
  else
    let queue := KeyQueue.addNewKeys order 1 ⟨[], scan.doneKeys⟩ scan.l34Keys
    let bail := decide (scan.bailPrecedence > 0)
    let narrower := state.ms.narrowerOrEqualKeys order 2 key
    let pruned := state.pruneNarrower bail aggregateID key entry narrower
    let queue := queue.collectNarrower state.ms.cluster tierMaxPrecedence key narrower
    let precedence := entry.inheritPassPrecedence scan.passes
    let added :=
      if scan.passes ≠ [] ∧ precedence > scan.bailPrecedence then
        pruned.pruneAndAdd order 3 key entry precedence
      else if bail then pruned
      else pruned.addKeyWithChanges key entry
    processKeys order aggregateID entry tierMaxPrecedence state.queueBound added queue

/-- The two rejected kinds of input are logged as errors. -/
def insertWithPasses (state : Tracked) (tierMaxPrecedence : Nat)
    (key : Key) (entry : StateEntry) : Tracked :=
  if tierMaxPrecedence % 256 ≠ 255 ∨
      (entry.isValid = true ∧ entry.precedence > tierMaxPrecedence) then state
  else
    match entry.passes with
    | some [newPass] =>
      if newPass.precedence > tierMaxPrecedence then state
      else state.insertPass order tierMaxPrecedence key entry newPass
    | some _ => state
    | none => state.insertVerdict order tierMaxPrecedence key entry

/-! ### Insertion with authentication rules -/

def portProtoIsEqual (first second : LPMKey) : Bool :=
  first.nexthdr == second.nexthdr && first.destPort == second.destPort &&
    first.portPrefixLen == second.portPrefixLen

/-- An entry with an explicit authentication type gets the proxy port and precedence of a new
entry. -/
def overrideProxyPortForAuth (newEntry : StateEntry) (visitedKey : Key)
    (visited : StateEntry) : Tracked × Bool :=
  if visited.authRequirement.isExplicit then
    (⟨state.ms.updateExisting visitedKey { visited with
          toMapStateEntry :=
            { visited.toMapStateEntry with
              proxyPort := newEntry.proxyPort
              precedence := newEntry.precedence } },
      (state.changes.insertOldIfNotExists visitedKey visited).1⟩, true)
  else (state, false)

/-- The type becomes a derived one. -/
def overrideAuthRequirement (newEntry : StateEntry) (visitedKey : Key)
    (visited : StateEntry) : Tracked :=
  if visited.authRequirement.authType ≠ newEntry.authRequirement.authType then
    ⟨state.ms.updateExisting visitedKey { visited with
          toMapStateEntry :=
            { visited.toMapStateEntry with
              authRequirement := newEntry.authRequirement.asDerived } },
      (state.changes.insertOldIfNotExists visitedKey visited).1⟩
  else state

/-- The entry takes over from the covering entries, the most specific first, the proxy port and
precedence of a higher one if it has an authentication type of its own, and otherwise the explicit
type of the most specific one. Nothing if it is bailed out. -/
def deriveFromCovering (newKey : Key) (hasExplicitAuth : Bool) :
    List (Key × StateEntry) → StateEntry → Bool → Option StateEntry
  | [], newEntry, _ => some newEntry
  | (visitedKey, visited) :: rest, newEntry, derived =>
    if visited.precedence > newEntry.precedence then
      if visited.isDeny || !hasExplicitAuth then none
      else
        some { newEntry with
            toMapStateEntry :=
              { newEntry.toMapStateEntry with
                proxyPort := visited.proxyPort
                precedence := visited.precedence } }
    else if !derived && !hasExplicitAuth && !portProtoIsEqual visitedKey.lpmKey newKey.lpmKey &&
        visited.authRequirement.isExplicit &&
        decide (Precedence.allowPrecedence visited.precedence ≥
          Precedence.allowPrecedence newEntry.precedence) then
      deriveFromCovering newKey hasExplicitAuth rest { newEntry with
          toMapStateEntry :=
            { newEntry.toMapStateEntry with
              authRequirement := visited.authRequirement.asDerived } } true
    else deriveFromCovering newKey hasExplicitAuth rest newEntry derived

/-- The flag tells that the authentication type of the new entry is not propagated any further. -/
def propagateToSubset (newKey : Key) (newEntry : StateEntry) (hasExplicitAuth : Bool)
    (progress : Tracked × Bool) (visit : Key × StateEntry) : Tracked × Bool :=
  let (state, propagated) := progress
  let (visitedKey, visited) := visit
  let outranked := decide (visited.precedence < newEntry.precedence)
  let (overridden, kept) :=
    if outranked then state.overrideProxyPortForAuth newEntry visitedKey visited else (state, true)
  if !kept then (state.deleteExistingWithChanges visitedKey visited, propagated)
  else if !propagated && hasExplicitAuth && !portProtoIsEqual visitedKey.lpmKey newKey.lpmKey then
    if visited.isDeny || visited.authRequirement.isExplicit then (overridden, true)
    else (overridden.overrideAuthRequirement newEntry visitedKey visited, propagated)
  else (overridden, propagated)

def authPreferredInsert (state : Tracked) (newKey : Key) (newEntry : StateEntry) : Tracked :=
  let hasExplicitAuth := newEntry.authRequirement.isExplicit
  match deriveFromCovering newKey hasExplicitAuth (state.ms.coveringKeysWithSameID newKey) newEntry
      false with
  | none => state
  | some newEntry =>
    let propagated := (state.ms.subsetKeysWithSameID order 0 newKey).foldl
      (propagateToSubset newKey newEntry hasExplicitAuth) (state, false)
    propagated.1.addKeyWithChanges newKey newEntry

/-! ### Insertion -/

def aggregateIsEquivalent (newKey : Key) (newEntry : StateEntry) : Bool :=
  let agg := aggregateFor state.ms.cluster newKey.identity
  if agg = newKey.identity then false
  else
    match state.ms.get (newKey.withIdentity agg) with
    | none => false
    | some aggEntry => aggEntry.equivalent newEntry

def pruneAggregatedID (newKey : Key) (newEntry : StateEntry) (state : Tracked)
    (id : NumericIdentity) : Tracked :=
  if aggregates state.ms.cluster newKey.identity id then
    match state.ms.get (newKey.withIdentity id) with
    | none => state
    | some entry =>
      if entry.equivalent newEntry then
        state.deleteExistingWithChanges (newKey.withIdentity id) entry
      else state
  else state

/-- Entries that are equivalent to that of the aggregate are removed. -/
def pruneAggregated (loop : Nat) (state : Tracked) (newKey : Key)
    (newEntry : StateEntry) : Tracked :=
  if isAggregate state.ms.cluster newKey.identity then
    match state.ms.trie.lookup newKey.lpmKey with
    | none => state
    | some idSet =>
      (order.visit loop idSet.keys).foldl (pruneAggregatedID newKey newEntry) state
  else state

def deleteVisited (visits : List (Key × StateEntry)) (wanted : Key → StateEntry → Bool) : Tracked :=
  visits.foldl (fun state (visitedKey, visited) =>
      if wanted visitedKey visited then state.deleteExistingWithChanges visitedKey visited
      else state)
    state

end

/-- A valid entry of higher precedence, or, for a deny, one of equal precedence under another
key. -/
def bailsOut (newKey : Key) (newEntry : StateEntry) (visitedKey : Key) (visited : StateEntry) :
    Bool :=
  visited.isValid && (decide (visited.precedence > newEntry.precedence) ||
    (newEntry.isDeny && visited.precedence == newEntry.precedence && visitedKey != newKey))

/-- An entry of lower precedence, or, for a deny, one of equal precedence under another key. -/
def outranked (newKey : Key) (newEntry : StateEntry) (visitedKey : Key) (visited : StateEntry) :
    Bool :=
  decide (visited.precedence < newEntry.precedence) ||
    (newEntry.isDeny && visited.precedence == newEntry.precedence && visitedKey != newKey)

def insertWithChanges (order : IterationOrder) (state : Tracked) (tierMaxPrecedence : Nat)
    (newKey : Key) (newEntry : StateEntry) (features : PolicyFeatures) : Tracked :=
  if state.aggregateIsEquivalent newKey newEntry then state
  else if features.passRules then
    state.insertWithPasses order tierMaxPrecedence newKey newEntry
  else if !newEntry.isDeny && features.authRules then
    (state.authPreferredInsert order newKey newEntry).pruneAggregated order 1 newKey newEntry
  else if newEntry.isDeny || features.precedenceFeatures then
    if (state.ms.coveringBroaderOrEqualKeys newKey).any fun (visitedKey, visited) =>
        bailsOut newKey newEntry visitedKey visited then state
    else
      ((state.deleteVisited (state.ms.coveredNarrowerOrEqualKeys order 0 newKey)
          (outranked newKey newEntry)).pruneAggregated order 1 newKey newEntry).addKeyWithChanges
        newKey newEntry
  else (state.pruneAggregated order 1 newKey newEntry).addKeyWithChanges newKey newEntry

/-! ### What the loops of an insertion visit -/

section Visits

variable {state : Tracked} {order : IterationOrder} {loop : Nat} {key : Key}
  {visit : Key × StateEntry}

/-- Of the keys visited by the scan, those that count as covering are the keys that cover. -/
theorem isCoveringKey_iff :
    visit ∈ state.ms.broaderOrEqualKeys order loop key ∧
        (key.identity != aggregateFor state.ms.cluster key.identity ||
          visit.1.identity == aggregateFor state.ms.cluster key.identity) = true ↔
      state.ms.get visit.1 = some visit.2 ∧ visit.1.Covers state.ms.cluster key := by
  rw [MapState.mem_broaderOrEqualKeys, Bool.or_eq_true, bne_iff_ne, beq_iff_eq, and_assoc]
  refine and_congr_right fun _ => ?_
  rw [and_assoc]
  refine and_congr_right fun _ => ?_
  constructor
  · intro ⟨related, covering⟩
    rcases related with same | aggregate | below
    · exact .inl same
    · exact .inr aggregate
    · refine .inr (covering.resolve_left fun specific => specific ?_)
      rw [← below, aggregateFor_aggregateFor]
  · intro related
    rcases related with same | aggregate
    · exact ⟨.inl same, same ▸ ne_or_eq _ _⟩
    · exact ⟨.inr (.inl aggregate), .inr aggregate⟩

/-- Of the keys visited by the loop over the narrower keys, those that are pruned are the covered
ones. -/
theorem mem_filter_narrowerOrEqualKeys :
    visit ∈ (state.ms.narrowerOrEqualKeys order loop key).filter (fun visit =>
        key.identity == aggregateFor state.ms.cluster key.identity ||
          visit.1.identity == key.identity) ↔
      state.ms.get visit.1 = some visit.2 ∧ key.Covers state.ms.cluster visit.1 := by
  rw [mem_filter, MapState.mem_narrowerOrEqualKeys, Bool.or_eq_true, beq_iff_eq, beq_iff_eq,
    and_assoc]
  refine and_congr_right fun _ => ?_
  rw [and_assoc]
  refine and_congr_right fun _ => ?_
  constructor
  · intro ⟨related, covered⟩
    rcases related with same | below | above
    · exact .inl same
    · exact .inr below
    · exact .inl (covered.elim (fun aggregate => aggregate.trans above.symm) Eq.symm)
  · intro related
    rcases related with same | below
    · exact ⟨.inl same, .inr same.symm⟩
    · refine ⟨.inr (.inl below), .inl ?_⟩
      rw [below, aggregateFor_aggregateFor]

end Visits

/-! ### What the loops of an insertion make of the entries -/

variable {visits : List (Key × StateEntry)}

section

variable (state : Tracked) (listed : ∀ visit ∈ visits, state.ms.get visit.1 = some visit.2)
  (wanted : Key → StateEntry → Bool)
include state listed wanted

/-- The loop of `deleteVisited` works on each visited entry by itself. -/
theorem deleteVisited_localSteps :
    LocalSteps (fun state => state.ms.get) (fun later => later.ms.cluster = state.ms.cluster)
      Prod.fst (fun visit => if wanted visit.1 visit.2 then none else some visit.2)
      (fun state (visitedKey, visited) =>
        if wanted visitedKey visited then state.deleteExistingWithChanges visitedKey visited
        else state)
      state visits where
  keeps later cluster visit _ := by
    dsimp only
    split
    · exact (deleteExistingWithChanges_cluster ..).trans cluster
    · exact cluster
  elsewhere later _ visit _ place differ := by
    dsimp only
    split
    · rw [get_deleteExistingWithChanges, if_neg differ]
    · rfl
  there later _ visit member reached := by
    rw [listed visit member] at reached
    dsimp only at reached ⊢
    split
    · rw [get_deleteExistingWithChanges, if_pos rfl]
    case isFalse unwanted =>
      rw [if_neg unwanted, or_self] at reached
      exact reached
  unique first firstMember second secondMember same := by
    have entries : first.2 = second.2 := by
      have found := listed first firstMember
      rw [same, listed second secondMember] at found
      exact (Option.some.inj found).symm
    rw [same, entries]

theorem deleteVisited_cluster :
    (state.deleteVisited visits wanted).ms.cluster = state.ms.cluster :=
  (state.deleteVisited_localSteps listed wanted).keep_foldl rfl

end

/-- Deleting among listed entries deletes those that are listed and wanted. -/
theorem get_deleteVisited (state : Tracked) (inVisits : Key → Prop) [DecidablePred inVisits]
    (listed : ∀ visit, visit ∈ visits ↔ state.ms.get visit.1 = some visit.2 ∧ inVisits visit.1)
    (wanted : Key → StateEntry → Bool) (other : Key) :
    (state.deleteVisited visits wanted).ms.get other = (state.ms.get other).filter fun entry =>
        !(decide (inVisits other) && wanted other entry) := by
  have steps := state.deleteVisited_localSteps (fun visit member => ((listed visit).mp member).1)
    wanted
  have unvisited (absent : ∀ visit ∈ visits, visit.1 ≠ other) :
      (state.deleteVisited visits wanted).ms.get other = state.ms.get other :=
    steps.read_foldl_of_not_mem rfl absent
  cases found : state.ms.get other with
  | none =>
    rw [unvisited, found]
    · rfl
    · intro visit member same
      have present := ((listed visit).mp member).1
      rw [same, found] at present
      cases present
  | some entry =>
    by_cases inside : inVisits other
    · have visited := steps.read_foldl_of_mem rfl ((listed (other, entry)).mpr ⟨found, inside⟩)
      refine visited.trans ?_
      simp only [Option.filter, inside, decide_true, Bool.true_and]
      cases wanted other entry <;> rfl
    · rw [unvisited, found]
      · simp [Option.filter, inside]
      · intro visit member same
        exact inside (same ▸ ((listed visit).mp member).2)

/-- On the level of the key, of an identity below the key's, and equivalent. -/
def isDuplicate (cluster : ClusterInfo) (newKey : Key) (newEntry : StateEntry) (other : Key)
    (entry : StateEntry) : Bool :=
  decide (other.lpmKey = newKey.lpmKey) &&
    aggregates cluster newKey.identity other.identity && entry.equivalent newEntry

theorem isDuplicate_withIdentity (cluster : ClusterInfo) (newKey : Key) (newEntry : StateEntry)
    (id : NumericIdentity) (entry : StateEntry) :
    isDuplicate cluster newKey newEntry (newKey.withIdentity id) entry =
      (aggregates cluster newKey.identity id && entry.equivalent newEntry) := by
  simp [isDuplicate, Key.withIdentity]

theorem covers_of_isDuplicate {cluster : ClusterInfo} {newKey other : Key}
    {newEntry visited : StateEntry}
    (duplicate : isDuplicate cluster newKey newEntry other visited = true) :
    newKey.Covers cluster other ∧ visited.precedence ≤ newEntry.precedence := by
  simp only [isDuplicate, Bool.and_eq_true, decide_eq_true_eq] at duplicate
  obtain ⟨⟨level, below⟩, equivalent⟩ := duplicate
  refine ⟨⟨level ▸ LPMKey.IsAncestor.refl _, .inr ((aggregates_iff ..).mp below).2.symm⟩, ?_⟩
  rw [((StateEntry.equivalent_iff _ _).mp equivalent).1]

theorem not_isDuplicate {cluster : ClusterInfo} {key other : Key} {entry visited : StateEntry}
    (same : key.identity = other.identity) :
    isDuplicate cluster key entry other visited = false := by
  rw [← Bool.not_eq_true]
  intro duplicate
  simp only [isDuplicate, Bool.and_eq_true] at duplicate
  exact ((aggregates_iff ..).mp duplicate.1.2).1 same

/-- The loop of `pruneAggregated` works on each identity by itself. -/
theorem pruneAggregatedID_localSteps (state : Tracked) (newKey : Key) (newEntry : StateEntry)
    (ids : List NumericIdentity) :
    LocalSteps (fun state => state.ms.get) (fun later => later.ms.cluster = state.ms.cluster)
      newKey.withIdentity
      (fun id => (state.ms.get (newKey.withIdentity id)).filter fun entry =>
        !isDuplicate state.ms.cluster newKey newEntry (newKey.withIdentity id) entry)
      (pruneAggregatedID newKey newEntry) state ids where
  keeps later cluster id _ := by
    unfold pruneAggregatedID
    split
    · split
      · exact cluster
      · split
        · exact (deleteExistingWithChanges_cluster ..).trans cluster
        · exact cluster
    · exact cluster
  elsewhere later _ id _ place differ := by
    unfold pruneAggregatedID
    split
    · split
      · rfl
      · split
        · rw [get_deleteExistingWithChanges, if_neg differ]
        · rfl
    · rfl
  there later cluster id _ reached := by
    unfold pruneAggregatedID
    simp only [isDuplicate_withIdentity] at reached ⊢
    rw [cluster]
    cases below : aggregates state.ms.cluster newKey.identity id with
    | false =>
      have everything (found : Option StateEntry) : found.filter (fun _ => true) = found := by
        cases found <;> rfl
      simp only [below, Bool.false_and, Bool.not_false, everything, or_self, Bool.false_eq_true,
        if_false] at reached ⊢
      exact reached
    | true =>
      simp only [below, Bool.true_and, if_true] at reached ⊢
      cases found : later.ms.get (newKey.withIdentity id) with
      | none =>
        rw [found] at reached
        rcases reached with same | result
        · simp [found, ← same]
        · simp only [found]
          exact result
      | some entry =>
        dsimp only
        have initial : state.ms.get (newKey.withIdentity id) = some entry := by
          rw [found] at reached
          rcases reached with same | result
          · exact same.symm
          · exact (Option.filter_eq_some_iff.mp result.symm).1
        rw [initial, Option.filter_some]
        cases entry.equivalent newEntry with
        | true => exact (get_deleteExistingWithChanges ..).trans (if_pos rfl)
        | false => exact found
  unique first _ second _ same := by
    rw [same]

section

variable (order : IterationOrder) (loop : Nat) (state : Tracked) (newKey : Key)
  (newEntry : StateEntry)
include order loop state newKey newEntry

theorem pruneAggregated_cluster :
    (state.pruneAggregated order loop newKey newEntry).ms.cluster = state.ms.cluster := by
  unfold pruneAggregated
  split
  · split
    · rfl
    · exact (state.pruneAggregatedID_localSteps newKey newEntry _).keep_foldl rfl
  · rfl

/-- `pruneAggregated` removes the duplicates of an aggregate's entry, and nothing else. -/
theorem get_pruneAggregated (other : Key) :
    (state.pruneAggregated order loop newKey newEntry).ms.get other =
      (state.ms.get other).filter fun entry =>
        !isDuplicate state.ms.cluster newKey newEntry other entry := by
  have nothing (clean : ∀ entry, state.ms.get other = some entry →
      ¬isDuplicate state.ms.cluster newKey newEntry other entry = true) :
      state.ms.get other = (state.ms.get other).filter fun entry =>
        !isDuplicate state.ms.cluster newKey newEntry other entry := by
    cases found : state.ms.get other with
    | none => rfl
    | some entry => simp [Option.filter, clean entry found]
  -- Every duplicate is one of the entries that the loop visits.
  have visits (entry : StateEntry) (found : state.ms.get other = some entry)
      (duplicate : isDuplicate state.ms.cluster newKey newEntry other entry = true) :
      isAggregate state.ms.cluster newKey.identity = true ∧ other.lpmKey = newKey.lpmKey ∧
        ∃ idSet, state.ms.trie.lookup newKey.lpmKey = some idSet ∧ other.identity ∈ idSet := by
    simp only [isDuplicate, Bool.and_eq_true, decide_eq_true_eq] at duplicate
    obtain ⟨⟨level, below⟩, _⟩ := duplicate
    refine ⟨?_, level, ?_⟩
    · rw [isAggregate, beq_iff_eq, ← ((aggregates_iff ..).mp below).2, aggregateFor_aggregateFor]
    · rw [← level]
      exact (state.ms.trie_mirrors _ _).mpr (MapState.mem_entries_iff.mpr ⟨entry, found⟩)
  unfold pruneAggregated
  split
  case isTrue aggregate =>
    split
    case h_1 missing =>
      refine nothing fun entry found duplicate => ?_
      obtain ⟨_, _, idSet, stored, _⟩ := visits entry found duplicate
      rw [missing] at stored
      cases stored
    case h_2 idSet stored =>
      have steps := state.pruneAggregatedID_localSteps newKey newEntry (order.visit loop idSet.keys)
      by_cases level : other.lpmKey = newKey.lpmKey ∧ other.identity ∈ idSet
      · have target : newKey.withIdentity other.identity = other :=
          (Key.mk_eq_iff _ _ _).mpr ⟨level.1.symm, rfl⟩
        have visited := steps.read_foldl_of_mem rfl
          ((order.mem_visit loop _ _).mpr (AList.mem_keys.mp level.2))
        rw [target] at visited
        exact visited
      · refine (steps.read_foldl_of_not_mem rfl fun id member same => level ?_).trans
          (nothing fun entry found duplicate => level ?_)
        · rw [← same]
          exact ⟨rfl, ((order.mem_visit loop _ _).mp member)⟩
        · obtain ⟨_, onLevel, members, listed, member⟩ := visits entry found duplicate
          rw [stored] at listed
          cases listed
          exact ⟨onLevel, member⟩
  case isFalse specific =>
    exact nothing fun entry found duplicate => specific (visits entry found duplicate).1

end

/-! ### Insertion where nothing is elevated -/

section Unelevated

variable {newKey : Key} {newEntry : StateEntry}

/-- Without passes of higher tiers, reading the passes of an entry can at most end the insertion. -/
theorem scanPasses_of_no_passes {inserted isCoveringKey : Bool} {narrowed : Key}
    (passes : PassMetas)
    (noPasses : ∀ pass ∈ passes, pass.tierMinPrecedence ≤ newEntry.precedence) (scan : PassScan) :
    ∃ returned, scanPasses inserted isCoveringKey narrowed newEntry passes scan =
      { scan with returned := returned } := by
  induction passes with
  | nil => exact ⟨scan.returned, rfl⟩
  | cons pass rest inductionHypothesis =>
    have lower := noPasses pass (.head _)
    unfold scanPasses
    rw [if_neg (Nat.not_lt.mpr lower)]
    split
    · exact ⟨true, rfl⟩
    · exact inductionHypothesis (forall_mem_cons.mp noPasses).2

theorem scanVerdict_passes (inserted isCoveringKey : Bool) (narrowed key : Key)
    (tierMaxPrecedence : Nat) (visit : Key × StateEntry) (scan : PassScan) :
    let judged := scanVerdict inserted isCoveringKey narrowed key newEntry tierMaxPrecedence
      visit.1 visit.2 scan
    judged.passes = scan.passes ∧ judged.l34Keys = scan.l34Keys := by
  unfold scanVerdict
  split
  · split
    · split <;> exact ⟨rfl, rfl⟩
    · split <;> exact ⟨rfl, rfl⟩
  · exact ⟨rfl, rfl⟩

/-- Without passes of higher tiers, the scan collects no passes and no keys. -/
theorem scanBroader_of_no_passes {inserted : Bool} {aggregateID : NumericIdentity}
    {tierMaxPrecedence : Nat} (visits : List (Key × StateEntry))
    (noPasses : ∀ visit ∈ visits, ∀ pass ∈ visit.2.passMetas,
      pass.tierMinPrecedence ≤ newEntry.precedence) (scan : PassScan) :
    let result := scanBroader inserted aggregateID newKey newEntry tierMaxPrecedence visits scan
    result.passes = scan.passes ∧ result.l34Keys = scan.l34Keys := by
  induction visits generalizing scan with
  | nil => exact ⟨rfl, rfl⟩
  | cons visit rest inductionHypothesis =>
    have tail := inductionHypothesis (forall_mem_cons.mp noPasses).2
    obtain ⟨returned, scanned⟩ := @scanPasses_of_no_passes newEntry inserted
      (newKey.identity != aggregateID || visit.1.identity == aggregateID)
      (newKey.withIdentity visit.1.identity) visit.2.passMetas (noPasses visit (.head _))
      scan
    have judged := @scanVerdict_passes newEntry inserted
      (newKey.identity != aggregateID || visit.1.identity == aggregateID)
      (newKey.withIdentity visit.1.identity) newKey tierMaxPrecedence visit
      { scan with returned := returned }
    unfold scanBroader
    dsimp only at judged ⊢
    rw [scanned]
    split
    · exact ⟨rfl, rfl⟩
    · split
      · exact judged
      · exact ⟨(tail _).1.trans judged.1, (tail _).2.trans judged.2⟩

/-- Without passes above the tier, no narrower key is queued. -/
theorem collectNarrower_of_no_passes (cluster : ClusterInfo) (queue : KeyQueue)
    (tierMaxPrecedence : Nat) (visits : List (Key × StateEntry))
    (noPasses : ∀ visit ∈ visits, ∀ pass ∈ visit.2.passMetas, pass.precedence ≤ tierMaxPrecedence) :
    queue.collectNarrower cluster tierMaxPrecedence newKey visits = queue := by
  induction visits with
  | nil => rfl
  | cons visit rest inductionHypothesis =>
    have step : queue.collectNarrowerPasses cluster tierMaxPrecedence visit.1 visit.2 newKey =
        queue := by
      refine if_neg fun queued => ?_
      obtain ⟨pass, member, above⟩ := any_eq_true.mp queued.2
      exact absurd (of_decide_eq_true above)
        (Nat.not_lt.mpr (noPasses visit (.head _) pass member))
    refine (congrArg (List.foldl _ · rest) step).trans ?_
    exact inductionHypothesis (forall_mem_cons.mp noPasses).2

/-- Without passes of higher tiers, a verdict is inserted with its own precedence under its own
key, unless the scan ends the insertion or bails it out. -/
theorem insertVerdict_of_no_passes {state : Tracked} {order : IterationOrder}
    {tierMaxPrecedence : Nat}
    (broader : ∀ visit ∈ state.ms.broaderOrEqualKeys order 0 newKey, ∀ pass ∈ visit.2.passMetas,
      pass.tierMinPrecedence ≤ newEntry.precedence)
    (narrower : ∀ visit ∈ state.ms.narrowerOrEqualKeys order 2 newKey,
      ∀ pass ∈ visit.2.passMetas, pass.precedence ≤ tierMaxPrecedence) :
    let aggregateID := aggregateFor state.ms.cluster newKey.identity
    let scan := scanBroader true aggregateID newKey newEntry tierMaxPrecedence
      (state.ms.broaderOrEqualKeys order 0 newKey) ⟨[], ∅, ∅, 0, false⟩
    state.insertVerdict order tierMaxPrecedence newKey newEntry =
      if scan.returned = true ∨ 0 < scan.bailPrecedence then state
      else
        (state.pruneCovered ((state.ms.narrowerOrEqualKeys order 2 newKey).filter fun visit =>
          newKey.identity == aggregateID || visit.1.identity == newKey.identity) newKey newEntry
          newEntry.precedence).addKeyWithChanges newKey newEntry := by
  unfold insertVerdict
  dsimp only
  obtain ⟨noPasses, noKeys⟩ := @scanBroader_of_no_passes newKey newEntry true
    (aggregateFor state.ms.cluster newKey.identity) tierMaxPrecedence
    (state.ms.broaderOrEqualKeys order 0 newKey) broader ⟨[], ∅, ∅, 0, false⟩
  set scan := scanBroader true (aggregateFor state.ms.cluster newKey.identity) newKey newEntry
    tierMaxPrecedence (state.ms.broaderOrEqualKeys order 0 newKey) ⟨[], ∅, ∅, 0, false⟩
  have noQueue (fuel : Nat) (later : Tracked) (doneKeys : GoSet Key) :
      processKeys order (aggregateFor state.ms.cluster newKey.identity) newEntry tierMaxPrecedence
        fuel later ⟨[], doneKeys⟩ = later := by
    cases fuel <;> rfl
  have queued : (KeyQueue.addNewKeys order 1 ⟨[], scan.doneKeys⟩ scan.l34Keys).collectNarrower
      state.ms.cluster tierMaxPrecedence newKey (state.ms.narrowerOrEqualKeys order 2 newKey) =
      ⟨[], scan.doneKeys⟩ := by
    rw [collectNarrower_of_no_passes _ _ _ _ narrower, noKeys]
    have none : order.visit 1 (∅ : GoSet Key).keys = [] := (order.visit_perm 1 _).eq_nil
    rw [KeyQueue.addNewKeys, none]
    rfl
  rw [queued, noPasses]
  simp only [noQueue, ne_eq, not_true_eq_false, false_and, if_false]
  by_cases returned : scan.returned = true
  · rw [if_pos returned, if_pos (.inl returned)]
  · rw [if_neg returned]
    by_cases bail : 0 < scan.bailPrecedence
    · simp only [gt_iff_lt, bail, decide_true, if_true, pruneNarrower, or_true]
    · simp only [gt_iff_lt, bail, decide_false, Bool.false_eq_true, if_false, pruneNarrower,
        returned, or_self]

/-- It is lower and states no authentication type, or it is not lower and is not given the type of
the new entry. -/
def NotOverridden (newKey : Key) (newEntry : StateEntry) (explicit : Bool) (key : Key)
    (entry : StateEntry) : Prop :=
  if entry.precedence < newEntry.precedence then entry.authRequirement.isExplicit = false
  else explicit = true → portProtoIsEqual key.lpmKey newKey.lpmKey = false →
    entry.isDeny = true ∨ entry.authRequirement.isExplicit = true ∨
      entry.authRequirement.authType = newEntry.authRequirement.authType
  deriving Decidable

/-- Where no visited entry is changed in place, the loop over the subset keys deletes the lower
entries. -/
theorem foldl_propagateToSubset_fst {explicit : Bool} (visits : List (Key × StateEntry))
    (kept : ∀ visit ∈ visits, NotOverridden newKey newEntry explicit visit.1 visit.2)
    (state : Tracked) (propagated : Bool) :
    (visits.foldl (propagateToSubset newKey newEntry explicit) (state, propagated)).1 =
      state.deleteVisited visits fun _ visited =>
        decide (visited.precedence < newEntry.precedence) := by
  induction visits generalizing state propagated with
  | nil => rfl
  | cons visit rest inductionHypothesis =>
    obtain ⟨here, later⟩ := forall_mem_cons.mp kept
    obtain ⟨flag, step⟩ : ∃ flag, propagateToSubset newKey newEntry explicit (state, propagated)
        visit = (if decide (visit.2.precedence < newEntry.precedence) then
          state.deleteExistingWithChanges visit.1 visit.2 else state, flag) := by
      unfold propagateToSubset overrideProxyPortForAuth overrideAuthRequirement
      by_cases lower : visit.2.precedence < newEntry.precedence
      · have unstated : visit.2.authRequirement.isExplicit = false := by
          rwa [NotOverridden, if_pos lower] at here
        exact ⟨propagated, by simp [lower, unstated]⟩
      · rw [NotOverridden, if_neg lower] at here
        simp only [lower, decide_false, Bool.false_eq_true, if_false, Bool.not_true]
        split
        case isTrue given =>
          simp only [Bool.and_eq_true, Bool.not_eq_true'] at given
          split
          · exact ⟨_, rfl⟩
          case isFalse other =>
            simp only [Bool.or_eq_true, not_or] at other
            rw [if_neg (not_not.mpr (((here given.1.2 given.2).resolve_left other.1).resolve_left
              other.2))]
            exact ⟨_, rfl⟩
        · exact ⟨_, rfl⟩
    rw [foldl_cons, step]
    exact inductionHypothesis later _ _

end Unelevated

end Tracked

end Constellation.Policy
