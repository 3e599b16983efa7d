/-
This file models the map state, the indexed container of policy keys and entries, and the
iterators over it. Besides the map of entries it keeps an index by the bits of a key, the trie,
and, if the rules need it, an index by identity. A map state carries the proof that both mirror
its entries, so that each iterator is characterised by the entries of the map that it visits.
-/

import Constellation.Lib.Index
import Constellation.Policy.Entry

namespace Constellation.Policy

open Lib List AList Index

abbrev IDSet := GoSet NumericIdentity

abbrev LPMKeys := GoSet LPMKey

theorem Key.mk_eq_iff (lpmKey : LPMKey) (id : NumericIdentity) (key : Key) :
    (⟨lpmKey, id⟩ : Key) = key ↔ lpmKey = key.lpmKey ∧ id = key.identity := by
  cases key
  exact iff_of_eq (Key.mk.injEq ..)

structure MapState where
  cluster : ClusterInfo
  entries : GoMap Key StateEntry
  trie : GoMap LPMKey IDSet
  byId : Option (GoMap NumericIdentity LPMKeys)
  trie_mirrors : ∀ lpmKey id, Index.Indexed trie lpmKey id ↔ (⟨lpmKey, id⟩ : Key) ∈ entries
  byId_mirrors : ∀ index ∈ byId, ∀ id lpmKey,
    Index.Indexed index id lpmKey ↔ (⟨lpmKey, id⟩ : Key) ∈ entries

structure PolicyFeatures where
  authRules : Bool
  denyRules : Bool
  redirectRules : Bool
  orderedRules : Bool
  passRules : Bool
  namedPortRules : Bool
  deriving DecidableEq, Repr

/-- Any feature under which entries can differ in precedence. -/
def PolicyFeatures.precedenceFeatures (features : PolicyFeatures) : Bool :=
  features.denyRules || features.redirectRules || features.orderedRules

namespace MapState

/-- The index by identity is kept for pass and named port rules only. -/
def newMapState (features : PolicyFeatures) (cluster : ClusterInfo) : MapState where
  cluster := cluster
  entries := ∅
  trie := ∅
  byId := if features.passRules || features.namedPortRules then some ∅ else none
  trie_mirrors _ _ := by simp [Index.Indexed]
  byId_mirrors index member _ _ := by
    split at member
    · cases member
      simp [Index.Indexed]
    · cases member

def get (ms : MapState) (key : Key) : Option StateEntry :=
  ms.entries.lookup key

/-- The indices change with a new key only. -/
def upsert (ms : MapState) (key : Key) (entry : StateEntry) : MapState :=
  if existing : key ∈ ms.entries then
    { ms with
      entries := ms.entries.insert key entry
      trie_mirrors := fun lpmKey id => by
        rw [ms.trie_mirrors, mem_insert, or_iff_right_of_imp]
        exact fun same => same ▸ existing
      byId_mirrors := fun index member id lpmKey => by
        rw [ms.byId_mirrors index member, mem_insert, or_iff_right_of_imp]
        exact fun same => same ▸ existing }
  else
    { ms with
      entries := ms.entries.insert key entry
      trie := insert ms.trie key.lpmKey key.identity ()
      byId := ms.byId.map fun index => insert index key.identity key.lpmKey ()
      trie_mirrors := fun lpmKey id => by
        rw [indexed_insert, ms.trie_mirrors, mem_insert, Key.mk_eq_iff]
      byId_mirrors := fun index member id lpmKey => by
        obtain ⟨previous, present, rfl⟩ := Option.map_eq_some_iff.mp member
        rw [indexed_insert, ms.byId_mirrors previous present, mem_insert, Key.mk_eq_iff, and_comm] }

def delete (ms : MapState) (key : Key) : MapState :=
  if key ∈ ms.entries then
    { ms with
      entries := ms.entries.erase key
      trie := erase ms.trie key.lpmKey key.identity
      byId := ms.byId.map fun index => erase index key.identity key.lpmKey
      trie_mirrors := fun lpmKey id => by
        rw [indexed_erase, ms.trie_mirrors, mem_erase, ne_eq, Key.mk_eq_iff]
      byId_mirrors := fun index member id lpmKey => by
        obtain ⟨previous, present, rfl⟩ := Option.map_eq_some_iff.mp member
        rw [indexed_erase, ms.byId_mirrors previous present, mem_erase, ne_eq,
          Key.mk_eq_iff, and_comm (a := lpmKey = key.lpmKey)] }
  else ms

/-- Only keys that have an entry are updated. -/
def updateExisting (ms : MapState) (key : Key) (entry : StateEntry) : MapState :=
  ms.upsert key entry

section Updates

variable (ms : MapState) (key : Key) (entry : StateEntry)

@[simp]
theorem upsert_entries : (ms.upsert key entry).entries = ms.entries.insert key entry := by
  unfold upsert
  split <;> rfl

@[simp]
theorem upsert_cluster : (ms.upsert key entry).cluster = ms.cluster := by
  unfold upsert
  split <;> rfl

@[simp]
theorem delete_cluster : (ms.delete key).cluster = ms.cluster := by
  unfold delete
  split <;> rfl

theorem get_newMapState (features : PolicyFeatures) (cluster : ClusterInfo) :
    (newMapState features cluster).get key = none :=
  lookup_empty key

theorem get_upsert (other : Key) :
    (ms.upsert key entry).get other = if other = key then some entry else ms.get other := by
  rw [get, upsert_entries, GoMap.lookup_insert_if]
  rfl

theorem get_delete (other : Key) :
    (ms.delete key).get other = if other = key then none else ms.get other := by
  unfold delete get
  split
  · exact GoMap.lookup_erase_if _ _ _
  case isFalse absent =>
    split
    case isTrue same =>
      subst same
      exact lookup_eq_none.mpr absent
    · rfl

end Updates

theorem mem_entries_iff {ms : MapState} {key : Key} :
    key ∈ ms.entries ↔ ∃ entry, ms.get key = some entry :=
  GoMap.mem_iff_lookup

/-! ### Iterators -/

section Iterators

variable (ms : MapState) (order : IterationOrder) (loop : Nat)

def trieNodes : List (LPMKey × IDSet) :=
  ms.trie.entries.map fun node => (node.1, node.2)

variable (lpmKey : LPMKey)

/-- From the shortest to the longest prefix. -/
def ancestorIterator : List (LPMKey × IDSet) :=
  (ms.trieNodes.filter fun node => node.1.IsAncestor lpmKey).insertionSort
    fun first second => first.1.prefixLength ≤ second.1.prefixLength

/-- From the longest to the shortest prefix. -/
def ancestorLongestPrefixFirstIterator : List (LPMKey × IDSet) :=
  (ms.trieNodes.filter fun node => node.1.IsAncestor lpmKey).insertionSort
    fun first second => second.1.prefixLength ≤ first.1.prefixLength

/-- In no particular order. -/
def descendantIterator : List (LPMKey × IDSet) :=
  order.visit loop (ms.trieNodes.filter fun node => lpmKey.IsAncestor node.1)

/-- From the shortest to the longest prefix. -/
def descendantShortestPrefixFirstIterator : List (LPMKey × IDSet) :=
  (ms.descendantIterator order loop lpmKey).insertionSort
    fun first second => first.1.prefixLength ≤ second.1.prefixLength

variable (key : Key)

def forKey : List (Key × StateEntry) :=
  (ms.get key).toList.map (Prod.mk key)

def forCoveredIDs (agg : NumericIdentity) (key : Key) (idSet : IDSet) :
    List (Key × StateEntry) :=
  (order.visit loop idSet.keys).flatMap fun id =>
    if aggregates ms.cluster agg id then ms.forKey (key.withIdentity id) else []

def forID (idSet : IDSet) : List (Key × StateEntry) :=
  if key.identity ∈ idSet then ms.forKey key else []

/-- The entries of the same or the aggregate identity with a broader or equal port and protocol. -/
def coveringBroaderOrEqualKeys : List (Key × StateEntry) :=
  let agg := aggregateFor ms.cluster key.identity
  (ms.ancestorIterator key.lpmKey).flatMap fun (lpmKey, idSet) =>
    ms.forID ⟨lpmKey, agg⟩ idSet ++
      if key.identity ≠ agg then ms.forID ⟨lpmKey, key.identity⟩ idSet else []

/-- For an aggregate also all the identities below it. -/
def broaderOrEqualKeys : List (Key × StateEntry) :=
  let agg := aggregateFor ms.cluster key.identity
  (ms.ancestorIterator key.lpmKey).flatMap fun (lpmKey, idSet) =>
    ms.forID ⟨lpmKey, agg⟩ idSet ++
      (if key.identity ≠ agg then ms.forID ⟨lpmKey, key.identity⟩ idSet else []) ++
      if key.identity = agg then ms.forCoveredIDs order loop agg ⟨lpmKey, agg⟩ idSet else []

/-- For an aggregate also those of an identity below it. -/
def coveredNarrowerOrEqualKeys : List (Key × StateEntry) :=
  let agg := aggregateFor ms.cluster key.identity
  (ms.descendantIterator order loop key.lpmKey).flatMap fun (lpmKey, idSet) =>
    if key.identity = agg then
      ms.forCoveredIDs order loop agg ⟨lpmKey, agg⟩ idSet ++ ms.forID ⟨lpmKey, agg⟩ idSet
    else ms.forID ⟨lpmKey, key.identity⟩ idSet

/-- For a specific identity also its aggregate. -/
def narrowerOrEqualKeys : List (Key × StateEntry) :=
  let wc := aggregateFor ms.cluster key.identity
  (ms.descendantIterator order loop key.lpmKey).flatMap fun (lpmKey, idSet) =>
    (if key.identity = wc then ms.forCoveredIDs order loop wc ⟨lpmKey, wc⟩ idSet else []) ++
      ms.forID ⟨lpmKey, key.identity⟩ idSet ++
      if key.identity ≠ wc then ms.forID ⟨lpmKey, wc⟩ idSet else []

/-- The most specific first. -/
def coveringKeysWithSameID : List (Key × StateEntry) :=
  (ms.ancestorLongestPrefixFirstIterator key.lpmKey).flatMap fun (lpmKey, idSet) =>
    ms.forID ⟨lpmKey, key.identity⟩ idSet

/-- The least specific first. -/
def subsetKeysWithSameID : List (Key × StateEntry) :=
  (ms.descendantShortestPrefixFirstIterator order loop key.lpmKey).flatMap
    fun (lpmKey, idSet) => ms.forID ⟨lpmKey, key.identity⟩ idSet

/-- The most specific first and on each level the same identity first. -/
def lpmAncestors : List (Key × StateEntry) :=
  let agg := aggregateFor ms.cluster key.identity
  (ms.ancestorLongestPrefixFirstIterator key.lpmKey).flatMap fun (lpmKey, idSet) =>
    ms.forID ⟨lpmKey, key.identity⟩ idSet ++
      if key.identity ≠ agg then ms.forID ⟨lpmKey, agg⟩ idSet else []

end Iterators

/-! ### What the iterators visit -/

section Visits

variable {ms : MapState} {order : IterationOrder} {loop : Nat} {key : Key} {node : LPMKey × IDSet}

theorem mem_trieNodes :
    node ∈ ms.trieNodes ↔ ms.trie.lookup node.1 = some node.2 := by
  unfold trieNodes
  rw [mem_map, ← Option.mem_def, mem_lookup_iff]
  constructor
  · rintro ⟨stored, member, rfl⟩
    exact member
  · exact fun member => ⟨_, member, rfl⟩

variable {lpmKey : LPMKey}

theorem mem_ancestorIterator :
    node ∈ ms.ancestorIterator lpmKey ↔
      ms.trie.lookup node.1 = some node.2 ∧ node.1.IsAncestor lpmKey := by
  simp [ancestorIterator, mem_trieNodes]

theorem mem_ancestorLongestPrefixFirstIterator :
    node ∈ ms.ancestorLongestPrefixFirstIterator lpmKey ↔
      ms.trie.lookup node.1 = some node.2 ∧ node.1.IsAncestor lpmKey := by
  simp [ancestorLongestPrefixFirstIterator, mem_trieNodes]

theorem mem_descendantIterator :
    node ∈ ms.descendantIterator order loop lpmKey ↔
      ms.trie.lookup node.1 = some node.2 ∧ lpmKey.IsAncestor node.1 := by
  simp [descendantIterator, mem_trieNodes]

theorem mem_descendantShortestPrefixFirstIterator :
    node ∈ ms.descendantShortestPrefixFirstIterator order loop lpmKey ↔
      ms.trie.lookup node.1 = some node.2 ∧ lpmKey.IsAncestor node.1 := by
  simp [descendantShortestPrefixFirstIterator, mem_descendantIterator]

variable {visited : Key × StateEntry} {idSet : IDSet}

theorem mem_forKey :
    visited ∈ ms.forKey key ↔ visited.1 = key ∧ ms.get key = some visited.2 := by
  obtain ⟨visitedKey, entry⟩ := visited
  simp only [forKey, mem_map, Option.mem_toList, Prod.mk.injEq]
  constructor
  · rintro ⟨found, member, same, rfl⟩
    exact ⟨same.symm, member⟩
  · rintro ⟨same, found⟩
    exact ⟨entry, found, same.symm, rfl⟩

/-- A visit to an entry of the map whose identity is listed at a node of the trie. -/
def Listed (ms : MapState) (node : LPMKey × IDSet) (visited : Key × StateEntry) : Prop :=
  visited.1.lpmKey = node.1 ∧ ms.get visited.1 = some visited.2 ∧ visited.1.identity ∈ node.2

theorem mem_forCoveredIDs {agg id : NumericIdentity} :
    visited ∈ ms.forCoveredIDs order loop agg ⟨node.1, id⟩ node.2 ↔ ms.Listed node visited ∧
      visited.1.identity ≠ agg ∧ aggregateFor ms.cluster visited.1.identity = agg := by
  simp only [forCoveredIDs, mem_flatMap, IterationOrder.mem_visit, ← AList.mem_keys]
  constructor
  · rintro ⟨id, member, visit⟩
    split at visit
    case isTrue below =>
      obtain ⟨same, found⟩ := mem_forKey.mp visit
      obtain ⟨differ, below⟩ := (aggregates_iff ..).mp below
      rw [Listed, same]
      exact ⟨⟨rfl, found, member⟩, differ.symm, below⟩
    · cases visit
  · rintro ⟨⟨level, found, member⟩, differ, below⟩
    refine ⟨visited.1.identity, member, ?_⟩
    rw [if_pos ((aggregates_iff ..).mpr ⟨differ.symm, below⟩)]
    have same : visited.1 = ⟨node.1, visited.1.identity⟩ :=
      ((Key.mk_eq_iff _ _ _).mpr ⟨level.symm, rfl⟩).symm
    exact mem_forKey.mpr ⟨same, same ▸ found⟩

/-- What is visited along a list of trie nodes. If a loop over nodes visits, at each node, the
entries of the listed identities that satisfy a condition, then altogether it visits the entries
of the map with a key part on one of the nodes and an identity that satisfies the condition. -/
theorem mem_flatMap_nodes (onNode : LPMKey → Prop) (wanted : NumericIdentity → Prop)
    {nodes : List (LPMKey × IDSet)}
    (listed : ∀ node, node ∈ nodes ↔ ms.trie.lookup node.1 = some node.2 ∧ onNode node.1)
    {visit : LPMKey × IDSet → List (Key × StateEntry)}
    (visits : ∀ node visited, visited ∈ visit node ↔
      ms.Listed node visited ∧ wanted visited.1.identity) (visited : Key × StateEntry) :
    visited ∈ nodes.flatMap visit ↔ ms.get visited.1 = some visited.2 ∧ onNode visited.1.lpmKey ∧
        wanted visited.1.identity := by
  rw [mem_flatMap]
  constructor
  · rintro ⟨node, member, visit⟩
    obtain ⟨⟨level, found, _⟩, selected⟩ := (visits node visited).mp visit
    exact ⟨found, level ▸ ((listed node).mp member).2, selected⟩
  · rintro ⟨found, above, selected⟩
    obtain ⟨idSet, stored, member⟩ :=
      (ms.trie_mirrors visited.1.lpmKey visited.1.identity).mpr (mem_entries_iff.mpr ⟨_, found⟩)
    exact ⟨(visited.1.lpmKey, idSet), (listed _).mpr ⟨stored, above⟩,
      (visits _ visited).mpr ⟨⟨rfl, found, member⟩, selected⟩⟩

theorem mem_forID {id : NumericIdentity} :
    visited ∈ ms.forID ⟨node.1, id⟩ node.2 ↔
      ms.Listed node visited ∧ visited.1.identity = id := by
  rw [forID, mem_ite_nil_right, mem_forKey]
  constructor
  · rintro ⟨member, same, found⟩
    rw [Listed, same]
    exact ⟨⟨rfl, found, member⟩, rfl⟩
  · rintro ⟨⟨level, found, member⟩, rfl⟩
    have whole : visited.1 = ⟨node.1, visited.1.identity⟩ :=
      ((Key.mk_eq_iff _ _ _).mpr ⟨level.symm, rfl⟩).symm
    exact ⟨member, whole, whole ▸ found⟩

theorem mem_coveringBroaderOrEqualKeys :
    visited ∈ ms.coveringBroaderOrEqualKeys key ↔
      ms.get visited.1 = some visited.2 ∧ visited.1.Covers ms.cluster key := by
  refine mem_flatMap_nodes (·.IsAncestor key.lpmKey)
    (fun id => id = key.identity ∨ id = aggregateFor ms.cluster key.identity)
    (fun _ => mem_ancestorIterator) (fun node visited => ?_) visited
  simp only [mem_append, mem_ite_nil_right, mem_forID,
    and_left_comm (b := ms.Listed node visited), ← and_or_left]
  by_cases specific : key.identity = aggregateFor ms.cluster key.identity
  · rw [← specific]
    tauto
  · tauto

theorem mem_broaderOrEqualKeys :
    visited ∈ ms.broaderOrEqualKeys order loop key ↔
      ms.get visited.1 = some visited.2 ∧ visited.1.lpmKey.IsAncestor key.lpmKey ∧
        (visited.1.identity = key.identity ∨
          visited.1.identity = aggregateFor ms.cluster key.identity ∨
          aggregateFor ms.cluster visited.1.identity = key.identity) := by
  refine mem_flatMap_nodes (·.IsAncestor key.lpmKey)
    (fun id => id = key.identity ∨ id = aggregateFor ms.cluster key.identity ∨
      aggregateFor ms.cluster id = key.identity)
    (fun _ => mem_ancestorIterator) (fun node visited => ?_) visited
  simp only [mem_append, mem_ite_nil_right, mem_forID, mem_forCoveredIDs,
    and_left_comm (b := ms.Listed node visited), ← and_or_left]
  refine and_congr_right fun _ => ⟨?_, ?_⟩
  · rintro ((same | ⟨_, same⟩) | ⟨aggregate, _, below⟩)
    · exact .inr (.inl same)
    · exact .inl same
    · exact .inr (.inr (below.trans aggregate.symm))
  · rintro (same | same | below)
    · by_cases specific : key.identity = aggregateFor ms.cluster key.identity
      · exact .inl (.inl (same.trans specific))
      · exact .inl (.inr ⟨specific, same⟩)
    · exact .inl (.inl same)
    · have aggregate : key.identity = aggregateFor ms.cluster key.identity := by
        rw [← below, aggregateFor_aggregateFor]
      by_cases same : visited.1.identity = aggregateFor ms.cluster key.identity
      · exact .inl (.inl same)
      · exact .inr ⟨aggregate, same, below.trans aggregate⟩

theorem mem_coveredNarrowerOrEqualKeys :
    visited ∈ ms.coveredNarrowerOrEqualKeys order loop key ↔
      ms.get visited.1 = some visited.2 ∧ key.Covers ms.cluster visited.1 := by
  refine mem_flatMap_nodes (key.lpmKey.IsAncestor ·)
    (fun id => key.identity = id ∨ key.identity = aggregateFor ms.cluster id)
    (fun _ => mem_descendantIterator) (fun node visited => ?_) visited
  show visited ∈ (if key.identity = aggregateFor ms.cluster key.identity then _ else _) ↔ _
  by_cases aggregate : key.identity = aggregateFor ms.cluster key.identity
  · rw [if_pos aggregate, mem_append, mem_forID, mem_forCoveredIDs, ← aggregate, ← and_or_left]
    refine and_congr_right fun _ => ⟨?_, fun selected => ?_⟩
    · rintro (⟨_, below⟩ | same)
      · exact .inr below.symm
      · exact .inl same.symm
    · by_cases same : visited.1.identity = key.identity
      · exact .inr same
      · exact .inl ⟨same, (selected.resolve_left (Ne.symm same)).symm⟩
  · rw [if_neg aggregate, mem_forID]
    refine and_congr_right fun _ => ⟨fun same => .inl same.symm, ?_⟩
    rintro (same | below)
    · exact same.symm
    · exact absurd (by rw [below, aggregateFor_aggregateFor]) aggregate

theorem mem_narrowerOrEqualKeys :
    visited ∈ ms.narrowerOrEqualKeys order loop key ↔
      ms.get visited.1 = some visited.2 ∧ key.lpmKey.IsAncestor visited.1.lpmKey ∧
        (key.identity = visited.1.identity ∨
          key.identity = aggregateFor ms.cluster visited.1.identity ∨
          visited.1.identity = aggregateFor ms.cluster key.identity) := by
  refine mem_flatMap_nodes (key.lpmKey.IsAncestor ·)
    (fun id => key.identity = id ∨ key.identity = aggregateFor ms.cluster id ∨
      id = aggregateFor ms.cluster key.identity)
    (fun _ => mem_descendantIterator) (fun node visited => ?_) visited
  simp only [mem_append, mem_ite_nil_right, mem_forID, mem_forCoveredIDs,
    and_left_comm (b := ms.Listed node visited), ← and_or_left]
  refine and_congr_right fun _ => ⟨?_, ?_⟩
  · rintro ((⟨aggregate, _, below⟩ | same) | ⟨_, same⟩)
    · exact .inr (.inl (aggregate.trans below.symm))
    · exact .inl same.symm
    · exact .inr (.inr same)
  · rintro (same | below | above)
    · exact .inl (.inr same.symm)
    · have aggregate : key.identity = aggregateFor ms.cluster key.identity := by
        rw [below, aggregateFor_aggregateFor]
      by_cases same : visited.1.identity = aggregateFor ms.cluster key.identity
      · exact .inl (.inr (same.trans aggregate.symm))
      · exact .inl (.inl ⟨aggregate, same, below.symm.trans aggregate⟩)
    · by_cases aggregate : key.identity = aggregateFor ms.cluster key.identity
      · exact .inl (.inr (above.trans aggregate.symm))
      · exact .inr ⟨aggregate, above⟩

theorem mem_coveringKeysWithSameID :
    visited ∈ ms.coveringKeysWithSameID key ↔
      ms.get visited.1 = some visited.2 ∧ visited.1.lpmKey.IsAncestor key.lpmKey ∧
        visited.1.identity = key.identity :=
  mem_flatMap_nodes (·.IsAncestor key.lpmKey) (· = key.identity)
    (fun _ => mem_ancestorLongestPrefixFirstIterator) (fun _ _ => mem_forID) visited

theorem mem_subsetKeysWithSameID :
    visited ∈ ms.subsetKeysWithSameID order loop key ↔
      ms.get visited.1 = some visited.2 ∧ key.lpmKey.IsAncestor visited.1.lpmKey ∧
        visited.1.identity = key.identity :=
  mem_flatMap_nodes (key.lpmKey.IsAncestor ·) (· = key.identity)
    (fun _ => mem_descendantShortestPrefixFirstIterator) (fun _ _ => mem_forID) visited

theorem mem_lpmAncestors :
    visited ∈ ms.lpmAncestors key ↔
      ms.get visited.1 = some visited.2 ∧ visited.1.lpmKey.IsAncestor key.lpmKey ∧
        (visited.1.identity = key.identity ∨
          visited.1.identity = aggregateFor ms.cluster key.identity) := by
  refine mem_flatMap_nodes (·.IsAncestor key.lpmKey)
    (fun id => id = key.identity ∨ id = aggregateFor ms.cluster key.identity)
    (fun _ => mem_ancestorLongestPrefixFirstIterator) (fun node visited => ?_) visited
  simp only [mem_append, mem_ite_nil_right, mem_forID,
    and_left_comm (b := ms.Listed node visited), ← and_or_left]
  by_cases specific : key.identity = aggregateFor ms.cluster key.identity
  · rw [← specific]
    tauto
  · tauto

end Visits

end MapState

end Constellation.Policy
