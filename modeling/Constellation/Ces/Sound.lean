/-
This file proves that the indices of the slim cache do not drift, as long as no node goes away or
comes back under the endpoints that are recorded on it. The cache forgets a node together with the
set of its endpoints, while the endpoints keep the node's name. In a run without this, no call
dereferences a missing entry, and every endpoint is in exactly the sets of its slice, its node and
its labels.
-/

import Constellation.Ces.Cache
import Constellation.Lib.Run

namespace Constellation.Ces

open Lib GoMap List Option AList SecIDs CESCacher

/-! ### Selected identities -/

def SecIDs.Selected (secIDs : SecIDs) : Prop :=
  secIDs.ids.keys ≠ [] → secIDs.selectedID ∈ secIDs.ids

abbrev EachSelected (sets : GoMap Labels SecIDs) : Prop := sets.Each Selected

namespace SecIDs

theorem selected_new : Selected {} := fun nonempty => absurd rfl nonempty

section

variable (order : IterationOrder) (secIDs : SecIDs) (cid : CID)
include order secIDs

theorem selected_setSelectedID_next :
    (secIDs.setSelectedID order "").1.Selected := by
  unfold setSelectedID
  rw [if_pos rfl]
  split
  case h_1 visited =>
    intro nonempty
    have permuted := order.visit_perm 1 secIDs.ids.keys
    rw [visited] at permuted
    exact absurd permuted.nil_eq.symm nonempty
  case h_2 nextID rest visited =>
    intro _
    have member : nextID ∈ order.visit 1 secIDs.ids.keys := by
      rw [visited]
      exact .head _
    exact (order.mem_visit 1 secIDs.ids.keys nextID).mp member

theorem setSelectedID_spec : (secIDs.setSelectedID order cid).1.ids = secIDs.ids ∧
    (secIDs.setSelectedID order cid).1.ceps = secIDs.ceps := by
  unfold setSelectedID
  split
  · split <;> exact ⟨rfl, rfl⟩
  · exact ⟨rfl, rfl⟩

theorem deleteID_spec : (secIDs.deleteID order cid).1.ids = secIDs.ids.erase cid ∧
    (secIDs.deleteID order cid).1.ceps = secIDs.ceps := by
  unfold deleteID
  dsimp only
  split
  · exact setSelectedID_spec order _ _
  · exact ⟨rfl, rfl⟩

theorem insertID_spec : (secIDs.insertID order cid).1.ids = secIDs.ids.insert cid () ∧
    (secIDs.insertID order cid).1.ceps = secIDs.ceps := by
  obtain ⟨ids, ceps⟩ := setSelectedID_spec order secIDs cid
  exact ⟨congrArg (·.insert cid ()) ids, ceps⟩

end

theorem Selected.deleteID {secIDs : SecIDs} (selected : secIDs.Selected) (order : IterationOrder)
    (cid : CID) : (secIDs.deleteID order cid).1.Selected := by
  unfold SecIDs.deleteID
  simp only
  split
  · exact selected_setSelectedID_next order _
  case isFalse differs =>
    intro nonempty
    obtain ⟨other, member⟩ := exists_mem_of_ne_nil _ nonempty
    have within : other ∈ secIDs.ids := (mem_erase.mp member).2
    exact mem_erase.mpr ⟨differs, selected (ne_nil_of_mem within)⟩

variable (order : IterationOrder) (secIDs : SecIDs) (cid : CID)

/-- Adding an identity with a name leaves one selected, whatever was selected before. -/
theorem selected_insertID {cid : CID} (named : cid ≠ "") :
    (secIDs.insertID order cid).1.Selected := by
  intro _
  unfold insertID setSelectedID
  rw [if_neg named, mem_insert]
  dsimp only
  by_cases kept : secIDs.selectedID ∈ secIDs.ids ∧ secIDs.selectedID ≠ ""
  · right
    rw [if_pos kept.1, if_pos kept.2]
    exact kept.1
  · left
    by_cases member : secIDs.selectedID ∈ secIDs.ids
    · have unnamed : secIDs.selectedID = "" := by
        by_contra named
        exact kept ⟨member, named⟩
      simp [unnamed]
    · simp [member]

end SecIDs

/-! ### Dropping label sets without state -/

variable {β : Type} (sets : GoMap Labels SecIDs) (gidLabels other : Labels)

/-- Dropping a label set without state drops nothing that is listed. -/
theorem lists_clean {field : SecIDs → GoSet β}
    (stateless : ∀ secIDs : SecIDs, secIDs.ceps.keys = [] → secIDs.ids.keys = [] →
      (field secIDs).keys = [])
    (sets : GoMap Labels SecIDs) (gidLabels other : Labels) (element : β) :
    Enlists field (cleanLabelsMapIfNoState sets gidLabels) other element ↔
      Enlists field sets other element := by
  unfold cleanLabelsMapIfNoState
  split
  · rfl
  case h_2 secIDs found =>
    split
    case isTrue bare =>
      rw [lists_erase, and_iff_right_iff_imp]
      rintro ⟨record, here, listed⟩ rfl
      obtain rfl := Option.some.inj (found.symm.trans here)
      rw [AList.mem_keys, stateless secIDs bare.1 bare.2] at listed
      cases listed
    · rfl

theorem lists_ceps_clean (cep : CEPName) :
    Enlists ceps (cleanLabelsMapIfNoState sets gidLabels) other cep ↔ Enlists ceps sets other cep :=
  lists_clean (fun _ none _ => none) sets gidLabels other cep

theorem lists_ids_clean (cid : CID) :
    Enlists ids (cleanLabelsMapIfNoState sets gidLabels) other cid ↔ Enlists ids sets other cid :=
  lists_clean (fun _ _ none => none) sets gidLabels other cid

variable {sets : GoMap Labels SecIDs} {gidLabels : Labels} {cesName : CESName} (config : SlimConfig)

section

variable (selected : EachSelected sets)
include selected

theorem EachSelected.clean (gidLabels : Labels) :
    EachSelected (cleanLabelsMapIfNoState sets gidLabels) := by
  unfold cleanLabelsMapIfNoState
  split
  · exact selected
  · split
    · exact selected.erase gidLabels
    · exact selected

theorem EachSelected.ensure (gidLabels : Labels) : EachSelected (sets.ensure gidLabels {}) := by
  unfold GoMap.ensure
  split
  · exact selected
  · exact selected.insert selected_new

end

/-! ### The indices of the cache -/

namespace CESCache

def nodeOf (cache : CESCache) (cepName : CEPName) : Option NodeName :=
  (cache.cepData.lookup cepName).map CEPData.node

def labelsOf (cache : CESCache) (cepName : CEPName) : Option Labels :=
  (cache.cepData.lookup cepName).map CEPData.labels

/-- The sets of endpoints and identities are those that the records of these ask for, and every
label set has an identity selected if it has one. -/
structure Sound (cache : CESCache) : Prop where
  slices : Filed (Enlists CESData.ceps cache.cesData) (fun _ => True) cache.getCESName
  nodes : Filed (Enlists NodeData.ceps cache.nodeData) (· ∈ cache.nodeData) cache.nodeOf
  labels : Filed (Enlists ceps cache.globalIdLabelsToCIDSet) (fun _ => True) cache.labelsOf
  identities : Filed (Enlists ids cache.globalIdLabelsToCIDSet) (fun _ => True)
    cache.cidToGidLabels.lookup
  selected : EachSelected cache.globalIdLabelsToCIDSet

theorem sound_empty : Sound {} := by
  refine ⟨?_, ?_, ?_, ?_, fun _ _ found => nomatch found⟩
  all_goals
    exact fun _ _ => ⟨fun ⟨_, found, _⟩ => (nomatch found), fun ⟨_, found⟩ => (nomatch found)⟩

variable {cache : CESCache}

/-! ### Filing an endpoint -/

/-- The endpoint is in none of the sets it does not belong to any more, and everything else is as
before. -/
structure Cleared (cache cleared : CESCache) (cepName : CEPName) (nodeName : NodeName)
    (gidLabels : Labels) (cesName : CESName) : Prop where
  cepData : cleared.cepData = cache.cepData
  cidToGidLabels : cleared.cidToGidLabels = cache.cidToGidLabels
  hasCES : ∀ ces, ces ∈ cleared.cesData ↔ ces ∈ cache.cesData
  hasNode : ∀ node, node ∈ cleared.nodeData ↔ node ∈ cache.nodeData
  slices : ∀ ces cep, Enlists CESData.ceps cleared.cesData ces cep ↔
    Enlists CESData.ceps cache.cesData ces cep ∧ (cep = cepName → ces = cesName)
  nodes : ∀ node cep, Enlists NodeData.ceps cleared.nodeData node cep ↔
    Enlists NodeData.ceps cache.nodeData node cep ∧ (cep = cepName → node = nodeName)
  labels : ∀ labels cep, Enlists ceps cleared.globalIdLabelsToCIDSet labels cep ↔
    Enlists ceps cache.globalIdLabelsToCIDSet labels cep ∧ (cep = cepName → labels = gidLabels)
  ids : ∀ labels cid, Enlists ids cleared.globalIdLabelsToCIDSet labels cid ↔
    Enlists ids cache.globalIdLabelsToCIDSet labels cid
  selected : EachSelected cleared.globalIdLabelsToCIDSet

theorem recorded {cepName : CEPName} {data : CEPData}
    (found : cache.cepData.lookup cepName = some data) :
    cache.getCESName cepName = some data.ces ∧ cache.nodeOf cepName = some data.node ∧
      cache.labelsOf cepName = some data.labels := by
  rw [getCESName, nodeOf, labelsOf, found]
  exact ⟨rfl, rfl, rfl⟩

theorem mem_leave_result {κ α : Type} [DecidableEq κ] {map cleared : GoMap κ α} {old new : κ}
    {change : α → α} (result : cleared = if old ≠ new then map.modify old change else map)
    (key : κ) :
    key ∈ cleared ↔ key ∈ map := by
  rw [result]
  split
  · exact mem_modify
  · rfl

/-- Clearing the stale state of an endpoint follows no missing entry if the endpoint's old node is
known, or is its new one. -/
theorem Sound.clearStaleState (sound : cache.Sound) (cepName : CEPName) (nodeName : NodeName)
    (gidLabels : Labels) (cesName : CESName)
    (known : ∀ old, cache.nodeOf cepName = some old → old ≠ nodeName → old ∈ cache.nodeData) :
    ∃ cleared, cache.clearStaleState cepName nodeName gidLabels cesName = some cleared ∧
      Cleared cache cleared cepName nodeName gidLabels cesName := by
  unfold CESCache.clearStaleState
  cases found : cache.cepData.lookup cepName with
  | none =>
    exact ⟨cache, rfl, rfl, rfl, fun _ => .rfl, fun _ => .rfl,
      sound.slices.left_of_unowned (by rw [getCESName, found]; rfl),
      sound.nodes.left_of_unowned (by rw [nodeOf, found]; rfl),
      sound.labels.left_of_unowned (by rw [labelsOf, found]; rfl), fun _ _ => .rfl,
      sound.selected⟩
  | some old =>
    obtain ⟨inCES, onNode, withLabels⟩ := recorded found
    obtain ⟨cesData, cesLeft, cesResult, ces⟩ := leave_of_filed sound.slices inCES
      (fun _ => trivial : old.ces ≠ cesName → True) (CESData.deleteCEP cepName) fun _ => rfl
    obtain ⟨nodeData, nodeLeft, nodeResult, nodes⟩ := leave_of_filed sound.nodes onNode
      (known old.node onNode) (NodeData.deleteCEP cepName) fun _ => rfl
    obtain ⟨sets, setsLeft, setsResult, labels⟩ := leave_of_filed sound.labels withLabels
      (fun _ => trivial : old.labels ≠ gidLabels → True) (SecIDs.deleteCEP cepName) fun _ => rfl
    simp only [cesLeft, nodeLeft, setsLeft]
    refine ⟨_, rfl, rfl, rfl, mem_leave_result cesResult, mem_leave_result nodeResult, ces, nodes,
      ?_, ?_, ?_⟩
    · intro other cep
      rw [← labels]
      split
      · exact lists_ceps_clean sets old.labels other cep
      · rfl
    · intro other cid
      have same : Enlists ids sets other cid ↔
          Enlists ids cache.globalIdLabelsToCIDSet other cid := by
        rw [setsResult]
        split
        · exact lists_modify_of_eq (SecIDs.deleteCEP cepName) (fun _ => rfl) other cid
        · rfl
      rw [← same]
      split
      · exact lists_ids_clean sets old.labels other cid
      · rfl
    · have still : EachSelected sets := by
        rw [setsResult]
        split
        · exact sound.selected.modify fun _ _ kept => kept
        · exact sound.selected
      split
      · exact still.clean old.labels
      · exact still

variable {nodeName : NodeName} {secIDs : SecIDs}

/-- Filing an endpoint keeps the indices sound. The slice has to exist; the old node of the endpoint
has to be known, or be the new one; and a node that is learned from the endpoint must not be the
node of any other endpoint. -/
theorem Sound.updateCEPInCache (sound : cache.Sound) {cepName : CEPName} (gidLabels : Labels)
    (slice : cesName ∈ cache.cesData)
    (known : ∀ old, cache.nodeOf cepName = some old → old ≠ nodeName → old ∈ cache.nodeData)
    (unowned : nodeName ∉ cache.nodeData → ∀ cep, cep ≠ cepName →
      cache.nodeOf cep ≠ some nodeName) :
    ∃ next, cache.updateCEPInCache cepName nodeName gidLabels cesName = some next ∧
      next.Sound := by
  obtain ⟨cleared, result, clear⟩ := sound.clearStaleState cepName nodeName gidLabels cesName known
  have cesThere := (clear.hasCES cesName).mpr slice
  have nodeThere : nodeName ∈ cleared.nodeData.ensure nodeName {} := mem_ensure.mpr (.inl rfl)
  have setThere : gidLabels ∈ cleared.globalIdLabelsToCIDSet.ensure gidLabels {} :=
    mem_ensure.mpr (.inl rfl)
  unfold CESCache.updateCEPInCache
  simp only [result, bind_eq_bind, bind_some, adjust_of_mem cesThere,
    adjust_of_mem nodeThere, adjust_of_mem setThere, clear.cepData]
  have owns : ∀ (part : CEPData → String) (cep : CEPName),
      ((cache.cepData.insert cepName ⟨cesName, nodeName, gidLabels⟩).lookup cep).map part =
        if cep = cepName then some (part ⟨cesName, nodeName, gidLabels⟩)
        else (cache.cepData.lookup cep).map part := by
    intro part cep
    rw [lookup_insert_if]
    split <;> rfl
  refine ⟨_, rfl, ?_, ?_, ?_, ?_, ?_⟩
  · exact sound.slices.refile clear.slices
      (lists_modify_insert cesThere (CESData.insertCEP cepName) fun _ => rfl)
      (fun _ => (or_true _).to_iff.symm) (fun unknown => absurd trivial unknown) (owns CEPData.ces)
  · refine sound.nodes.refile clear.nodes ?_ ?_ unowned (owns CEPData.node)
    · intro node cep
      refine (lists_modify_insert nodeThere (NodeData.insertCEP cepName) (fun _ => rfl) node
        cep).trans ?_
      exact or_congr_right (lists_ensure NodeData.ceps _ _ rfl node cep)
    · intro node
      rw [mem_modify, mem_ensure, clear.hasNode]
  · refine sound.labels.refile clear.labels ?_ (fun _ => (or_true _).to_iff.symm)
      (fun unknown => absurd trivial unknown) (owns CEPData.labels)
    intro labels cep
    refine (lists_modify_insert setThere (insertCEP cepName) (fun _ => rfl) labels cep).trans ?_
    exact or_congr_right (lists_ensure ceps _ _ rfl labels cep)
  · refine sound.identities.congr ?_ (fun _ => .rfl) fun _ => ?_
    · intro labels cid
      refine (lists_modify_of_eq (insertCEP cepName) (fun _ => rfl) labels cid).trans ?_
      rw [← clear.ids]
      exact lists_ensure ids _ _ rfl labels cid
    · rw [clear.cidToGidLabels]
  · exact (clear.selected.ensure gidLabels).modify fun _ _ kept => kept

/-- Dropping an endpoint keeps the indices sound: its slice is there, and the other sets are looked
up before they are used. -/
theorem Sound.deleteCEP (sound : cache.Sound) (cepName : CEPName) :
    ∃ next, cache.deleteCEP cepName = some next ∧ next.Sound := by
  unfold CESCache.deleteCEP
  cases found : cache.cepData.lookup cepName with
  | none => exact ⟨cache, rfl, sound⟩
  | some old =>
    obtain ⟨inCES, onNode, withLabels⟩ := recorded found
    have inSlice := (sound.slices old.ces cepName).mpr ⟨trivial, inCES⟩
    simp only [adjust_of_mem inSlice.mem, bind_eq_bind, bind_some]
    have owns : ∀ (part : CEPData → String) (cep : CEPName),
        ((cache.cepData.erase cepName).lookup cep).map part =
          if cep = cepName then none else (cache.cepData.lookup cep).map part := by
      intro part cep
      rw [lookup_erase_if]
      split <;> rfl
    refine ⟨_, rfl, ?_, ?_, ?_, ?_, ?_⟩
    · exact sound.slices.dropOwned inCES
        (lists_modify_erase (CESData.deleteCEP cepName) fun _ => rfl) (fun _ => .rfl)
        (owns CEPData.ces)
    · exact sound.nodes.dropOwned onNode
        (lists_modify_erase (NodeData.deleteCEP cepName) fun _ => rfl) (fun _ => mem_modify)
        (owns CEPData.node)
    · refine sound.labels.dropOwned withLabels ?_ (fun _ => .rfl) (owns CEPData.labels)
      intro labels cep
      exact (lists_ceps_clean _ _ labels cep).trans
        (lists_modify_erase (SecIDs.deleteCEP cepName) (fun _ => rfl) labels cep)
    · refine sound.identities.congr ?_ (fun _ => .rfl) fun _ => rfl
      intro labels cid
      exact (lists_ids_clean _ _ labels cid).trans
        (lists_modify_of_eq (SecIDs.deleteCEP cepName) (fun _ => rfl) labels cid)
    · refine EachSelected.clean ?_ old.labels
      exact sound.selected.modify fun _ _ kept => kept

/-! ### Slices -/

/-- Making a slice, or giving it another namespace, leaves the endpoints in slices as they are. -/
theorem insertCES_spec (cache : CESCache) (cesName : CESName) (ns : String) :
    ∃ cesData nsData, cache.insertCES cesName ns = { cache with cesData, nsData } ∧
      cesName ∈ cesData ∧ ∀ ces cep, Enlists CESData.ceps cesData ces cep ↔
        Enlists CESData.ceps cache.cesData ces cep := by
  unfold insertCES
  cases found : cache.cesData.lookup cesName with
  | none =>
    exact ⟨_, _, rfl, (mem_insert _).mpr (.inl rfl), lists_insert_of_iff (by simp [Enlists, found])⟩
  | some cesData =>
    by_cases changed : cesData.ns ≠ ns
    · simp only [if_pos changed]
      exact ⟨_, _, rfl, (mem_insert _).mpr (.inl rfl),
        lists_insert_of_iff (by simp [Enlists, found])⟩
    · simp only [if_neg changed]
      exact ⟨_, _, rfl, mem_of_lookup found, fun _ _ => .rfl⟩

theorem Sound.insertCES (sound : cache.Sound) (cesName : CESName) (ns : String) :
    (cache.insertCES cesName ns).Sound := by
  obtain ⟨cesData, nsData, result, -, same⟩ := insertCES_spec cache cesName ns
  rw [result]
  exact ⟨sound.slices.congr same (fun _ => .rfl) fun _ => rfl, sound.nodes, sound.labels,
    sound.identities, sound.selected⟩

theorem Sound.deleteCES (sound : cache.Sound)
    (unlisted : ∀ cep, ¬ Enlists CESData.ceps cache.cesData cesName cep) :
    (cache.deleteCES cesName).Sound := by
  refine ⟨?_, sound.nodes, sound.labels, sound.identities, sound.selected⟩
  refine sound.slices.congr (fun ces cep => ?_) (fun _ => .rfl) fun _ => rfl
  refine (lists_erase _ _ _ _).trans (and_iff_right_of_imp ?_)
  rintro listed rfl
  exact unlisted cep listed

theorem not_lists_of_countCEPsInCES {ces : CESName} (empty : cache.countCEPsInCES ces = 0)
    (cep : CEPName) : ¬ Enlists CESData.ceps cache.cesData ces cep := by
  rintro ⟨cesData, found, listed⟩
  unfold countCEPsInCES at empty
  rw [found] at empty
  rw [AList.mem_keys, eq_nil_of_length_eq_zero empty] at listed
  cases listed

/-! ### Nodes -/

/-- A node is learned, or its record is replaced by one with the same endpoints, while it owns no
endpoint it was not known for. -/
theorem Sound.withNode (sound : cache.Sound) {nodeData : NodeData}
    (same : ∀ cep, cep ∈ nodeData.ceps ↔ Enlists NodeData.ceps cache.nodeData nodeName cep)
    (unowned : nodeName ∉ cache.nodeData → ∀ cep, cache.nodeOf cep ≠ some nodeName) :
    { cache with nodeData := cache.nodeData.insert nodeName nodeData }.Sound := by
  refine ⟨sound.slices, ?_, sound.labels, sound.identities, sound.selected⟩
  exact sound.nodes.learn (lists_insert_of_iff same) (fun _ => mem_insert _) unowned

theorem Sound.insertNode (sound : cache.Sound) (order : IterationOrder)
    (encryptionKey : EncryptionKey)
    (unowned : nodeName ∉ cache.nodeData → ∀ cep, cache.nodeOf cep ≠ some nodeName) :
    (cache.insertNode order nodeName encryptionKey).1.Sound := by
  unfold CESCache.insertNode
  cases found : cache.nodeData.lookup nodeName with
  | none => exact sound.withNode (by simp [Enlists, found, NodeData.setEncryptionKey]) unowned
  | some nodeData =>
    simp only
    split
    · exact sound.withNode (by simp [Enlists, found, NodeData.setEncryptionKey]) unowned
    · exact sound

theorem Sound.deleteNode (sound : cache.Sound) (order : IterationOrder) (nodeName : NodeName) :
    (cache.deleteNode order nodeName).1.Sound := by
  unfold CESCache.deleteNode
  split
  · refine ⟨sound.slices, ?_, sound.labels, sound.identities, sound.selected⟩
    exact sound.nodes.forget (lists_erase _ _) fun _ => mem_erase
  · exact sound

/-! ### Identities -/

/-- Taking an identity out of the label set it is in keeps the endpoints of label sets, and takes
the identity out of the identities of that set only. -/
theorem withdrawCID_lists (cache : CESCache) (order : IterationOrder)
    (found : cache.globalIdLabelsToCIDSet.lookup gidLabels = some secIDs) (cid : CID) :
    let next := (cache.withdrawCID order gidLabels secIDs cid).1
    (∀ labels cep, Enlists ceps next.globalIdLabelsToCIDSet labels cep ↔
        Enlists ceps cache.globalIdLabelsToCIDSet labels cep) ∧
      ∀ labels id, Enlists ids next.globalIdLabelsToCIDSet labels id ↔
        ¬ (labels = gidLabels ∧ id = cid) ∧ Enlists ids cache.globalIdLabelsToCIDSet labels id := by
  obtain ⟨remainingIDs, sameCEPs⟩ := deleteID_spec order secIDs cid
  refine ⟨fun labels cep => ?_, fun labels id => ?_⟩
  · refine (lists_ceps_clean _ _ labels cep).trans (lists_insert_of_iff ?_ labels cep)
    simp [Enlists, found, sameCEPs]
  · refine (lists_ids_clean _ _ labels id).trans ((lists_insert _ _ _ _ _).trans ?_)
    split
    case isTrue same =>
      subst same
      simp [Enlists, found, remainingIDs, mem_erase]
    case isFalse differs => simp [differs]

section

variable (sound : cache.Sound) (order : IterationOrder)
include sound order

theorem Sound.selected_withdrawCID
    (found : cache.globalIdLabelsToCIDSet.lookup gidLabels = some secIDs) (cid : CID) :
    EachSelected (cache.withdrawCID order gidLabels secIDs cid).1.globalIdLabelsToCIDSet :=
  EachSelected.clean
    (sound.selected.insert ((sound.selected gidLabels secIDs found).deleteID order cid)) gidLabels

/-- An identity that is filed under new labels follows no missing entry: its old label set is
there. -/
theorem Sound.clearStaleCID (cid : CID) (gidLabels : Labels) :
    ∃ cleared keys, cache.clearStaleCID order cid gidLabels = some (cleared, keys) ∧
      (cleared.cepData = cache.cepData ∧ cleared.cesData = cache.cesData ∧
        cleared.nodeData = cache.nodeData ∧ cleared.cidToGidLabels = cache.cidToGidLabels) ∧
      (∀ labels cep, Enlists ceps cleared.globalIdLabelsToCIDSet labels cep ↔
        Enlists ceps cache.globalIdLabelsToCIDSet labels cep) ∧
      (∀ labels id, Enlists ids cleared.globalIdLabelsToCIDSet labels id ↔
        Enlists ids cache.globalIdLabelsToCIDSet labels id ∧ (id = cid → labels = gidLabels)) ∧
      EachSelected cleared.globalIdLabelsToCIDSet := by
  have owner : ∀ {labels id}, Enlists ids cache.globalIdLabelsToCIDSet labels id →
      cache.cidToGidLabels.lookup id = some labels :=
    fun listed => ((sound.identities _ _).mp listed).2
  unfold CESCache.clearStaleCID
  cases found : cache.cidToGidLabels.lookup cid with
  | none =>
    exact ⟨cache, [], rfl, ⟨rfl, rfl, rfl, rfl⟩, fun _ _ => .rfl,
      sound.identities.left_of_unowned found, sound.selected⟩
  | some oldLabels =>
    have inSet := (sound.identities oldLabels cid).mpr ⟨trivial, found⟩
    simp only
    split
    case isFalse same =>
      refine ⟨cache, [], rfl, ⟨rfl, rfl, rfl, rfl⟩, fun _ _ => .rfl, fun labels id => ?_,
        sound.selected⟩
      refine (and_iff_left_of_imp ?_).symm
      rintro listed rfl
      rw [owner listed] at found
      rw [Option.some.inj found]
      exact not_not.mp same
    case isTrue differs =>
      obtain ⟨secIDs, there, -⟩ := inSet
      obtain ⟨ceps, ids⟩ := withdrawCID_lists cache order there cid
      rw [there]
      refine ⟨_, _, rfl, ⟨rfl, rfl, rfl, rfl⟩, ceps, fun labels id => ?_,
        sound.selected_withdrawCID order there cid⟩
      refine (ids labels id).trans ?_
      constructor
      · rintro ⟨notHere, listed⟩
        refine ⟨listed, ?_⟩
        rintro rfl
        rw [owner listed] at found
        exact absurd ⟨Option.some.inj found, rfl⟩ notHere
      · rintro ⟨listed, stays⟩
        refine ⟨?_, listed⟩
        rintro ⟨rfl, rfl⟩
        exact differs (stays rfl)

theorem Sound.insertCID {cid : CID} (gidLabels : Labels) (named : cid ≠ "") :
    ∃ next keys, cache.insertCID order cid gidLabels = some (next, keys) ∧ next.Sound := by
  obtain ⟨cleared, keys, result, ⟨cepData, cesData, nodeData, cids⟩, ceps, ids, selected⟩ :=
    sound.clearStaleCID order cid gidLabels
  unfold CESCache.insertCID
  simp only [result, bind_eq_bind, bind_some]
  refine ⟨_, _, rfl, ?_, ?_, ?_, ?_, selected.insert (selected_insertID order _ named)⟩
  · show Filed (Enlists _ cleared.cesData) _ (fun cep => (cleared.cepData.lookup cep).map _)
    rw [cesData, cepData]
    exact sound.slices
  · show Filed (Enlists _ cleared.nodeData) (· ∈ cleared.nodeData)
      (fun cep => (cleared.cepData.lookup cep).map _)
    rw [nodeData, cepData]
    exact sound.nodes
  · refine sound.labels.congr (fun labels cep => ?_) (fun _ => .rfl) fun cep => ?_
    · rw [← ceps labels cep]
      refine lists_insert_of_iff (fun cep => ?_) labels cep
      rw [(insertID_spec order _ cid).2]
      cases found : cleared.globalIdLabelsToCIDSet.lookup gidLabels <;> simp [Enlists, found]
    · show (cleared.cepData.lookup cep).map _ = _
      rw [cepData]
      rfl
  · refine sound.identities.refile ids ?_ (fun _ => (or_true _).to_iff.symm)
      (fun unknown => absurd trivial unknown) ?_
    · intro labels id
      refine (lists_insert _ _ _ _ _).trans ?_
      split
      case isTrue same =>
        subst same
        rw [(insertID_spec order _ cid).1, mem_insert]
        cases found : cleared.globalIdLabelsToCIDSet.lookup labels <;> simp [Enlists, found]
      case isFalse differs => simp [differs]
    · intro other
      rw [lookup_insert_if, cids]

theorem Sound.deleteCID (cid : CID) :
    (cache.deleteCID order cid).1.Sound := by
  unfold CESCache.deleteCID
  cases found : cache.cidToGidLabels.lookup cid with
  | none => exact sound
  | some gidLabels =>
    obtain ⟨secIDs, there, -⟩ := (sound.identities gidLabels cid).mpr ⟨trivial, found⟩
    simp only [there]
    let erased : CESCache := { cache with cidToGidLabels := cache.cidToGidLabels.erase cid }
    obtain ⟨ceps, ids⟩ := withdrawCID_lists erased order there cid
    refine ⟨sound.slices, sound.nodes, ?_, ?_, sound.selected_withdrawCID order there cid⟩
    · exact sound.labels.congr ceps (fun _ => .rfl) fun _ => rfl
    · exact sound.identities.dropOwned found ids (fun _ => .rfl) fun _ => lookup_erase_if _ _ _

end

end CESCache

/-! ### The slice of a pod -/

/-- The search for a slice with room ends with the one it started from or with a slice of the
namespace that it visited. -/
theorem largestAvailable_cases {μ : Type} [CESCacher μ] (mapping : μ) (ns : String)
    (maxCEPsInCES : Int) (visits : List CESName) (largestCEPCount : Nat) (selectedCES : CESName) :
    let found := largestAvailable mapping ns maxCEPsInCES visits largestCEPCount selectedCES
    found = selectedCES ∨ (found ∈ visits ∧ getCESNamespace mapping found = ns) := by
  induction visits generalizing largestCEPCount selectedCES with
  | nil => exact .inl rfl
  | cons ces rest inductionHypothesis =>
    simp only [largestAvailable]
    split
    case isTrue better =>
      split
      · exact .inr ⟨.head _, better.2.2⟩
      · right
        rcases inductionHypothesis (countCEPsInCES mapping ces) ces with
          same | ⟨later, inNs⟩
        · rw [same]
          exact ⟨.head _, better.2.2⟩
        · exact ⟨mem_cons_of_mem ces later, inNs⟩
    · rcases inductionHypothesis largestCEPCount selectedCES with same | ⟨later, inNs⟩
      · exact .inl same
      · exact .inr ⟨mem_cons_of_mem ces later, inNs⟩

theorem getLargestAvailableCESForNamespace_cases {μ : Type} [CESCacher μ] (order : IterationOrder)
    (mapping : μ) (ns : String) (maxCEPsInCES : Int) :
    let found := getLargestAvailableCESForNamespace order mapping ns maxCEPsInCES
    found = "" ∨ (found ∈ getAllCESs mapping ∧ getCESNamespace mapping found = ns) := by
  rcases largestAvailable_cases mapping ns maxCEPsInCES
    (order.visit 0 (getAllCESs mapping)) 0 "" with none | ⟨visited, inNs⟩
  · exact .inl none
  · exact .inr ⟨(order.mem_visit 0 _ _).mp visited, inNs⟩

namespace CESCache

variable {cache : CESCache} (order : IterationOrder)

/-- The slice of a pod is the one its endpoint is in, or one of its namespace, or a new one. -/
theorem upsertPodIntoCES_cases (names : NameSource) (cache : CESCache) (pod : Pod) :
    (∃ ces, cache.getCESName (getCEPNameFromPod pod) = some ces ∧
        cache.upsertPodIntoCES config order names pod = (cache, ces)) ∨
      (cache.getCESName (getCEPNameFromPod pod) = none ∧
        ((∃ ces ∈ cache.cesData, cache.getCESNamespace ces = pod.ns ∧
            cache.upsertPodIntoCES config order names pod = (cache, ces)) ∨
          ∃ ces, ces ∉ cache.cesData ∧ cache.upsertPodIntoCES config order names pod =
            (cache.insertCES ces pod.ns, ces))) := by
  unfold upsertPodIntoCES
  cases mapped : cache.getCESName (getCEPNameFromPod pod) with
  | some ces => exact .inl ⟨ces, rfl, rfl⟩
  | none =>
    refine .inr ⟨rfl, ?_⟩
    simp only
    split
    · exact .inr ⟨_, names.fresh cache.cesData.keys, rfl⟩
    case isFalse some =>
      rcases getLargestAvailableCESForNamespace_cases order cache pod.ns config.maxCEPsInCES with
        none | ⟨there, inNs⟩
      · exact absurd none some
      · exact .inl ⟨_, there, inNs, rfl⟩

/-- The slice of a pod is there when the pod is filed, and finding it changes slices only. -/
theorem Sound.upsertPodIntoCES (sound : cache.Sound) (config : SlimConfig) (order : IterationOrder)
    (names : NameSource) (pod : Pod) :
    let upserted := cache.upsertPodIntoCES config order names pod
    upserted.1.Sound ∧ upserted.2 ∈ upserted.1.cesData ∧ upserted.1.nodeData = cache.nodeData ∧
      upserted.1.nodeOf = cache.nodeOf := by
  rcases upsertPodIntoCES_cases config order names cache pod with
    ⟨ces, mapped, result⟩ | ⟨-, ⟨ces, there, -, result⟩ | ⟨ces, -, result⟩⟩
  · rw [result]
    have listed := (sound.slices ces (getCEPNameFromPod pod)).mpr ⟨trivial, mapped⟩
    exact ⟨sound, listed.mem, rfl, rfl⟩
  · rw [result]
    exact ⟨sound, there, rfl, rfl⟩
  · have inserted := sound.insertCES ces pod.ns
    obtain ⟨cesData, nsData, made, there, -⟩ := insertCES_spec cache ces pod.ns
    rw [result]
    rw [made] at inserted ⊢
    exact ⟨inserted, there, rfl, rfl⟩

/-! ### Calls and runs -/

/-- A call does not move an endpoint off a forgotten node, nor learn a node that endpoints are
already recorded on, and every identity has a name. -/
def KeepsNodes (cache : CESCache) : SlimCall → Prop
  | .addPodMapping pod nodeName _ =>
    (∀ old ∈ cache.nodeOf (getCEPNameFromPod pod), old ≠ nodeName → old ∈ cache.nodeData) ∧
      (nodeName ∉ cache.nodeData → ∀ cep ∈ cache.cepData.keys, cep ≠ getCEPNameFromPod pod →
        cache.nodeOf cep ≠ some nodeName)
  | .updateNodeMapping node =>
    node.name ∉ cache.nodeData → ∀ cep ∈ cache.cepData.keys, cache.nodeOf cep ≠ some node.name
  | .updateIdentityMapping id => id.name ≠ ""
  | _ => True

instance (cache : CESCache) (call : SlimCall) : Decidable (cache.KeepsNodes call) := by
  cases call <;> delta KeepsNodes <;> infer_instance

theorem mem_of_nodeOf {cep : CEPName} {node : NodeName} (recorded : cache.nodeOf cep = some node) :
    cep ∈ cache.cepData.keys := by
  obtain ⟨data, found, -⟩ := map_eq_some_iff.mp recorded
  exact mem_of_lookup found

/-- Every endpoint is in the set of its slice, of its node if the node is known, and of its labels,
and in no other set of the same kind; and every label set with an identity has one of its identities
selected. -/
structure Consistent (cache : CESCache) : Prop where
  slices : ∀ ces cep, Enlists CESData.ceps cache.cesData ces cep ↔ cache.getCESName cep = some ces
  nodes : ∀ node cep, Enlists NodeData.ceps cache.nodeData node cep ↔
    node ∈ cache.nodeData ∧ cache.nodeOf cep = some node
  labels : ∀ labels cep, Enlists ceps cache.globalIdLabelsToCIDSet labels cep ↔
    cache.labelsOf cep = some labels
  selected : EachSelected cache.globalIdLabelsToCIDSet

variable (sound : cache.Sound)
include sound

theorem Sound.consistent : cache.Consistent where
  slices ces cep := (sound.slices ces cep).trans (and_iff_right trivial)
  nodes := sound.nodes
  labels labels cep := (sound.labels labels cep).trans (and_iff_right trivial)
  selected := sound.selected

theorem Sound.addPodMapping (names : NameSource) {pod : Pod} {nodeName : NodeName}
    {cidKey : Labels} (keeps : cache.KeepsNodes (.addPodMapping pod nodeName cidKey)) :
    ∃ next keys, cache.addPodMapping config order names pod nodeName cidKey = some (next, keys) ∧
      next.Sound := by
  obtain ⟨upserted, slice, nodeData, nodeOf⟩ :=
    sound.upsertPodIntoCES config order names pod
  let before := (cache.upsertPodIntoCES config order names pod).1
  have known : ∀ old, before.nodeOf (getCEPNameFromPod pod) = some old → old ≠ nodeName →
      old ∈ before.nodeData := by
    rw [nodeOf, nodeData]
    exact keeps.1
  have unowned : nodeName ∉ before.nodeData → ∀ cep, cep ≠ getCEPNameFromPod pod →
      before.nodeOf cep ≠ some nodeName := by
    rw [nodeOf, nodeData]
    exact fun unknown cep differs recorded =>
      keeps.2 unknown cep (mem_of_nodeOf recorded) differs recorded
  obtain ⟨next, result, nextSound⟩ := upserted.updateCEPInCache cidKey slice known unowned
  refine ⟨next, [⟨(cache.upsertPodIntoCES config order names pod).2, pod.ns⟩], ?_, nextSound⟩
  unfold CESCache.addPodMapping addCEP
  simp only [result, map_some]

theorem Sound.removePodMapping (pod : Pod) :
    ∃ next keys, cache.removePodMapping pod = some (next, keys) ∧ next.Sound := by
  unfold CESCache.removePodMapping
  cases cache.getCESName (getCEPNameFromPod pod) with
  | none => exact ⟨cache, [], rfl, sound⟩
  | some ces =>
    obtain ⟨next, result, nextSound⟩ := sound.deleteCEP (getCEPNameFromPod pod)
    simp only [result, map_some]
    refine ⟨_, _, rfl, ?_⟩
    split
    case isTrue empty => exact nextSound.deleteCES (not_lists_of_countCEPsInCES empty)
    · exact nextSound

/-- One call of a handler: it follows no missing entry and keeps the indices sound. -/
theorem Sound.handle (event : SlimEvent) (keeps : cache.KeepsNodes event.call) :
    ∃ next keys, cache.handle config event = some (next, keys) ∧ next.Sound := by
  obtain ⟨call, order, names⟩ := event
  cases call with
  | addPodMapping pod nodeName cidKey => exact sound.addPodMapping config order names keeps
  | removePodMapping pod => exact sound.removePodMapping pod
  | updateNodeMapping node =>
    refine ⟨_, _, rfl, sound.insertNode order _ fun unknown cep recorded => ?_⟩
    exact keeps unknown cep (mem_of_nodeOf recorded) recorded
  | removeNodeMapping node => exact ⟨_, _, rfl, sound.deleteNode order node.name⟩
  | updateIdentityMapping id => exact sound.insertCID order id.gidLabels keeps
  | removeIdentityMapping id => exact ⟨_, _, rfl, sound.deleteCID order id.name⟩

end CESCache

def CallKeepsNodes (state : Option CESCache) (event : SlimEvent) : Prop :=
  ∀ cache ∈ state, cache.KeepsNodes event.call
  deriving Decidable

theorem CESCache.Sound.step {cache : CESCache} (sound : cache.Sound) {event : SlimEvent}
    (keeps : CallKeepsNodes (some cache) event) :
    ∃ next keys, cache.handle config event = some (next, keys) ∧
      slimStep config (some cache) event = some next ∧ next.Sound := by
  obtain ⟨next, keys, handled, nextSound⟩ := sound.handle config event (keeps cache rfl)
  refine ⟨next, keys, handled, ?_, nextSound⟩
  rw [slimStep, bind_some, handled]
  rfl

theorem slimRun_sound (events : List SlimEvent)
    (keeps : Meets (slimStep config) CallKeepsNodes (some {}) events) :
    ∃ cache, run (slimStep config) (some {}) events = some cache ∧ cache.Sound := by
  refine keeps.invariant (fun state : Option CESCache => ∃ cache, state = some cache ∧ cache.Sound)
    ?_ ⟨{}, rfl, CESCache.sound_empty⟩
  rintro _ event ⟨cache, rfl, sound⟩ keepsNodes
  obtain ⟨next, _, _, stepped, nextSound⟩ := sound.step config keepsNodes
  exact ⟨next, stepped, nextSound⟩

/-- In every run of handler calls that do not take nodes away under their endpoints, no call
dereferences a missing entry, and the indices of the cache agree. -/
theorem slimRun_consistent (config : SlimConfig) (events : List SlimEvent)
    (keeps : Meets (slimStep config) CallKeepsNodes (some {}) events) :
    ∃ cache, run (slimStep config) (some {}) events = some cache ∧ cache.Consistent := by
  obtain ⟨cache, result, sound⟩ := slimRun_sound config events keeps
  exact ⟨cache, result, sound.consistent⟩

/-! ### Namespaces -/

abbrev CESData.OfNamespace (data : CESData) : Prop := ∀ cep ∈ data.ceps.keys, cep.ns = data.ns

theorem CESData.OfNamespace.deleteCEP {data : CESData} (own : data.OfNamespace)
    (cepName : CEPName) : (data.deleteCEP cepName).OfNamespace :=
  fun cep member => own cep (AList.mem_keys.mp (mem_erase.mp (AList.mem_keys.mpr member)).2)

namespace CESCache

variable {cache next : CESCache} {cepName : CEPName}

theorem clearStaleState_namespace (each : cache.cesData.Each CESData.OfNamespace)
    {nodeName : NodeName}
    (cleared : cache.clearStaleState cepName nodeName gidLabels cesName = some next) :
    next.cesData.Each CESData.OfNamespace ∧
      next.cesData.lookup cesName = cache.cesData.lookup cesName := by
  unfold clearStaleState at cleared
  split at cleared
  · cases cleared
    exact ⟨each, rfl⟩
  case h_2 old _ =>
    obtain ⟨cesData, left, cleared⟩ := bind_eq_some_iff.mp cleared
    obtain ⟨_, _, cleared⟩ := bind_eq_some_iff.mp cleared
    obtain ⟨_, _, cleared⟩ := bind_eq_some_iff.mp cleared
    cases cleared
    unfold leave at left
    split at left
    case isTrue differ =>
      refine ⟨each.adjust left fun _ _ own => own.deleteCEP cepName, ?_⟩
      unfold adjust at left
      split at left
      · cases left
        exact (lookup_modify ..).trans (if_neg (Ne.symm differ))
      · cases left
    · cases left
      exact ⟨each, rfl⟩

theorem updateCEPInCache_namespace (each : cache.cesData.Each CESData.OfNamespace)
    {nodeName : NodeName}
    (same : ∀ data, cache.cesData.lookup cesName = some data → data.ns = cepName.ns)
    (updated : cache.updateCEPInCache cepName nodeName gidLabels cesName = some next) :
    next.cesData.Each CESData.OfNamespace := by
  obtain ⟨cleared, isCleared, updated⟩ := bind_eq_some_iff.mp updated
  obtain ⟨cesData, adjusted, updated⟩ := bind_eq_some_iff.mp updated
  obtain ⟨_, _, updated⟩ := bind_eq_some_iff.mp updated
  obtain ⟨_, _, updated⟩ := bind_eq_some_iff.mp updated
  cases updated
  obtain ⟨each, here⟩ := clearStaleState_namespace each isCleared
  refine each.adjust adjusted fun data found own cep member => ?_
  rcases (mem_insert _).mp (AList.mem_keys.mpr member) with rfl | before
  · exact (same data (here.symm.trans found)).symm
  · exact own cep (AList.mem_keys.mp before)

theorem deleteCEP_namespace (each : cache.cesData.Each CESData.OfNamespace)
    (deleted : cache.deleteCEP cepName = some next) :
    next.cesData.Each CESData.OfNamespace := by
  unfold CESCache.deleteCEP at deleted
  split at deleted
  · cases deleted
    exact each
  · obtain ⟨_, adjusted, deleted⟩ := bind_eq_some_iff.mp deleted
    cases deleted
    exact each.adjust adjusted fun _ _ own => own.deleteCEP _

theorem cesData_clearStaleCID {cid : CID} {stale : List CESKey} {order : IterationOrder}
    (cleared : cache.clearStaleCID order cid gidLabels = some (next, stale)) :
    next.cesData = cache.cesData := by
  unfold CESCache.clearStaleCID at cleared
  split at cleared
  · cases cleared
    rfl
  · split at cleared
    · obtain ⟨_, _, mapped⟩ := map_eq_some_iff.mp cleared
      cases mapped
      rfl
    · cases cleared
      rfl

theorem Sound.upsertPodIntoCES_namespace (sound : cache.Sound)
    (each : cache.cesData.Each CESData.OfNamespace) (order : IterationOrder)
    (names : NameSource) (pod : Pod) :
    let upserted := cache.upsertPodIntoCES config order names pod
    upserted.1.cesData.Each CESData.OfNamespace ∧
      ∀ data, upserted.1.cesData.lookup upserted.2 = some data → data.ns = pod.ns := by
  rcases upsertPodIntoCES_cases config order names cache pod with
    ⟨ces, mapped, result⟩ | ⟨-, ⟨ces, there, same, result⟩ | ⟨ces, fresh, result⟩⟩
  · rw [result]
    refine ⟨each, fun data found => ?_⟩
    obtain ⟨_, isData, listed⟩ :=
      (sound.slices ces (getCEPNameFromPod pod)).mpr ⟨trivial, mapped⟩
    cases found.symm.trans isData
    exact (each ces data found _ (AList.mem_keys.mp listed)).symm
  · rw [result]
    refine ⟨each, fun data found => ?_⟩
    rwa [getCESNamespace, found] at same
  · rw [result]
    have made : (cache.insertCES ces pod.ns).cesData =
        cache.cesData.insert ces { ns := pod.ns } := by
      unfold CESCache.insertCES
      rw [AList.lookup_eq_none.mpr fresh]
    dsimp only
    rw [made]
    refine ⟨each.insert nofun, fun data found => ?_⟩
    rw [lookup_insert] at found
    cases found
    rfl

theorem Sound.handle_namespace (sound : cache.Sound)
    (each : cache.cesData.Each CESData.OfNamespace) {event : SlimEvent} {keys : List CESKey}
    (handled : cache.handle config event = some (next, keys)) :
    next.cesData.Each CESData.OfNamespace := by
  obtain ⟨call, order, names⟩ := event
  cases call with
  | addPodMapping pod nodeName cidKey =>
    obtain ⟨_, added, mapped⟩ := map_eq_some_iff.mp handled
    cases mapped
    obtain ⟨each, same⟩ := sound.upsertPodIntoCES_namespace config each order names pod
    exact updateCEPInCache_namespace each same added
  | removePodMapping pod =>
    change cache.removePodMapping pod = _ at handled
    unfold CESCache.removePodMapping at handled
    split at handled
    · cases handled
      exact each
    · obtain ⟨dropped, deleted, mapped⟩ := map_eq_some_iff.mp handled
      have left := deleteCEP_namespace each deleted
      cases mapped
      split
      · exact left.erase _
      · exact left
  | updateNodeMapping node =>
    obtain rfl : _ = next := congrArg Prod.fst (some.inj handled)
    dsimp only [updateNodeMapping, CESCache.insertNode]
    split
    · exact each
    · split <;> exact each
  | removeNodeMapping node =>
    obtain rfl : _ = next := congrArg Prod.fst (some.inj handled)
    dsimp only [removeNodeMapping, CESCache.deleteNode]
    split <;> exact each
  | updateIdentityMapping id =>
    obtain ⟨⟨cleared, stale⟩, isCleared, handled⟩ := bind_eq_some_iff.mp handled
    cases handled
    exact (cesData_clearStaleCID isCleared).symm ▸ each
  | removeIdentityMapping id =>
    obtain rfl : _ = next := congrArg Prod.fst (some.inj handled)
    dsimp only [removeIdentityMapping, CESCache.deleteCID]
    split
    · exact each
    · split <;> exact each

end CESCache

/-- In such a run all endpoints of a slice are from its namespace. -/
theorem slimRun_ofNamespace (events : List SlimEvent)
    (keeps : Meets (slimStep config) CallKeepsNodes (some {}) events) :
    ∃ cache, run (slimStep config) (some {}) events = some cache ∧
      cache.cesData.Each CESData.OfNamespace := by
  obtain ⟨cache, result, _, each⟩ := keeps.invariant (fun state : Option CESCache =>
    ∃ cache, state = some cache ∧ cache.Sound ∧ cache.cesData.Each CESData.OfNamespace)
    (by
      rintro _ event ⟨cache, rfl, sound, each⟩ keepsNodes
      obtain ⟨next, _, handled, stepped, nextSound⟩ := sound.step config keepsNodes
      exact ⟨next, stepped, nextSound, sound.handle_namespace config each handled⟩)
    ⟨{}, rfl, CESCache.sound_empty, nofun⟩
  exact ⟨cache, result, each⟩

/-! ### Runs on concrete inputs -/

/-- A name that is longer than all names in use together. -/
def longerNames : NameSource where
  uniqueCESliceName used := used.foldr (· ++ ·) "b"
  fresh used := by
    have shorter : ∀ name ∈ used, name.length < (used.foldr (· ++ ·) "b").length := by
      induction used with
      | nil => intro name member; cases member
      | cons first rest inductionHypothesis =>
        intro name member
        rw [foldr_cons, String.length_append]
        rcases mem_cons.mp member with rfl | later
        · have positive : 0 < (rest.foldr (· ++ ·) "b").length := by
            cases rest with
            | nil => decide
            | cons next rest =>
              exact Nat.zero_lt_of_lt (inductionHypothesis next (.head _))
          omega
        · have := inductionHypothesis name later
          omega
    exact fun member => Nat.lt_irrefl _ (shorter _ member)

def listedEvent (call : SlimCall) : SlimEvent := ⟨call, IterationOrder.listed, longerNames⟩

/-- A pod moves between known nodes, changes its labels, and goes away before its nodes do. -/
def orderlyEvents : List SlimEvent := [ listedEvent (.updateNodeMapping ⟨"n1", 3⟩),
  listedEvent (.addPodMapping ⟨"p", "ns"⟩ "n1" "app=a"),
  listedEvent (.updateIdentityMapping ⟨"100", "app=a"⟩),
  listedEvent (.updateIdentityMapping ⟨"101", "app=a"⟩),
  listedEvent (.addPodMapping ⟨"p", "ns"⟩ "n2" "app=b"),
  listedEvent (.removeNodeMapping ⟨"n1", 3⟩),
  listedEvent (.removeIdentityMapping ⟨"100", "app=a"⟩),
  listedEvent (.removePodMapping ⟨"p", "ns"⟩),
  listedEvent (.updateNodeMapping ⟨"n1", 4⟩)]

theorem orderlyEvents_consistent :
    ∃ cache, run (slimStep ⟨100, true, false⟩) (some {}) orderlyEvents = some cache ∧
      cache.Consistent :=
  slimRun_consistent ⟨100, true, false⟩ orderlyEvents (by decide +kernel)

/-- A node is deleted under its pod, and the pod reappears on another node. -/
def movedEvents : List SlimEvent := [
  listedEvent (.addPodMapping ⟨"p", "ns"⟩ "n1" "app=a"),
  listedEvent (.removeNodeMapping ⟨"n1", 3⟩),
  listedEvent (.addPodMapping ⟨"p", "ns"⟩ "n2" "app=a")]

/-- A node is deleted under its pod and comes back. -/
def returnedEvents : List SlimEvent := [
  listedEvent (.addPodMapping ⟨"p", "ns"⟩ "n1" "app=a"),
  listedEvent (.removeNodeMapping ⟨"n1", 3⟩),
  listedEvent (.updateNodeMapping ⟨"n1", 3⟩)]

/-- Moving a pod off a deleted node dereferences the entry of that node; and a node that comes back
does not have its pod in its set. -/
theorem movedEvents_fail :
    run (slimStep ⟨100, true, false⟩) (some {}) movedEvents = none ∧
      ∃ cache, run (slimStep ⟨100, true, false⟩) (some {}) returnedEvents = some cache ∧
        ¬ cache.Consistent := by
  refine ⟨by decide +kernel, _, (some_get (by decide +kernel)).symm, fun consistent => ?_⟩
  have drifted := consistent.nodes "n1" ⟨"p", "ns"⟩
  revert drifted
  decide +kernel

end Constellation.Ces
