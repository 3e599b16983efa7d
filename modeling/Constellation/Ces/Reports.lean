/-
This file proves that the node and identity handlers of the slim manager report every slice they
affect, in the runs in which the indices of the cache do not drift. A slice is affected if the
identity published for one of its endpoints changes, or the encryption key of the endpoint's node.
A handler misses the endpoints that the set it reads does not list, such as those of a node that
was forgotten and learned again.
-/

import Constellation.Ces.Sound

namespace Constellation.Ces

open Lib GoMap List Option AList SecIDs

variable {secIDs : SecIDs} {nodeName : NodeName} {cep : CEPName} {cid : CID}

/-- A label set reports every change of its selected identity. -/
theorem SecIDs.selectedID_setSelectedID {order : IterationOrder}
    (silent : (secIDs.setSelectedID order cid).2 = false) :
    (secIDs.setSelectedID order cid).1.selectedID = secIDs.selectedID := by
  unfold setSelectedID at silent ⊢
  grind

namespace CESCache

variable {cache : CESCache} (order : IterationOrder)

def getCIDForCEP (cache : CESCache) (cepName : CEPName) : Option CID :=
  (cache.cepData.lookup cepName).bind fun cepData =>
    (cache.globalIdLabelsToCIDSet.lookup cepData.labels).map selectedID

/-- The encryption key of the endpoint's node. -/
def keyForCEP (cache : CESCache) (cepName : CEPName) : Option EncryptionKey :=
  (cache.nodeOf cepName).bind cache.getEndpointEncryptionKey

def Affected (before after : CESCache) (cepName : CEPName) : Prop :=
  after.getCIDForCEP cepName ≠ before.getCIDForCEP cepName ∨
    after.keyForCEP cepName ≠ before.keyForCEP cepName

def Among (cache : CESCache) (keys : List CESKey) (cepName : CEPName) : Prop :=
  ∃ ces ∈ cache.getCESName cepName, ⟨ces, cache.getCESNamespace ces⟩ ∈ keys

def Reports (before : CESCache) (result : CESCache × List CESKey) : Prop :=
  ∀ cepName, Affected before result.1 cepName → before.Among result.2 cepName

theorem reports_self (cache : CESCache) (keys : List CESKey) : Reports cache (cache, keys) :=
  fun _ affected => affected.elim (absurd rfl) (absurd rfl)

theorem among_getCESForCEPs {ceps : GoSet CEPName} (member : cep ∈ ceps)
    (recorded : cep ∈ cache.cepData) : cache.Among (cache.getCESForCEPs order ceps) cep := by
  obtain ⟨data, found⟩ := lookup_of_mem recorded
  have slice : cache.getCESName cep = some data.ces := by rw [getCESName, found]; rfl
  have collected : cache.getCESForCEPs order ceps = order.visit 4 (AList.keys
      ((((order.visit 3 ceps.keys).filterMap cache.getCESName).map fun ces =>
        (⟨ces, cache.getCESNamespace ces⟩ : CESKey)).foldl
          (fun keys key => keys.insert key ()) ∅)) := by
    unfold getCESForCEPs
    rw [foldl_map, foldl_filterMap]
    dsimp only
    congr
    funext keys cep
    cases cache.getCESName cep <;> rfl
  refine ⟨data.ces, slice, ?_⟩
  rw [collected, IterationOrder.mem_visit, ← AList.mem_keys, mem_foldl_insert]
  refine .inl (mem_map_of_mem (mem_filterMap.mpr ⟨cep, ?_, slice⟩))
  rw [IterationOrder.mem_visit]
  exact member

/-! ### Nodes -/

/-- A handler that changes the record of a node reports the endpoints on it. -/
theorem Sound.reports_node (sound : cache.Sound) {nodes : GoMap NodeName NodeData}
    {keys : List CESKey}
    (elsewhere : ∀ other, other ≠ nodeName → nodes.lookup other = cache.nodeData.lookup other)
    (reported : ∀ cep, cache.nodeOf cep = some nodeName → ∃ nodeData,
      cache.nodeData.lookup nodeName = some nodeData ∧
        keys = cache.getCESForCEPs order nodeData.ceps) :
    Reports cache ({ cache with nodeData := nodes }, keys) := by
  intro cep affected
  have onNode : cache.nodeOf cep = some nodeName := by
    by_contra away
    refine affected.elim (absurd rfl) (absurd ?_)
    refine bind_congr fun other recorded => ?_
    unfold getEndpointEncryptionKey
    rw [elsewhere other fun same => away (same ▸ recorded)]
  obtain ⟨nodeData, found, rfl⟩ := reported cep onNode
  obtain ⟨record, there, listed⟩ := (sound.nodes nodeName cep).mpr ⟨mem_of_lookup found, onNode⟩
  obtain rfl := Option.some.inj (found.symm.trans there)
  exact among_getCESForCEPs order listed (mem_of_nodeOf onNode)

theorem Sound.reports_insertNode (sound : cache.Sound) (key : EncryptionKey)
    (unowned : nodeName ∉ cache.nodeData → ∀ cep, cache.nodeOf cep ≠ some nodeName) :
    Reports cache (cache.insertNode order nodeName key) := by
  unfold CESCache.insertNode
  cases found : cache.nodeData.lookup nodeName with
  | none =>
    refine sound.reports_node order (fun other differs => lookup_insert_ne differs) ?_
    exact fun cep onNode => absurd onNode (unowned (lookup_eq_none.mp found) cep)
  | some nodeData =>
    dsimp only
    split
    · exact sound.reports_node order (fun other differs => lookup_insert_ne differs)
        fun _ _ => ⟨nodeData, found, rfl⟩
    · exact cache.reports_self []

theorem Sound.reports_deleteNode (sound : cache.Sound) (nodeName : NodeName) :
    Reports cache (cache.deleteNode order nodeName) := by
  unfold CESCache.deleteNode
  split
  case h_1 nodeData found =>
    exact sound.reports_node order (fun other differs => lookup_erase_ne differs)
      fun _ _ => ⟨nodeData, found, rfl⟩
  · exact cache.reports_self []

/-! ### Identities -/

def Labelled (cache : CESCache) : Prop :=
  ∀ labels cep, cache.labelsOf cep = some labels →
    Enlists ceps cache.globalIdLabelsToCIDSet labels cep

variable {gidLabels : Labels} {sets : GoMap Labels SecIDs}

/-- A handler that changes a label set, and drops none that has endpoints, reports the endpoints of
the set if another identity is selected. -/
theorem Labelled.reports (labelled : cache.Labelled) {changed : SecIDs × Bool}
    (cids : GoMap CID Labels)
    (found : ∀ record ∈ cache.globalIdLabelsToCIDSet.lookup gidLabels, record = secIDs)
    (ceps : changed.1.ceps = secIDs.ceps)
    (silent : changed.2 = false → changed.1.selectedID = secIDs.selectedID)
    (keeps : ∀ labels record cep,
      (cache.globalIdLabelsToCIDSet.insert gidLabels changed.1).lookup labels = some record →
        cep ∈ record.ceps → sets.lookup labels = some record) :
    Reports cache ({ cache with globalIdLabelsToCIDSet := sets, cidToGidLabels := cids },
      if changed.2 then cache.getCESForCEPs order changed.1.ceps else []) := by
  intro cep affected
  obtain identity := affected.resolve_right (absurd rfl)
  unfold getCIDForCEP at identity
  cases recorded : cache.cepData.lookup cep with
  | none => simp [recorded] at identity
  | some data =>
    obtain ⟨record, there, listed⟩ := labelled data.labels cep (by rw [labelsOf, recorded]; rfl)
    simp only [recorded, there, bind_some] at identity
    have same : data.labels = gidLabels := by
      by_contra differs
      refine identity ?_
      rw [keeps data.labels record cep ((lookup_insert_ne differs).trans there) listed]
    rw [same] at there identity
    obtain rfl := found record there
    rw [← ceps] at listed
    rw [keeps gidLabels changed.1 cep (lookup_insert _) listed] at identity
    rw [if_pos (Bool.not_eq_false _ ▸ fun quiet => identity (congrArg some (silent quiet)))]
    exact among_getCESForCEPs order listed (mem_of_lookup recorded)

theorem lookup_clean {labels : Labels} {record : SecIDs}
    (found : sets.lookup labels = some record) (listed : cep ∈ record.ceps) (gidLabels : Labels) :
    (cleanLabelsMapIfNoState sets gidLabels).lookup labels = some record := by
  have inKeys := AList.mem_keys.mp listed
  unfold cleanLabelsMapIfNoState
  grind [lookup_erase_if]

theorem Labelled.reports_withdrawCID (labelled : cache.Labelled)
    (found : cache.globalIdLabelsToCIDSet.lookup gidLabels = some secIDs) (cid : CID) :
    Reports cache (cache.withdrawCID order gidLabels secIDs cid) := by
  refine labelled.reports order _ (fun record there => Option.some.inj (there.symm.trans found))
    (deleteID_spec order secIDs cid).2 (fun silent => ?_)
    fun labels record cep there listed => lookup_clean there listed gidLabels
  unfold deleteID at silent ⊢
  dsimp only at silent ⊢
  split
  case isTrue here =>
    rw [if_pos here] at silent
    exact selectedID_setSelectedID silent
  · rfl

theorem Sound.reports_insertCID (sound : cache.Sound) {result : CESCache × List CESKey}
    (inserted : cache.insertCID order cid gidLabels = some result) : Reports cache result := by
  have labelled : cache.Labelled := fun labels cep has =>
    (sound.labels labels cep).mpr ⟨trivial, has⟩
  obtain ⟨cleared, stale, cleans, ⟨cepData, cesData, nodeData, -⟩, ceps, -⟩ :=
    sound.clearStaleCID order cid gidLabels
  have first : Reports cache (cleared, stale) := by
    unfold CESCache.clearStaleCID at cleans
    split at cleans
    · cases cleans
      exact cache.reports_self []
    · split at cleans
      · obtain ⟨cidSet, found, withdrawn⟩ := map_eq_some_iff.mp cleans
        exact withdrawn ▸ labelled.reports_withdrawCID order found cid
      · cases cleans
        exact cache.reports_self []
  unfold CESCache.insertCID at inserted
  rw [cleans] at inserted
  cases inserted
  have clearedLabelled : cleared.Labelled := by
    intro labels cep has
    rw [labelsOf, cepData] at has
    exact (ceps labels cep).mpr (labelled labels cep has)
  have known : ∀ record ∈ cleared.globalIdLabelsToCIDSet.lookup gidLabels,
      record = (cleared.globalIdLabelsToCIDSet.lookup gidLabels).getD {} := by
    intro record there
    rw [mem_def.mp there, getD_some]
  have second := clearedLabelled.reports order (cleared.cidToGidLabels.insert cid gidLabels) known
    (insertID_spec order _ cid).2 selectedID_setSelectedID
    fun labels record cep there _ => there
  -- what is published changes in the first part or in the second
  intro cep affected
  by_cases early : Affected cache cleared cep
  · obtain ⟨ces, slice, reported⟩ := first cep early
    exact ⟨ces, slice, mem_append_left _ reported⟩
  · obtain ⟨identity, key⟩ := not_or.mp early
    rw [Affected, ← not_not.mp identity, ← not_not.mp key] at affected
    obtain ⟨ces, slice, reported⟩ := second cep affected
    rw [getCESName, cepData] at slice
    rw [getCESNamespace, cesData] at reported
    exact ⟨ces, slice, mem_append_right _ reported⟩

theorem Sound.reports_deleteCID (sound : cache.Sound) (cid : CID) :
    Reports cache (cache.deleteCID order cid) := by
  unfold CESCache.deleteCID
  split
  · exact cache.reports_self []
  case h_2 gidLabels _ =>
    dsimp only
    split
    case h_1 secIDs found =>
      have labelled : Labelled { cache with cidToGidLabels := cache.cidToGidLabels.erase cid } :=
        fun labels cep has => (sound.labels labels cep).mpr ⟨trivial, has⟩
      exact labelled.reports_withdrawCID order found cid
    · exact fun _ affected => affected.elim (absurd rfl) (absurd rfl)

end CESCache

/-! ### Runs -/

def SlimCall.isForPod : SlimCall → Bool
  | .addPodMapping _ _ _ => true
  | .removePodMapping _ => true
  | _ => false

/-- In every run of calls that keep the nodes, each call for a node or an identity reports the
slices of all endpoints it affects. -/
theorem slimRun_reports (config : SlimConfig) (events : List SlimEvent) (event : SlimEvent)
    (keeps : Meets (slimStep config) CallKeepsNodes (some {}) events)
    (keepsLast : CallKeepsNodes (run (slimStep config) (some {}) events) event)
    (mapping : event.call.isForPod = false) :
    ∃ cache result, run (slimStep config) (some {}) events = some cache ∧
      cache.handle config event = some result ∧ cache.Reports result := by
  obtain ⟨cache, reached, sound⟩ := slimRun_sound config events keeps
  have here := keepsLast cache reached
  obtain ⟨next, keys, handled, -⟩ := sound.handle config event here
  refine ⟨cache, (next, keys), reached, handled, ?_⟩
  obtain ⟨call, order, names⟩ := event
  cases call with
  | addPodMapping _ _ _ | removePodMapping _ => cases mapping
  | updateNodeMapping node =>
    exact Option.some.inj handled ▸ sound.reports_insertNode order _ fun unknown cep recorded =>
      here unknown cep (CESCache.mem_of_nodeOf recorded) recorded
  | removeNodeMapping node =>
    exact Option.some.inj handled ▸ sound.reports_deleteNode order node.name
  | updateIdentityMapping id => exact sound.reports_insertCID order handled
  | removeIdentityMapping id =>
    exact Option.some.inj handled ▸ sound.reports_deleteCID order id.name

/-- The identity selected for a pod goes away. -/
theorem orderlyEvents_report :
    ∃ cache result,
      run (slimStep ⟨100, true, false⟩) (some {}) (orderlyEvents.take 4) = some cache ∧
      cache.handle ⟨100, true, false⟩ (listedEvent (.removeIdentityMapping ⟨"100", "app=a"⟩)) =
        some result ∧ cache.Reports result :=
  slimRun_reports ⟨100, true, false⟩ (orderlyEvents.take 4) _ (by decide +kernel)
    (by decide +kernel) rfl

/-- A node that was deleted under its pod comes back with a key, which is not reported. -/
theorem returnedEvents_unreported :
    ∃ cache result,
      run (slimStep ⟨100, true, false⟩) (some {}) (returnedEvents.take 2) = some cache ∧
      cache.handle ⟨100, true, false⟩ (listedEvent (.updateNodeMapping ⟨"n1", 3⟩)) =
        some result ∧ ¬ cache.Reports result := by
  refine ⟨_, _, (some_get (by decide +kernel)).symm, rfl, fun reports => ?_⟩
  obtain ⟨ces, -, reported⟩ := reports ⟨"p", "ns"⟩ (.inr (by decide +kernel))
  exact absurd reported (eq_nil_iff_forall_not_mem.mp (by decide +kernel) _)

end Constellation.Ces
