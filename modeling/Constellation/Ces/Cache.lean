/-
This file models the cache of the slice controller in its slim mode,
`operator/pkg/ciliumendpointslice/cescache.go`, and the slim manager on it, `manager.go`. The
cache says for every endpoint which slice, node and label set it belongs to, and keeps the
endpoints of each of these in sets of their own; one of the identities of a label set is selected.

The six maps point at each other, and a call that would dereference a missing entry has no result.
-/

import Constellation.Lib.Index
import Constellation.Lib.SetField

namespace Constellation.Ces

open Lib

/-! ### Names and records -/

structure ResourceKey where
  name : String
  ns : String
  deriving DecidableEq, Repr

abbrev CEPName := ResourceKey

abbrev CESKey := ResourceKey

abbrev CESName := String
abbrev NodeName := String
abbrev EncryptionKey := Int
abbrev CID := String
abbrev Labels := String

structure NodeData where
  ceps : GoSet CEPName := ∅
  key : EncryptionKey := 0
  isKeySet : Bool := false

/-- The identities of a set of labels, the selected one of them, and the endpoints with these
labels. -/
structure SecIDs where
  selectedID : CID := ""
  ids : GoSet CID := ∅
  ceps : GoSet CEPName := ∅

structure CEPData where
  ces : CESName
  node : NodeName
  labels : Labels
  deriving DecidableEq, Repr

structure CESData where
  ceps : GoSet CEPName := ∅
  ns : String

structure CESCache where
  cepData : GoMap CEPName CEPData := ∅
  cesData : GoMap CESName CESData := ∅
  nsData : GoMap String (GoSet CESName) := ∅
  nodeData : GoMap NodeName NodeData := ∅
  globalIdLabelsToCIDSet : GoMap Labels SecIDs := ∅
  cidToGidLabels : GoMap CID Labels := ∅

/-- The random choice of slice names: a name that is not in use yet. -/
structure NameSource where
  uniqueCESliceName : List CESName → CESName
  fresh : ∀ used, uniqueCESliceName used ∉ used

/-! ### Slices in either mode -/

class CESCacher (μ : Type) where
  insertCES : μ → CESName → String → μ
  getAllCESs : μ → List CESName
  countCEPsInCES : μ → CESName → Nat
  getCESNamespace : μ → CESName → String

section

variable {μ : Type} [CESCacher μ]

open CESCacher

def createCES (names : NameSource) (name ns : String) (cacher : μ) : μ × CESName :=
  let cesName := if name = "" then names.uniqueCESliceName (getAllCESs cacher) else name
  (insertCES cacher cesName ns, cesName)

/-- The fullest slice of a namespace that still has room and is not empty, over the slices left to
visit. -/
def largestAvailable (mapping : μ) (ns : String) (maxCEPsInCES : Int) :
    List CESName → Nat → CESName → CESName
  | [], _, selectedCES => selectedCES
  | ces :: rest, largestCEPCount, selectedCES =>
    let cepCount := countCEPsInCES mapping ces
    if cepCount < maxCEPsInCES ∧ cepCount > largestCEPCount ∧ getCESNamespace mapping ces = ns then
      if (cepCount : Int) = maxCEPsInCES - 1 then ces
      else largestAvailable mapping ns maxCEPsInCES rest cepCount ces
    else largestAvailable mapping ns maxCEPsInCES rest largestCEPCount selectedCES

/-- The name is empty if there is no such slice. -/
def getLargestAvailableCESForNamespace (order : IterationOrder) (mapping : μ) (ns : String)
    (maxCEPsInCES : Int) : CESName :=
  largestAvailable mapping ns maxCEPsInCES (order.visit 0 (getAllCESs mapping)) 0 ""

end

/-! ### Records -/

def NodeData.setEncryptionKey (nodeData : NodeData) (encryptionKey : EncryptionKey) : NodeData :=
  { nodeData with key := encryptionKey, isKeySet := true }

variable (cepName : CEPName)

def NodeData.insertCEP (nodeData : NodeData) : NodeData :=
  { nodeData with ceps := nodeData.ceps.insert cepName () }

def NodeData.deleteCEP (nodeData : NodeData) : NodeData :=
  { nodeData with ceps := nodeData.ceps.erase cepName }

def CESData.insertCEP (cesData : CESData) : CESData :=
  { cesData with ceps := cesData.ceps.insert cepName () }

def CESData.deleteCEP (cesData : CESData) : CESData :=
  { cesData with ceps := cesData.ceps.erase cepName }

namespace SecIDs

def insertCEP (cepName : CEPName) (secIDs : SecIDs) : SecIDs :=
  { secIDs with ceps := secIDs.ceps.insert cepName () }

def deleteCEP (cepName : CEPName) (secIDs : SecIDs) : SecIDs :=
  { secIDs with ceps := secIDs.ceps.erase cepName }

variable (order : IterationOrder)

/-- With an empty name the next identity is selected, if there is one; with any other it is selected
unless one of the identities already is. The result says whether to publish the selection. -/
def setSelectedID (secIDs : SecIDs) (newCID : CID) : SecIDs × Bool :=
  if newCID = "" then
    match order.visit 1 secIDs.ids.keys with
    | [] => (secIDs, false)
    | nextID :: _ => ({ secIDs with selectedID := nextID }, true)
  else
    -- the selected identity was deleted: a valid one is known now
    let kept := if secIDs.selectedID ∈ secIDs.ids then secIDs.selectedID else ""
    let selectedID := if kept ≠ "" then kept else newCID
    ({ secIDs with selectedID }, selectedID = newCID)

/-- Takes out an identity, with another one selected in its place if it was the selected one. -/
def deleteID (secIDs : SecIDs) (cid : CID) : SecIDs × Bool :=
  let remaining := { secIDs with ids := secIDs.ids.erase cid }
  if remaining.selectedID = cid then remaining.setSelectedID order "" else (remaining, false)

def insertID (secIDs : SecIDs) (cid : CID) : SecIDs × Bool :=
  let selected := secIDs.setSelectedID order cid
  ({ selected.1 with ids := selected.1.ids.insert cid () }, selected.2)

end SecIDs

def cleanLabelsMapIfNoState (sets : GoMap Labels SecIDs) (gidLabels : Labels) :
    GoMap Labels SecIDs :=
  match sets.lookup gidLabels with
  | none => sets
  | some secIDs =>
    if secIDs.ceps.keys = [] ∧ secIDs.ids.keys = [] then sets.erase gidLabels else sets

namespace CESCache

/-! ### Slices -/

def insertCES (cache : CESCache) (cesName : CESName) (ns : String) : CESCache :=
  let cache := match cache.cesData.lookup cesName with
    | some cesData =>
      if cesData.ns ≠ ns then
        { cache with
          nsData := Index.erase cache.nsData cesData.ns cesName
          cesData := cache.cesData.insert cesName { cesData with ns } }
      else cache
    | none => { cache with cesData := cache.cesData.insert cesName { ns } }
  { cache with nsData := Index.insert cache.nsData ns cesName () }

def deleteCES (cache : CESCache) (cesName : CESName) : CESCache :=
  let nsData := match cache.cesData.lookup cesName with
    | some cesData => Index.erase cache.nsData cesData.ns cesName
    | none => cache.nsData
  { cache with nsData, cesData := cache.cesData.erase cesName }

def countCEPsInCES (cache : CESCache) (ces : CESName) : Nat :=
  match cache.cesData.lookup ces with
  | some cesData => cesData.ceps.keys.length
  | none => 0

variable (order : IterationOrder)

def getCESNamespace (cache : CESCache) (name : CESName) : String :=
  match cache.cesData.lookup name with
  | some cesData => cesData.ns
  | none => ""

def getCESName (cache : CESCache) (cepName : CEPName) : Option CESName :=
  (cache.cepData.lookup cepName).map CEPData.ces

instance : CESCacher CESCache where
  insertCES := insertCES
  getAllCESs cache := cache.cesData.keys
  countCEPsInCES := countCEPsInCES
  getCESNamespace := getCESNamespace

/-- The slices of a set of endpoints. -/
def getCESForCEPs (cache : CESCache) (ceps : GoSet CEPName) : List CESKey :=
  let cesKeys : GoSet CESKey := (order.visit 3 ceps.keys).foldl (fun cesKeys cepName =>
    match cache.getCESName cepName with
    | some cesName => cesKeys.insert ⟨cesName, cache.getCESNamespace cesName⟩ ()
    | none => cesKeys) ∅
  order.visit 4 cesKeys.keys

/-! ### Endpoints -/

def clearStaleState (cache : CESCache) (cepName : CEPName) (newNodeName : NodeName)
    (newGIDLabels : Labels) (newCESName : CESName) : Option CESCache :=
  match cache.cepData.lookup cepName with
  | none => some cache
  | some old => do
    let cesData ← cache.cesData.leave old.ces newCESName (CESData.deleteCEP cepName)
    let nodeData ← cache.nodeData.leave old.node newNodeName (NodeData.deleteCEP cepName)
    let sets ← cache.globalIdLabelsToCIDSet.leave old.labels newGIDLabels (SecIDs.deleteCEP cepName)
    some { cache with
      cesData, nodeData
      globalIdLabelsToCIDSet :=
        if old.labels ≠ newGIDLabels then cleanLabelsMapIfNoState sets old.labels else sets }

def updateCEPInCache (cache : CESCache) (cepName : CEPName) (nodeName : NodeName)
    (gidLabels : Labels) (cesName : CESName) : Option CESCache := do
  let cleared ← cache.clearStaleState cepName nodeName gidLabels cesName
  let cesData ← cleared.cesData.adjust cesName (CESData.insertCEP cepName)
  let nodeData ← (cleared.nodeData.ensure nodeName {}).adjust nodeName (NodeData.insertCEP cepName)
  let sets ← (cleared.globalIdLabelsToCIDSet.ensure gidLabels {}).adjust gidLabels
    (SecIDs.insertCEP cepName)
  some { cleared with
    cepData := cleared.cepData.insert cepName ⟨cesName, nodeName, gidLabels⟩
    cesData, nodeData, globalIdLabelsToCIDSet := sets }

def addCEP (cache : CESCache) (cepName : CEPName) (cesName : CESName) (nodeName : NodeName)
    (gidLabels : Labels) : Option CESCache :=
  cache.updateCEPInCache cepName nodeName gidLabels cesName

def deleteCEP (cache : CESCache) (cepName : CEPName) : Option CESCache :=
  match cache.cepData.lookup cepName with
  | none => some cache
  | some cepData => do
    let cesData ← cache.cesData.adjust cepData.ces (CESData.deleteCEP cepName)
    some { cache with
      cepData := cache.cepData.erase cepName
      cesData
      nodeData := cache.nodeData.modify cepData.node (NodeData.deleteCEP cepName)
      globalIdLabelsToCIDSet := cleanLabelsMapIfNoState
        (cache.globalIdLabelsToCIDSet.modify cepData.labels (SecIDs.deleteCEP cepName))
        cepData.labels }

/-! ### Nodes -/

/-- The result has the slices of the node's endpoints if its key is new. -/
def insertNode (cache : CESCache) (nodeName : NodeName)
    (encryptionKey : EncryptionKey) : CESCache × List CESKey :=
  match cache.nodeData.lookup nodeName with
  | none =>
    ({ cache with
      nodeData := cache.nodeData.insert nodeName (NodeData.setEncryptionKey {} encryptionKey) }, [])
  | some nodeData =>
    if nodeData.isKeySet = false ∨ nodeData.key ≠ encryptionKey then
      ({ cache with
        nodeData := cache.nodeData.insert nodeName (nodeData.setEncryptionKey encryptionKey) },
        cache.getCESForCEPs order nodeData.ceps)
    else (cache, [])

def deleteNode (cache : CESCache) (nodeName : NodeName) : CESCache × List CESKey :=
  match cache.nodeData.lookup nodeName with
  | some nodeData =>
    ({ cache with nodeData := cache.nodeData.erase nodeName },
      cache.getCESForCEPs order nodeData.ceps)
  | none => (cache, [])

def getEndpointEncryptionKey (cache : CESCache) (nodeName : NodeName) : Option EncryptionKey :=
  match cache.nodeData.lookup nodeName with
  | some nodeData => if nodeData.isKeySet then some nodeData.key else none
  | none => none

/-! ### Identities -/

def withdrawCID (cache : CESCache) (gidLabels : Labels) (secIDs : SecIDs)
    (cid : CID) : CESCache × List CESKey :=
  let remaining := secIDs.deleteID order cid
  ({ cache with
    globalIdLabelsToCIDSet := cleanLabelsMapIfNoState
      (cache.globalIdLabelsToCIDSet.insert gidLabels remaining.1) gidLabels },
    if remaining.2 then cache.getCESForCEPs order remaining.1.ceps else [])

def clearStaleCID (cache : CESCache) (cid : CID) (gidLabels : Labels) :
    Option (CESCache × List CESKey) :=
  match cache.cidToGidLabels.lookup cid with
  | none => some (cache, [])
  | some oldLabels =>
    if oldLabels ≠ gidLabels then
      (cache.globalIdLabelsToCIDSet.lookup oldLabels).map fun cidSet =>
        cache.withdrawCID order oldLabels cidSet cid
    else some (cache, [])

def insertCID (cache : CESCache) (cid : CID) (gidLabels : Labels) :
    Option (CESCache × List CESKey) := do
  let (cleared, stale) ← cache.clearStaleCID order cid gidLabels
  let secIDs := (cleared.globalIdLabelsToCIDSet.lookup gidLabels).getD {}
  let grown := secIDs.insertID order cid
  some ({ cleared with
    cidToGidLabels := cleared.cidToGidLabels.insert cid gidLabels
    globalIdLabelsToCIDSet := cleared.globalIdLabelsToCIDSet.insert gidLabels grown.1 },
    stale ++ if grown.2 then cleared.getCESForCEPs order grown.1.ceps else [])

def deleteCID (cache : CESCache) (cid : CID) : CESCache × List CESKey :=
  match cache.cidToGidLabels.lookup cid with
  | none => (cache, [])
  | some gidLabels =>
    let cache := { cache with cidToGidLabels := cache.cidToGidLabels.erase cid }
    match cache.globalIdLabelsToCIDSet.lookup gidLabels with
    | some secIDs => cache.withdrawCID order gidLabels secIDs cid
    | none => (cache, [])

end CESCache

/-! ### The slim manager -/

structure Pod where
  name : String
  ns : String
  deriving DecidableEq, Repr

def getCEPNameFromPod (pod : Pod) : CEPName := ⟨pod.name, pod.ns⟩

structure CiliumNode where
  name : NodeName
  encryptionKey : EncryptionKey
  deriving DecidableEq, Repr

structure CiliumIdentity where
  name : CID
  gidLabels : Labels
  deriving DecidableEq, Repr

structure SlimConfig where
  maxCEPsInCES : Int
  ipsecEnabled : Bool
  wgEnabled : Bool

def staticEncryptKey : EncryptionKey := 255

def getNodeEndpointEncryptionKey (config : SlimConfig) (node : CiliumNode) : EncryptionKey :=
  if config.wgEnabled then staticEncryptKey
  else if config.ipsecEnabled then node.encryptionKey
  else 0

namespace CESCache

/-- The slice it is in, or one with room, or a new one. -/
def upsertPodIntoCES (config : SlimConfig) (order : IterationOrder) (names : NameSource)
    (cache : CESCache) (pod : Pod) : CESCache × CESName :=
  match cache.getCESName (getCEPNameFromPod pod) with
  | some cesName => (cache, cesName)
  | none =>
    let cesName := getLargestAvailableCESForNamespace order cache pod.ns config.maxCEPsInCES
    if cesName = "" then createCES names "" pod.ns cache else (cache, cesName)

def addPodMapping (config : SlimConfig) (order : IterationOrder) (names : NameSource)
    (cache : CESCache) (pod : Pod) (nodeName : NodeName) (cidKey : Labels) :
    Option (CESCache × List CESKey) :=
  let upserted := cache.upsertPodIntoCES config order names pod
  (upserted.1.addCEP (getCEPNameFromPod pod) upserted.2 nodeName cidKey).map fun cache =>
    (cache, [⟨upserted.2, pod.ns⟩])

def removePodMapping (cache : CESCache) (pod : Pod) : Option (CESCache × List CESKey) :=
  match cache.getCESName (getCEPNameFromPod pod) with
  | none => some (cache, [])
  | some cesName =>
    (cache.deleteCEP (getCEPNameFromPod pod)).map fun cache =>
      (if cache.countCEPsInCES cesName = 0 then cache.deleteCES cesName else cache,
        [⟨cesName, pod.ns⟩])

def updateNodeMapping (config : SlimConfig) (order : IterationOrder) (cache : CESCache)
    (node : CiliumNode) : CESCache × List CESKey :=
  cache.insertNode order node.name (getNodeEndpointEncryptionKey config node)

variable (order : IterationOrder)

def removeNodeMapping (cache : CESCache) (node : CiliumNode) : CESCache × List CESKey :=
  cache.deleteNode order node.name

def updateIdentityMapping (cache : CESCache) (id : CiliumIdentity) :
    Option (CESCache × List CESKey) :=
  cache.insertCID order id.name id.gidLabels

def removeIdentityMapping (cache : CESCache) (id : CiliumIdentity) : CESCache × List CESKey :=
  cache.deleteCID order id.name

end CESCache

inductive SlimCall
  | addPodMapping (pod : Pod) (nodeName : NodeName) (cidKey : Labels)
  | removePodMapping (pod : Pod)
  | updateNodeMapping (node : CiliumNode)
  | removeNodeMapping (node : CiliumNode)
  | updateIdentityMapping (id : CiliumIdentity)
  | removeIdentityMapping (id : CiliumIdentity)

/-- A call, the order in which its loops visit the maps, and the names it draws. -/
structure SlimEvent where
  call : SlimCall
  order : IterationOrder
  names : NameSource

/-- None if the call dereferences a missing entry. -/
def CESCache.handle (config : SlimConfig) (cache : CESCache) (event : SlimEvent) :
    Option (CESCache × List CESKey) :=
  match event.call with
  | .addPodMapping pod nodeName cidKey =>
    cache.addPodMapping config event.order event.names pod nodeName cidKey
  | .removePodMapping pod => cache.removePodMapping pod
  | .updateNodeMapping node => some (cache.updateNodeMapping config event.order node)
  | .removeNodeMapping node => some (cache.removeNodeMapping event.order node)
  | .updateIdentityMapping id => cache.updateIdentityMapping event.order id
  | .removeIdentityMapping id => some (cache.removeIdentityMapping event.order id)

/-- After a call without a result there is no cache any more. -/
def slimStep (config : SlimConfig) (state : Option CESCache) (event : SlimEvent) :
    Option CESCache :=
  state.bind fun cache => (cache.handle config event).map Prod.fst

end Constellation.Ces
