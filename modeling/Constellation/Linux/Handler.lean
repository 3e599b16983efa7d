/-
This file models how the node handler keeps the identifiers of the nodes. It gives a node an
identifier out of a pool and maps every address of the node to it, in the BPF map of nodes and in
two maps in memory. Nodes that share an address share the identifier. The BPF map comes with the
outcomes of the calls that are made to it next. Routes and encryption, which the same functions
set up, are left out.
-/

import Constellation.Ipcache.Cache
import Constellation.K8s.NodeWatcher
import Constellation.Lib.Index
import Constellation.Linux.IDPool

namespace Constellation.Linux

open Lib
open Ipam (Addr)

/-! ### Nodes -/

/-- A valid address parses to itself when it is printed, an address of IPv4 within IPv6 is printed
as one of IPv4, and the text of an invalid one does not parse. -/
inductive NodeIP
  | valid (addr : Addr)
  | invalid (text : String)
  deriving DecidableEq, Repr

namespace NodeIP

def string : NodeIP → String
  | valid addr => addr.string
  | invalid text => text

def parseAddr : NodeIP → Except String Addr
  | valid addr => .ok addr
  | invalid text => .error ("ParseAddr(" ++ text.quote ++ "): unable to parse IP")

def isValid : NodeIP → Bool
  | valid _ => true
  | invalid _ => false

end NodeIP

structure Identity where
  name : String
  cluster : String
  deriving DecidableEq, Repr

structure Node where
  name : String
  cluster : String
  ipAddresses : List NodeIP
  encryptionKey : UInt8
  source : Ipcache.Source
  deriving DecidableEq, Repr

def Node.identity (node : Node) : Identity := ⟨node.name, node.cluster⟩

structure AgentNames where
  nodeName : String
  clusterName : String
  watcher : K8s.NodeWatcher

namespace AgentNames

def isManaged (names : AgentNames) (name : String) : Bool :=
  names.watcher.isManaged names.nodeName name

def isLocal (names : AgentNames) (node : Node) : Bool :=
  node.name == names.nodeName && node.cluster == names.clusterName

end AgentNames

/-! ### The BPF map -/

structure NodeValueV2 where
  nodeID : UInt16
  spi : UInt8
  deriving DecidableEq, Repr

/-- With the outcomes of the next calls that change it: an error, or none for a success. The calls
after them succeed. -/
structure NodeMap where
  entries : GoMap Addr NodeValueV2
  outcomes : List (Option String)

namespace NodeMap

def fault (map : NodeMap) : Option String := map.outcomes.head?.join

def update (map : NodeMap) (ip : Addr) (nodeID : UInt16) (spi : UInt8) :
    NodeMap × Option String :=
  match map.fault with
  | some err => (⟨map.entries, map.outcomes.tail⟩, some ("failed to update node map: " ++ err))
  | none => (⟨map.entries.insert ip ⟨nodeID, spi⟩, map.outcomes.tail⟩, none)

/-- This fails also if there is no entry. -/
def delete (map : NodeMap) (ip : Addr) : NodeMap × Option String :=
  match map.fault with
  | some err => (⟨map.entries, map.outcomes.tail⟩, some ("failed to delete node map: " ++ err))
  | none =>
    if ip ∈ map.entries then (⟨map.entries.erase ip, map.outcomes.tail⟩, none)
    else (⟨map.entries, map.outcomes.tail⟩,
      some "failed to delete node map: delete: key does not exist")

end NodeMap

/-! ### The handler -/

structure LinuxNodeHandler where
  isInitialized : Bool
  nodes : GoMap Identity Node
  nodeMap : NodeMap
  nodeIDs : IDPool
  nodeIDsByIPs : GoMap NodeIP UInt16
  nodeIPsByIDs : GoMap UInt16 (GoSet NodeIP)

def minNodeID : ID := 1

def maxNodeID : ID := 65535

def setIPsByIDsMapping (nodeIPsByIDs : GoMap UInt16 (GoSet NodeIP)) (id : UInt16) (ip : NodeIP) :
    GoMap UInt16 (GoSet NodeIP) :=
  Index.insert nodeIPsByIDs id ip ()

namespace LinuxNodeHandler

def newNodeHandler (nodeMap : NodeMap) : LinuxNodeHandler where
  isInitialized := false
  nodes := ∅
  nodeMap := nodeMap
  nodeIDs := newIDPool minNodeID maxNodeID
  nodeIDsByIPs := ∅
  nodeIPsByIDs := ∅

variable (n : LinuxNodeHandler)

/-- That of its last address which has one, or zero. -/
def getNodeIDForNode (node : Node) : UInt16 :=
  node.ipAddresses.foldl (fun nodeID ip => (n.nodeIDsByIPs.lookup ip).getD nodeID) 0

/-- Maps an address, in the BPF map and then in memory. -/
def mapNodeID (ip : NodeIP) (id : UInt16) (spi : UInt8) : LinuxNodeHandler × Option String :=
  match ip.parseAddr with
  | .error err => (n, some ("invalid node IP " ++ ip.string ++ ": " ++ err))
  | .ok nodeIP =>
    match n.nodeMap.update nodeIP id spi with
    | (nodeMap, some err) => ({ n with nodeMap := nodeMap }, some err)
    | (nodeMap, none) =>
      ({ n with
          nodeMap := nodeMap
          nodeIDsByIPs := n.nodeIDsByIPs.insert ip id
          nodeIPsByIDs := setIPsByIDsMapping n.nodeIPsByIDs id ip }, none)

/-- Unmaps an address, in the BPF map and then in memory. -/
def unmapNodeID (ip : NodeIP) : LinuxNodeHandler × Option String :=
  match n.nodeIDsByIPs.lookup ip with
  | none =>
    (n, some ("cannot remove IP " ++ ip.string ++ " from node ID map as it doesn't exist"))
  | some id =>
    match ip.parseAddr with
    | .error err => (n, some ("invalid node IP " ++ ip.string ++ ": " ++ err))
    | .ok nodeIP =>
      match n.nodeMap.delete nodeIP with
      | (nodeMap, some err) => ({ n with nodeMap := nodeMap }, some err)
      | (nodeMap, none) =>
        ({ n with
            nodeMap := nodeMap
            nodeIDsByIPs := n.nodeIDsByIPs.erase ip
            nodeIPsByIDs := Index.erase n.nodeIPsByIDs id ip }, none)

/-- Errors are logged only. -/
def unmapNodeIDs (ips : List NodeIP) : LinuxNodeHandler :=
  ips.foldl (fun n ip => (n.unmapNodeID ip).1) n

/-- Ends without errors or with them, or not at all where an address has another identifier. -/
def mapIPs (nodeID : UInt16) (spiChanged : Bool) (spi : UInt8) :
    List NodeIP → LinuxNodeHandler → List String → LinuxNodeHandler × Option (List String)
  | [], n, errs => (n, some errs)
  | ip :: rest, n, errs =>
    if n.nodeIDsByIPs.lookup ip = some nodeID ∧ spiChanged = false then
      mapIPs nodeID spiChanged spi rest n errs
    else if n.nodeIDsByIPs.lookup ip ≠ none ∧ n.nodeIDsByIPs.lookup ip ≠ some nodeID then (n, none)
    else
      match n.mapNodeID ip nodeID spi with
      | (n, none) => mapIPs nodeID spiChanged spi rest n errs
      | (n, some err) =>
        mapIPs nodeID spiChanged spi rest n
          (errs ++ ["failed to map IP " ++ ip.string ++ " with node ID " ++ toString nodeID ++
            ": " ++ err])

/-- The identifier that the addresses have, or else a new one of the pool. -/
def chooseID (order : IterationOrder) (loop : Nat) (node : Node) : LinuxNodeHandler × UInt16 :=
  if n.getNodeIDForNode node = 0 then
    ({ n with nodeIDs := (n.nodeIDs.allocateID order loop).2 },
      (n.nodeIDs.allocateID order loop).1.toUInt16)
  else (n, n.getNodeIDForNode node)

/-- A round that meets an address with another identifier unmaps all addresses of the node, and the
next round starts over. -/
def allocateIDForNodeLoop (order : IterationOrder) (oldNode : Option Node) (node : Node) :
    Nat → LinuxNodeHandler → Option (LinuxNodeHandler × UInt16 × List String)
  | 0, _ => none
  | fuel + 1, n =>
    if (n.chooseID order fuel node).2 = 0 then
      some ((n.chooseID order fuel node).1, 0, ["no available node ID " ++ node.name.quote])
    else
      match mapIPs (n.chooseID order fuel node).2
          (oldNode.all fun old => old.encryptionKey != node.encryptionKey) node.encryptionKey
          node.ipAddresses (n.chooseID order fuel node).1 [] with
      | (stale, none) =>
        allocateIDForNodeLoop order oldNode node fuel (stale.unmapNodeIDs node.ipAddresses)
      | (mapped, some errs) => some (mapped, (n.chooseID order fuel node).2, errs)

/-- Every round that is not the last but one uses up an outcome of the BPF map. -/
def allocateIDForNode (order : IterationOrder) (oldNode : Option Node)
    (node : Node) : LinuxNodeHandler × UInt16 × List String :=
  (allocateIDForNodeLoop order oldNode node (n.nodeMap.outcomes.length + 2) n).getD
    (n, 0, ["out of rounds"])

/-- The addresses of an identifier, as a loop visits them. -/
def ipsOf (order : IterationOrder) (nodeID : UInt16) : List NodeIP :=
  order.visit 0 ((n.nodeIPsByIDs.lookup nodeID).getD ∅).keys

/-- The addresses that could not be unmapped are only logged. -/
def deallocateNodeIDLocked (order : IterationOrder) (nodeID : UInt16) : LinuxNodeHandler :=
  let unmapped := n.unmapNodeIDs (n.ipsOf order nodeID)
  { unmapped with nodeIDs := (unmapped.nodeIDs.insert nodeID.toUInt64).1 }

/-- The error for a node of two identifiers is overwritten before it is returned. -/
def deallocateIDForNode (order : IterationOrder) (oldNode : Node) : LinuxNodeHandler :=
  n.deallocateNodeIDLocked order (n.getNodeIDForNode oldNode)

def droppedIPs (oldIPs newIPs : List NodeIP) : List NodeIP := oldIPs.filter fun ip => ip ∉ newIPs

def diffAndUnmapNodeIPs (oldIPs newIPs : List NodeIP) : LinuxNodeHandler :=
  n.unmapNodeIDs (droppedIPs oldIPs newIPs)

def nodeUpdateLocked (order : IterationOrder) (oldNode : Option Node)
    (newNode : Node) : LinuxNodeHandler × List String :=
  let allocated := n.allocateIDForNode order oldNode newNode
  (match oldNode with
    | none => allocated.1
    | some oldNode => allocated.1.diffAndUnmapNodeIPs oldNode.ipAddresses newNode.ipAddresses,
  if allocated.2.2 = [] then []
    else ["failed to allocate ID for node " ++ newNode.name ++ ": " ++
      "\n".intercalate allocated.2.2])

def nodeDeleteLocked (order : IterationOrder) (names : AgentNames)
    (oldNode : Node) : LinuxNodeHandler :=
  if names.isLocal oldNode then n
  else if names.isManaged oldNode.name then n
  else n.deallocateIDForNode order oldNode

def storeNode (node : Node) : LinuxNodeHandler :=
  { n with nodes := n.nodes.insert node.identity node }

def nodeAdd (order : IterationOrder) (newNode : Node) : LinuxNodeHandler × List String :=
  if n.isInitialized then (n.storeNode newNode).nodeUpdateLocked order none newNode
  else (n.storeNode newNode, [])

def nodeUpdate (order : IterationOrder) (oldNode newNode : Node) : LinuxNodeHandler × List String :=
  if n.isInitialized then (n.storeNode newNode).nodeUpdateLocked order (some oldNode) newNode
  else (n.storeNode newNode, [])

/-- The node that is kept, or a restored one as it is given. -/
def deletedNode (oldNode : Node) : Option Node :=
  if oldNode.source = .restored then some oldNode else n.nodes.lookup oldNode.identity

section

variable (order : IterationOrder)

def nodeDelete (names : AgentNames) (oldNode : Node) : LinuxNodeHandler :=
  match n.deletedNode oldNode with
  | none => n
  | some cached =>
    let dropped := { n with nodes := n.nodes.erase oldNode.identity }
    if n.isInitialized then dropped.nodeDeleteLocked order names cached else dropped

def nodeValidateImplementation (node : Node) : LinuxNodeHandler × List String :=
  if n.isInitialized then n.nodeUpdateLocked order none node else (n, [])

def keptNodes : List Node :=
  order.visit 0 (n.nodes.entries.map Sigma.snd)

/-- Errors are left out. -/
def updateKeptNodes : LinuxNodeHandler :=
  run (fun n node => (n.nodeUpdateLocked order none node).1) n (n.keptNodes order)

def allNodeValidateImplementation : LinuxNodeHandler :=
  if n.isInitialized then n.updateKeptNodes order else n

/-- What the first change of the configuration does for the identifiers. -/
def nodeConfigurationChanged : LinuxNodeHandler :=
  if n.isInitialized then n else { n with isInitialized := true }.updateKeptNodes order

end

/-! ### Restoring the identifiers -/

/-- An identifier of several entries is removed from the pool more than once, which changes
nothing. -/
def registerNodeID (entry : (_ : Addr) × NodeValueV2) : LinuxNodeHandler :=
  { n with
    nodeIDsByIPs := n.nodeIDsByIPs.insert (.valid entry.1) entry.2.nodeID
    nodeIPsByIDs := setIPsByIDsMapping n.nodeIPsByIDs entry.2.nodeID (.valid entry.1)
    nodeIDs := (n.nodeIDs.remove entry.2.nodeID.toUInt64).1 }

def registerNodeIDAllocations (allocated : List ((_ : Addr) × NodeValueV2)) : LinuxNodeHandler :=
  allocated.foldl registerNodeID { n with nodeIDsByIPs := ∅, nodeIPsByIDs := ∅ }

/-- Entries with the identifier zero are removed. -/
def restoreNodeIDs (order : IterationOrder) (unreadable : Option String) : LinuxNodeHandler :=
  match unreadable with
  | some _ => n
  | none =>
    (n.registerNodeIDAllocations (order.visit 0 n.nodeMap.entries.entries)).unmapNodeIDs
      (order.visit 1 ((n.nodeMap.entries.entries.filter fun entry => entry.2.nodeID = 0).map
        fun entry => .valid entry.1))

end LinuxNodeHandler

end Constellation.Linux
