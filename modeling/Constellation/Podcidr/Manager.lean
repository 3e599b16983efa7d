/-
This file models the manager of the pod CIDRs of the nodes in the cluster-pool mode. A record of a
node's CIDRs is shared by the map of the nodes and the functions that change it, so that a change
is seen in the map at once, also if the function fails later.
-/
import Constellation.Multipool.Updating

namespace Constellation.Podcidr

open Ipam (Addr CIDR Family)
open Multipool (CidrSet Dual)
open Lib

/-! ### Errors -/

inductive AllocError
  | allocatorNotFound (cidrs : List CIDR) (family : Family)
  | allocatorFull
  | cidrAllocated (cidr : CIDR)
  | noAllocators (name v4 v6 : String)
  | conflicting (allocated requested : List CIDR)
  | notConfigured (cidr : CIDR)
  | setFull (set : String)
  | outOfRange (addr : Addr) (maskSize : Nat)
  | noCIDRsRemaining
  deriving DecidableEq, Repr

def allocatorType : Family → String
  | .ipv4 => "IPv4"
  | .ipv6 => "IPv6"

def cidrsString (cidrs : List CIDR) : String :=
  "[" ++ " ".intercalate (cidrs.map CIDR.string) ++ "]"

def setString (set : CidrSet) : String :=
  "clusterCIDR: " ++ set.clusterPrefix.string ++ ", nodeMask: " ++ toString set.nodeMaskSize

def getCIDRAllocatorsInfo (sets : List CidrSet) : String :=
  "[" ++ ", ".intercalate (sets.map setString) ++ "]"

def AllocError.message : AllocError → String
  | .allocatorNotFound cidrs family => "unable to allocate CIDR " ++ cidrsString cidrs ++
      " since allocator for " ++ allocatorType family ++ " addresses does not exist"
  | .allocatorFull => "allocator full"
  | .cidrAllocated cidr => "requested CIDR (" ++ cidr.string ++ ") is already allocated"
  | .noAllocators name v4 v6 => "Unable to allocate node CIDR for node " ++ name ++
      ". IPAMInfo: \x7bIPv4: " ++ v4 ++ ", IPv6: " ++ v6 ++ "\x7d. " ++
      "Please check that your configuration is correct."
  | .conflicting allocated requested => "node has CIDRs allocated (" ++ cidrsString allocated ++
      ") that conflict with requested CIDRs " ++ cidrsString requested
  | .notConfigured cidr => "allocator not configured for the requested CIDR " ++ cidr.string
  | .setFull set => "allocator " ++ set ++ " full"
  | .outOfRange addr maskSize => "CIDR: " ++ addr.string ++ "/" ++ toString maskSize ++
      " is out of the range of CIDR allocator"
  | .noCIDRsRemaining => "CIDR allocation failed; there are no remaining CIDRs left to allocate " ++
      "in the accepted range"

/-- A conflict is not an error of the whole request. -/
def AllocError.isConflict : AllocError → Bool
  | .cidrAllocated _ => true
  | _ => false

/-! ### Sets of blocks -/

/-- The position of a set and a CIDR, the last allocation first. -/
abbrev RevertStack := List (Nat × CIDR)

/-- A CIDR that is not in the range changes nothing. -/
def releaseIn (cidr : CIDR) (set : CidrSet) : CidrSet := (set.release cidr).getD set

def RevertStack.revert (stack : RevertStack) (sets : List CidrSet) : List CidrSet :=
  stack.foldl (fun sets entry => sets.modify entry.1 (releaseIn entry.2)) sets

def rangeError (set : CidrSet) (cidr : CIDR) : AllocError :=
  if (set.getIndexForAddr (set.blockAddr cidr.addr)).isNone then
    .outOfRange (set.blockAddr cidr.addr) set.nodeMaskSize
  else .outOfRange (set.blockAddr (CidrSet.lastIP cidr)) set.nodeMaskSize

/-- Occupies a CIDR in the first set whose range it is in. -/
def occupyFirst (cidr : CIDR) : List CidrSet → Except AllocError (Nat × List CidrSet)
  | [] => .error (.notConfigured cidr)
  | set :: rest =>
    if !set.inRange cidr then do
      let (index, later) ← occupyFirst cidr rest
      return (index + 1, set :: later)
    else if set.isFull then .error (.setFull (setString set))
    else
      match set.isAllocated cidr with
      | none => .error (rangeError set cidr)
      | some true => .error (.cidrAllocated cidr)
      | some false =>
        match set.occupy cidr with
        | none => .error (rangeError set cidr)
        | some later => .ok (0, later :: rest)

/-- Reverts what has been occupied on an error. -/
def occupyAll : List CIDR → List CidrSet → RevertStack →
    List CidrSet × Except AllocError RevertStack
  | [], sets, stack => (sets, .ok stack)
  | cidr :: rest, sets, stack =>
    match occupyFirst cidr sets with
    | .error error => (stack.revert sets, .error error)
    | .ok (index, later) => occupyAll rest later ((index, cidr) :: stack)

def allocateIPNet (family : Family) (sets : List CidrSet) (newCidrs : List CIDR) :
    List CidrSet × Except AllocError RevertStack :=
  if sets.isEmpty then (sets, .error (.allocatorNotFound newCidrs family))
  else occupyAll newCidrs sets []

/-- The next block of the first set that is not full. -/
def allocateFirstFreeCIDR : List CidrSet → Except AllocError (CIDR × Nat × List CidrSet)
  | [] => .error .allocatorFull
  | set :: rest =>
    if set.isFull then do
      let (cidr, index, later) ← allocateFirstFreeCIDR rest
      return (cidr, index + 1, set :: later)
    else
      match set.allocateNext with
      | .error _ => .error .noCIDRsRemaining
      | .ok (cidr, later) => .ok (cidr, 0, later :: rest)

/-- Releases a CIDR in the first set whose range it is in. -/
def releaseFirst (cidr : CIDR) : List CidrSet → List CidrSet
  | [] => []
  | set :: rest =>
    if !set.inRange cidr then set :: releaseFirst cidr rest
    else
      match set.release cidr with
      | none => set :: releaseFirst cidr rest
      | some later => later :: rest

def releaseCIDRs (sets : List CidrSet) (cidrs : List CIDR) : List CidrSet :=
  cidrs.foldl (fun sets cidr => releaseFirst cidr sets) sets

/-! ### The manager -/

structure CiliumNode where
  name : String
  resourceVersion : String
  podCIDRs : List CIDR
  error : String
  deriving DecidableEq, Repr

abbrev NodeCIDRs := Dual (List CIDR)

def NodeCIDRs.empty : NodeCIDRs := ⟨[], []⟩

def NodeCIDRs.podCIDRs (cidrs : NodeCIDRs) : List CIDR := cidrs.v4 ++ cidrs.v6

def splitPodCIDRs (podCIDRs : List CIDR) : NodeCIDRs where
  v4 := (podCIDRs.map CIDR.masked).filter (fun cidr => cidr.addr.family = .ipv4)
  v6 := (podCIDRs.map CIDR.masked).filter (fun cidr => cidr.addr.family = .ipv6)

def containsAll (outer inner : List CIDR) : Bool := inner.all (fun cidr => cidr ∈ outer)

inductive K8sOp
  | create
  | delete
  | update
  | updateStatus
  deriving DecidableEq, Repr

structure Manager where
  canAllocatePodCIDRs : Bool
  nodesToAllocate : GoMap String CiliumNode
  allocators : Dual (List CidrSet)
  nodes : GoMap String NodeCIDRs
  ciliumNodesToK8s : GoMap String (K8sOp × Option CiliumNode)

namespace Manager

def new (allocators : Dual (List CidrSet)) : Manager where
  canAllocatePodCIDRs := false
  nodesToAllocate := ∅
  allocators := allocators
  nodes := ∅
  ciliumNodesToK8s := ∅

variable (n : Manager)

def syncNode (op : K8sOp) (node : CiliumNode) : Manager :=
  { n with ciliumNodesToK8s := n.ciliumNodesToK8s.insert node.name (op, some node) }

def withSets (family : Family) (sets : List CidrSet) : Manager :=
  { n with allocators := n.allocators.set family sets }

variable (nodeName : String)

/-- Tells whether the node has a record. -/
def releaseIPNets : Manager × Bool :=
  match n.nodes.lookup nodeName with
  | none => (n, false)
  | some cidrs =>
    ({ n with
      nodes := n.nodes.erase nodeName
      allocators :=
        { v4 := releaseCIDRs n.allocators.v4 cidrs.v4
          v6 := releaseCIDRs n.allocators.v6 cidrs.v6 } }, true)

inductive Outcome
  | skipped
  | conflict (error : AllocError)
  | failed (error : AllocError)
  | allocated (cidrs : List CIDR) (revert : RevertStack)

/-- The CIDRs that the node asks for are allocated, or a free one if it asks for none. -/
def attempt (can : Bool) (family : Family) (sets : List CidrSet) (cidrs : List CIDR) :
    List CidrSet × Outcome :=
  if !can || sets.isEmpty then (sets, .skipped)
  else if cidrs.isEmpty then
    match allocateFirstFreeCIDR sets with
    | .error error => (sets, if error.isConflict then .conflict error else .failed error)
    | .ok (cidr, index, later) => (later, .allocated [cidr] [(index, cidr)])
  else
    match allocateIPNet family sets cidrs with
    | (later, .error error) => (later, if error.isConflict then .conflict error else .failed error)
    | (later, .ok stack) => (later, .allocated cidrs stack)

def Outcome.record (outcome : Outcome) (family : Family) (old : NodeCIDRs) : NodeCIDRs :=
  match outcome with
  | .allocated cidrs _ => old.set family cidrs
  | _ => old

def Outcome.isAllocated : Outcome → Bool
  | .allocated _ _ => true
  | _ => false

def Outcome.revert (outcome : Outcome) (sets : List CidrSet) : List CidrSet :=
  match outcome with
  | .allocated _ stack => stack.revert sets
  | _ => sets

def Outcome.conflict? : Outcome → Option AllocError
  | .conflict error => some error
  | _ => none

/-- The request is at odds with the record or with the configuration. -/
def checkRequest (old : Option NodeCIDRs) (requested : NodeCIDRs) : Option AllocError :=
  if n.allocators.v4.isEmpty && !requested.v4.isEmpty then
    some (.allocatorNotFound requested.v4 .ipv4)
  else if n.allocators.v6.isEmpty && !requested.v6.isEmpty then
    some (.allocatorNotFound requested.v6 .ipv6)
  else
    match old with
    | none => none
    | some old =>
      if !old.v4.isEmpty && n.allocators.v4.isEmpty then some (.allocatorNotFound old.v4 .ipv4)
      else if !old.v4.isEmpty && !containsAll old.v4 requested.v4 then
        some (.conflicting old.v4 requested.v4)
      else if !old.v6.isEmpty && n.allocators.v6.isEmpty then
        some (.allocatorNotFound old.v6 .ipv6)
      else if !old.v6.isEmpty && !containsAll old.v6 requested.v6 then
        some (.conflicting old.v6 requested.v6)
      else none

def canAllocate (old : Option NodeCIDRs) (family : Family) : Bool :=
  match old with
  | none => true
  | some old => (old.of family).isEmpty && n.canAllocatePodCIDRs

/-- A record that is in the map is changed there. -/
def share (cidrs : NodeCIDRs) : Manager :=
  if nodeName ∈ n.nodes then { n with nodes := n.nodes.insert nodeName cidrs } else n

/-- A free CIDR for each family the node asks nothing for. -/
def reuseIPNets (requested : NodeCIDRs) : Manager × Except AllocError (NodeCIDRs × Bool) :=
  let old := n.nodes.lookup nodeName
  match n.checkRequest old requested with
  | some error => (n, .error error)
  | none =>
    let (v4Sets, v4Outcome) :=
      attempt (n.canAllocate old .ipv4) .ipv4 n.allocators.v4 requested.v4
    let n4 := n.withSets .ipv4 v4Sets
    match v4Outcome with
    | .failed error => (n4, .error error)
    | _ =>
      let record4 := v4Outcome.record .ipv4 (old.getD NodeCIDRs.empty)
      let n4 := n4.share nodeName record4
      let (v6Sets, v6Outcome) :=
        attempt (n.canAllocate old .ipv6) .ipv6 n.allocators.v6 requested.v6
      let n6 := n4.withSets .ipv6 v6Sets
      match v6Outcome with
      | .failed error => (n6.withSets .ipv4 (v4Outcome.revert v4Sets), .error error)
      | _ =>
        let record := v6Outcome.record .ipv6 record4
        let n6 := n6.share nodeName record
        match v4Outcome.conflict?, v6Outcome.conflict? with
        | some error, some _ => (n6, .error error)
        | v4Err, v6Err =>
          let n6 := { n6 with nodes := n6.nodes.insert nodeName record }
          match v4Err.or v6Err with
          | some error => (n6, .error error)
          | none => (n6, .ok (record, v4Outcome.isAllocated || v6Outcome.isAllocated))

def allocateFree (sets : List CidrSet) :
    Except AllocError (List CIDR × RevertStack × List CidrSet) :=
  if sets.isEmpty then .ok ([], [], sets)
  else do
    let (cidr, index, later) ← allocateFirstFreeCIDR sets
    return ([cidr], [(index, cidr)], later)

/-- Of every family, unless the node has a record. -/
def allocateNext : Manager × Except AllocError (NodeCIDRs × Bool) :=
  match n.nodes.lookup nodeName with
  | some cidrs => (n, .ok (cidrs, false))
  | none =>
    match allocateFree n.allocators.v4 with
    | .error error => (n, .error error)
    | .ok (v4CIDRs, v4Revert, v4Sets) =>
      match allocateFree n.allocators.v6 with
      | .error error => (n.withSets .ipv4 (v4Revert.revert v4Sets), .error error)
      | .ok (v6CIDRs, _, v6Sets) =>
        let n := { n with allocators := ⟨v4Sets, v6Sets⟩ }
        if v4CIDRs.isEmpty && v6CIDRs.isEmpty then
          (n, .error (.noAllocators nodeName (getCIDRAllocatorsInfo n.allocators.v4)
            (getCIDRAllocatorsInfo n.allocators.v6)))
        else
          let cidrs : NodeCIDRs := ⟨v4CIDRs, v6CIDRs⟩
          ({ n with nodes := n.nodes.insert nodeName cidrs }, .ok (cidrs, true))

variable (node : CiliumNode)

/-- The CIDRs are those of the record, if there is one. -/
def reportError (error : AllocError) : CiliumNode :=
  { node with
    error := error.message
    podCIDRs := ((n.nodes.lookup node.name).map NodeCIDRs.podCIDRs).getD node.podCIDRs }

/-- Nothing to do, a node object with its CIDRs, or a node object whose status is to be updated. -/
inductive Allocation
  | nothing
  | allocated (node : CiliumNode)
  | status (node : CiliumNode)

def allocateNode : Manager × Allocation :=
  if node.podCIDRs.isEmpty then
    if !n.canAllocatePodCIDRs then
      ({ n with nodesToAllocate := n.nodesToAllocate.insert node.name node }, .nothing)
    else
      match n.allocateNext node.name with
      | (n, .error error) => (n, .status (n.reportError node error))
      | (n, .ok (cidrs, _)) =>
        (n, .allocated { node with podCIDRs := cidrs.podCIDRs, error := "" })
  else
    match n.reuseIPNets node.name (splitPodCIDRs node.podCIDRs) with
    | (n, .error error) => (n, .status (n.reportError node error))
    | (n, .ok (cidrs, allocated)) =>
      if allocated then
        (n, .allocated { node with podCIDRs := cidrs.podCIDRs, error := "" })
      else if !n.canAllocatePodCIDRs then
        ({ n with nodesToAllocate := n.nodesToAllocate.insert node.name node }, .nothing)
      else if node.error ≠ "" then (n, .status { node with error := "" })
      else (n, .nothing)

def upsertLocked : Manager :=
  match n.allocateNode node with
  | (n, .nothing) => n
  | (n, .status cn) =>
    if cn.resourceVersion ≠ "" then
      if cn.podCIDRs ≠ node.podCIDRs then n.syncNode .update cn else n.syncNode .updateStatus cn
    else n.syncNode .create cn
  | (n, .allocated cn) =>
    if cn.resourceVersion ≠ "" then n.syncNode .update cn else n.syncNode .create cn

def delete : Manager :=
  let n := if !n.canAllocatePodCIDRs then
      { n with nodesToAllocate := n.nodesToAllocate.erase node.name }
    else n
  match n.releaseIPNets node.name with
  | (n, false) => n
  | (n, true) =>
    { n with ciliumNodesToK8s := n.ciliumNodesToK8s.insert node.name (.delete, none) }

/-- Makes up for the allocations that were postponed, in any order. -/
def resync (order : IterationOrder) (n : Manager) : Manager :=
  if n.canAllocatePodCIDRs then n
  else
    let waiting := (order.visit 0 n.nodesToAllocate.entries).map (·.2)
    let n := waiting.foldl upsertLocked { n with canAllocatePodCIDRs := true }
    { n with nodesToAllocate := ∅ }

end Manager

inductive Event
  | upsert (node : CiliumNode)
  | delete (node : CiliumNode)
  | resync

def Manager.handle (order : IterationOrder) (n : Manager) : Event → Manager
  | .upsert node => n.upsertLocked node
  | .delete node => n.delete node
  | .resync => n.resync order

end Constellation.Podcidr
