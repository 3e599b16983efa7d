/-
This file models how the node manager gives the tunnel endpoints of remote nodes to the IP cache,
and proves when the two ways it does so agree. The entries of a node's pod CIDRs get the endpoint
on each update of the node; the entries of its pods get it by means of a table of overrides. The
table never loses a row, so the two agree only while no row outlives the override it was made for
and no two nodes with different endpoints share an address.
-/

import Constellation.Ipcache.Cache
import Constellation.K8s.NodeWatcher

namespace Constellation.Nodes

open Lib List Bool
open Ipam (Addr CIDR Family)
open Ipcache

/-! ### Nodes -/

inductive AddressType
  | hostName
  | internalIP
  | externalIP
  | internalDNS
  | externalDNS
  | ciliumInternalIP
  deriving DecidableEq, Repr

structure NodeAddress where
  type : AddressType
  ip : Addr
  deriving DecidableEq, Repr

structure NodeIdentity where
  name : String
  cluster : String
  deriving DecidableEq, Repr

structure Node where
  name : String
  cluster : String
  source : Source
  ipAddresses : List NodeAddress
  ipv4AllocCIDRs : List CIDR
  ipv6AllocCIDRs : List CIDR
  encryptionKey : Nat
  deriving DecidableEq, Repr

/-- An internal address is taken at once, an external one replaces the address to fall back to, and
any other is only kept if there is none yet. -/
def extractNodeIP (ipv6 : Bool) : Option Addr → List NodeAddress → Option Addr
  | backupIP, [] => backupIP
  | backupIP, address :: rest =>
    if (address.ip.family == Family.ipv6) != ipv6 then extractNodeIP ipv6 backupIP rest
    else
      match address.type with
      | .ciliumInternalIP => extractNodeIP ipv6 backupIP rest
      | .internalIP => some address.ip
      | .externalIP => extractNodeIP ipv6 (some address.ip) rest
      | _ => extractNodeIP ipv6 (backupIP.or (some address.ip)) rest

namespace Node

def identity (node : Node) : NodeIdentity := ⟨node.name, node.cluster⟩

def getNodeIP (node : Node) (ipv6 : Bool) : Option Addr := extractNodeIP ipv6 none node.ipAddresses

end Node

/-! ### The manager -/

/-- The overrides by node name, the address family of the underlay, the local node, the nodes that
this host manages, and the cluster that the prefixes of a node are annotated with. -/
structure Config where
  tunnelEndpointOverrides : GoMap String Addr
  underlayIPv6 : Bool
  nodeName : String
  clusterName : String
  watcher : K8s.NodeWatcher
  clusterID : Node → Nat

def isLocallyReachable (connectedPrefixes : List CIDR) (addr : Addr) : Bool :=
  connectedPrefixes.any (·.contains addr)

/-- The override of a node that is configured and reachable, or the fallback. -/
def lookupTunnelEndpointOverride (overrides : GoMap String Addr) (connectedPrefixes : List CIDR)
    (nodeName : String) (fallback : Option Addr) : Option Addr :=
  match overrides.lookup nodeName with
  | none => fallback
  | some addr => if isLocallyReachable connectedPrefixes addr then some addr else fallback

namespace Config

variable (config : Config)

def isLocal (node : Node) : Bool :=
  decide (node.name = config.nodeName ∧ node.cluster = config.clusterName)

def isManaged (name : String) : Bool :=
  config.watcher.isManaged config.nodeName name

def nodeIP (node : Node) : Option Addr := node.getNodeIP config.underlayIPv6

def tunnelEndpoint (connectedPrefixes : List CIDR) (node : Node) : Option Addr :=
  lookupTunnelEndpointOverride config.tunnelEndpointOverrides connectedPrefixes node.name
    (config.nodeIP node)

end Config

structure PodCIDREntry where
  cidrCluster : PrefixCluster
  source : Source
  resource : String
  tunnelPeer : Option Addr
  encryptKey : Nat
  deriving DecidableEq, Repr

def podCIDREntries (source : Source) (resource : String) (prefixes : List PrefixCluster)
    (tunnelIP : Option Addr) (encryptKey : Nat) : List PodCIDREntry :=
  prefixes.map fun cidrCluster => ⟨cidrCluster, source, resource, tunnelIP, encryptKey⟩

/-- With the pod CIDR entries that the latest update of each node gave to the cache. -/
structure Manager where
  nodes : GoMap NodeIdentity Node
  ipcache : IPCache
  podCIDRs : GoMap NodeIdentity (List PodCIDREntry)

namespace Manager

def start : Manager := ⟨∅, IPCache.new, ∅⟩

/-- A managed node is on this host and gets no tunnel endpoint. -/
def podCIDREntriesOf (config : Config) (node : Node) (nodeIP : Option Addr) : List PodCIDREntry :=
  if config.isLocal node then []
  else
    let cidrTunnelIP := if config.isManaged node.name then none else nodeIP
    let entries (cidrs : List CIDR) :=
      podCIDREntries node.source node.name (cidrs.map fun cidr => ⟨cidr, config.clusterID node⟩)
        cidrTunnelIP node.encryptionKey
    entries node.ipv4AllocCIDRs ++ entries node.ipv6AllocCIDRs

/-- An override that is applied becomes a row of the table, unless the node is on this host. -/
def registerOverride (config : Config) (ipcache : IPCache) (node : Node)
    (overridden : Option Addr) : IPCache :=
  match overridden with
  | none => ipcache
  | some overrideIP =>
    if overridden ≠ config.nodeIP node ∧ config.isManaged node.name = false then
      ipcache.setTunnelEndpointOverride (config.nodeIP node) overrideIP
    else ipcache

/-- The entries of the pod CIDRs are written before it is known whether the source of the update may
overwrite the node. -/
def nodeUpdated (config : Config) (connectedPrefixes : List CIDR) (manager : Manager)
    (node : Node) : Manager :=
  let overridden := config.tunnelEndpoint connectedPrefixes node
  { nodes :=
      match manager.nodes.lookup node.identity with
      | none => manager.nodes.insert node.identity node
      | some known =>
        if Source.allowOverwrite known.source node.source then
          manager.nodes.insert node.identity node
        else manager.nodes
    ipcache := registerOverride config manager.ipcache node overridden
    podCIDRs := manager.podCIDRs.insert node.identity (podCIDREntriesOf config node overridden) }

/-- Only the source of a node may delete it, apart from the deletion of a node that was restored. -/
def nodeDeleted (manager : Manager) (node : Node) : Manager :=
  let deleted :=
    { manager with
      nodes := manager.nodes.erase node.identity
      podCIDRs := manager.podCIDRs.erase node.identity }
  if node.source = .restored then deleted
  else
    match manager.nodes.lookup node.identity with
    | none => manager
    | some known => if node.source ≠ known.source then manager else deleted

end Manager

/-- With the subnets that the host is connected to at the time. -/
inductive Action
  | nodeUpdated (connectedPrefixes : List CIDR) (node : Node)
  | nodeDeleted (node : Node)
  | upsert (ip : Option Key) (hostIP : Option Addr) (hostKey : Nat)
      (k8sMeta : Option K8sMetadata) (newIdentity : Identity)
  | upsertLocked (call : UpsertCall)
  | deleteLocked (ip : Option Key) (source : Source)

namespace Manager

variable (config : Config) (manager : Manager)

def step : Action → Manager
  | .nodeUpdated connectedPrefixes node => manager.nodeUpdated config connectedPrefixes node
  | .nodeDeleted node => manager.nodeDeleted node
  | .upsert ip hostIP hostKey k8sMeta newIdentity =>
    { manager with
      ipcache := (manager.ipcache.upsert ip hostIP hostKey k8sMeta newIdentity).cache }
  | .upsertLocked call => { manager with ipcache := (manager.ipcache.upsertLocked call).cache }
  | .deleteLocked ip source =>
    { manager with ipcache := (manager.ipcache.deleteLocked ip source).1 }

/-- Neither the local node nor one on this host. -/
def isRemote (node : Node) : Bool := !config.isLocal node && !config.isManaged node.name

/-- No other node that is reached through a tunnel has the address. -/
def IsSoleOwner (node : Node) (hostIP : Addr) : Prop :=
  ∀ id ∈ manager.nodes.keys, id ≠ node.identity →
    ∀ other ∈ (manager.nodes.lookup id).toList, isRemote config other = true →
      config.nodeIP other ≠ some hostIP
  deriving Decidable

variable (connectedPrefixes : List CIDR)

/-- Without an override, the address of the node has no row in the table. With one, its row has the
override already, or no other node has the address. If the known node is kept, it has the same
address. -/
def KeepsRows (node : Node) : Prop :=
  (∀ hostIP ∈ (config.nodeIP node).toList,
    if config.tunnelEndpoint connectedPrefixes node = some hostIP then
      config.isLocal node = true ∨
        manager.ipcache.tunnelEndpointOverrides.lookup (some hostIP) = none
    else
      manager.ipcache.tunnelEndpointOverrides.lookup (some hostIP) =
          config.tunnelEndpoint connectedPrefixes node ∨
        manager.IsSoleOwner config node hostIP) ∧
    ∀ known ∈ (manager.nodes.lookup node.identity).toList,
      Source.allowOverwrite known.source node.source = false →
        config.nodeIP known = config.nodeIP node
  deriving Decidable

def Settled : Action → Prop
  | .nodeUpdated connectedPrefixes node => config.isManaged node.name = true ∨
    manager.KeepsRows config connectedPrefixes node
  | _ => True

instance : ∀ action, Decidable (manager.Settled config action) := by
  intro action
  cases action <;> delta Settled <;> infer_instance

/-! ### Rows and endpoints -/

/-- Every entry of the pod CIDRs of a node has the endpoint that the table gives for the address of
the node. -/
structure Rewrites (manager : Manager) : Prop where
  identity_eq : ∀ id node, manager.nodes.lookup id = some node → node.identity = id
  peer_eq : ∀ id node, manager.nodes.lookup id = some node → isRemote config node = true →
    ∀ hostIP, config.nodeIP node = some hostIP → ∀ entry ∈ (manager.podCIDRs.lookup id).getD [],
        entry.tunnelPeer = manager.ipcache.overrideHostIP (some hostIP)

variable {config} {manager : Manager} {node : Node} {ipcache : IPCache}

theorem overrideHostIP_registerOverride {overridden : Option Addr} (hostIP : Addr) :
    (registerOverride config ipcache node overridden).overrideHostIP (some hostIP) =
      if overridden ≠ config.nodeIP node ∧ overridden.isSome = true ∧
          config.isManaged node.name = false ∧ config.nodeIP node = some hostIP then overridden
      else ipcache.overrideHostIP (some hostIP) := by
  unfold registerOverride
  cases overridden with
  | none => simp
  | some overrideIP =>
    dsimp only
    split
    case isTrue applied =>
      unfold IPCache.overrideHostIP IPCache.setTunnelEndpointOverride
      dsimp only
      rw [GoMap.lookup_insert_if]
      by_cases same : config.nodeIP node = some hostIP
      · rw [if_pos same.symm, if_pos ⟨applied.1, rfl, applied.2, same⟩]
        rfl
      · rw [if_neg (Ne.symm same), if_neg fun applies => same applies.2.2.2]
    case isFalse skipped =>
      rw [if_neg fun applies => skipped ⟨applies.1, applies.2.2.1⟩]

variable {hostIP : Addr}

theorem tunnelEndpoint_isSome (connectedPrefixes : List CIDR)
    (address : config.nodeIP node = some hostIP) :
    (config.tunnelEndpoint connectedPrefixes node).isSome = true := by
  unfold Config.tunnelEndpoint lookupTunnelEndpointOverride
  rw [address]
  split
  · rfl
  · split <;> rfl

/-- The pod CIDRs of a node that is reached through a tunnel have its endpoint. -/
theorem tunnelPeer_of_mem {nodeIP : Option Addr} {entry : PodCIDREntry}
    (remote : isRemote config node = true) (member : entry ∈ podCIDREntriesOf config node nodeIP) :
    entry.tunnelPeer = nodeIP := by
  obtain ⟨notLocal, notManaged⟩ := and_eq_true_iff.mp remote
  rw [not_eq_true'] at notLocal notManaged
  simp only [podCIDREntriesOf, notLocal, notManaged, false_eq_true, if_false, podCIDREntries,
    mem_append, mem_map] at member
  rcases member with ⟨_, _, rfl⟩ | ⟨_, _, rfl⟩ <;> rfl

variable {connectedPrefixes : List CIDR} {other : Node}

/-- The nodes after an update: the others, and the updated node or the known one. -/
theorem lookup_nodeUpdated {found : Node} {id : NodeIdentity}
    (known : (manager.nodeUpdated config connectedPrefixes node).nodes.lookup id = some found) :
    id ≠ node.identity ∧ manager.nodes.lookup id = some found ∨
      id = node.identity ∧ (found = node ∨ manager.nodes.lookup id = some found ∧
        Source.allowOverwrite found.source node.source = false) := by
  unfold Manager.nodeUpdated at known
  have inserted (known : (manager.nodes.insert node.identity node).lookup id = some found) :
      id ≠ node.identity ∧ manager.nodes.lookup id = some found ∨
        id = node.identity ∧ found = node := by
    rw [GoMap.lookup_insert_if] at known
    split at known
    case isTrue same => exact .inr ⟨same, (Option.some.inj known).symm⟩
    case isFalse differs => exact .inl ⟨differs, known⟩
  split at known
  · exact (inserted known).imp_right fun ⟨same, updated⟩ => ⟨same, .inl updated⟩
  case h_2 earlier present =>
    split at known
    · exact (inserted known).imp_right fun ⟨same, updated⟩ => ⟨same, .inl updated⟩
    case isFalse refused =>
      by_cases same : id = node.identity
      · refine .inr ⟨same, .inr ⟨known, ?_⟩⟩
        rw [same, present] at known
        rw [← Option.some.inj known]
        exact eq_false_iff.mpr refused
      · exact .inl ⟨same, known⟩

theorem isRemote_congr (same : node.identity = other.identity) :
    isRemote config node = isRemote config other := by
  have name : node.name = other.name := congrArg NodeIdentity.name same
  have cluster : node.cluster = other.cluster := congrArg NodeIdentity.cluster same
  rw [isRemote, isRemote, Config.isLocal, Config.isLocal, name, cluster]

theorem overrideHostIP_updated (remote : isRemote config node = true)
    (address : config.nodeIP node = some hostIP)
    (keeps : manager.KeepsRows config connectedPrefixes node) :
    (registerOverride config manager.ipcache node
        (config.tunnelEndpoint connectedPrefixes node)).overrideHostIP (some hostIP) =
      config.tunnelEndpoint connectedPrefixes node := by
  obtain ⟨notLocal, notManaged⟩ := and_eq_true_iff.mp remote
  rw [not_eq_true'] at notLocal notManaged
  rw [overrideHostIP_registerOverride]
  have row := keeps.1 hostIP (by rw [address]; exact mem_singleton_self hostIP)
  by_cases same : config.tunnelEndpoint connectedPrefixes node = some hostIP
  · rw [if_neg fun applied => applied.1 (same.trans address.symm)]
    rw [if_pos same, notLocal] at row
    rw [IPCache.overrideHostIP, row.resolve_left false_ne_true, same]
    rfl
  · exact if_pos ⟨fun equal => same (equal.trans address),
      tunnelEndpoint_isSome connectedPrefixes address, notManaged, address⟩

/-- The row of another node is left alone, or has the endpoint of the updated node already. -/
theorem overrideHostIP_other
    (settled : manager.Settled config (.nodeUpdated connectedPrefixes node))
    (known : manager.nodes.lookup other.identity = some other)
    (differs : other.identity ≠ node.identity) (remote : isRemote config other = true)
    (address : config.nodeIP other = some hostIP) :
    (registerOverride config manager.ipcache node
        (config.tunnelEndpoint connectedPrefixes node)).overrideHostIP (some hostIP) =
      manager.ipcache.overrideHostIP (some hostIP) := by
  rw [overrideHostIP_registerOverride]
  split
  case isFalse _ => rfl
  case isTrue applied =>
    obtain ⟨overridden, _, notManaged, shared⟩ := applied
    have keeps : manager.KeepsRows config connectedPrefixes node :=
      settled.resolve_left (by rw [notManaged]; exact false_ne_true)
    have row := keeps.1 hostIP (by rw [shared]; exact mem_singleton_self hostIP)
    rw [if_neg fun same => overridden (same.trans shared.symm)] at row
    rcases row with already | sole
    · cases endpoint : config.tunnelEndpoint connectedPrefixes node with
      | none =>
        have isSome := tunnelEndpoint_isSome connectedPrefixes shared
        rw [endpoint] at isSome
        cases isSome
      | some overrideIP =>
        rw [IPCache.overrideHostIP, already, endpoint]
        rfl
    · exact absurd address (sole _ ((GoMap.mem_of_lookup known)) differs other
        (by rw [known]; exact mem_singleton_self other) remote)

section

variable (rewrites : manager.Rewrites config)
include rewrites

theorem Rewrites.nodeUpdated
    (settled : manager.Settled config (.nodeUpdated connectedPrefixes node)) :
    (manager.nodeUpdated config connectedPrefixes node).Rewrites config := by
  refine ⟨fun id found known => ?_, fun id found known remote hostIP address entry member => ?_⟩
  · rcases lookup_nodeUpdated known with ⟨_, earlier⟩ | ⟨same, rfl | ⟨earlier, _⟩⟩
    · exact rewrites.identity_eq id found earlier
    · exact same.symm
    · exact rewrites.identity_eq id found earlier
  · change entry ∈ ((manager.podCIDRs.insert node.identity _).lookup id).getD [] at member
    rw [GoMap.lookup_insert_if] at member
    rcases lookup_nodeUpdated known with ⟨differs, earlier⟩ | ⟨rfl, kept⟩
    · rw [if_neg differs] at member
      obtain rfl := rewrites.identity_eq id found earlier
      refine (rewrites.peer_eq _ found earlier remote hostIP address entry member).trans ?_
      exact (overrideHostIP_other settled earlier differs remote address).symm
    · rw [if_pos rfl] at member
      have same : found.identity = node.identity := by
        rcases kept with rfl | ⟨earlier, _⟩
        · rfl
        · exact rewrites.identity_eq _ found earlier
      rw [isRemote_congr same] at remote
      have keeps : manager.KeepsRows config connectedPrefixes node := by
        refine settled.resolve_left fun managed => ?_
        rw [isRemote, managed, Bool.not_true, Bool.and_false] at remote
        cases remote
      have shared : config.nodeIP found = config.nodeIP node := by
        rcases kept with rfl | ⟨earlier, refused⟩
        · rfl
        · exact keeps.2 found (by rw [earlier]; exact mem_singleton_self found) refused
      rw [shared] at address
      exact (tunnelPeer_of_mem remote member).trans
        (overrideHostIP_updated remote address keeps).symm

theorem Rewrites.nodeDeleted (node : Node) : (manager.nodeDeleted node).Rewrites config := by
  have deleted : ({ manager with
      nodes := manager.nodes.erase node.identity
      podCIDRs := manager.podCIDRs.erase node.identity } : Manager).Rewrites config := by
    refine ⟨fun id other found => ?_, fun id other found remote hostIP address entry member => ?_⟩
    · rw [GoMap.lookup_erase_if] at found
      split at found
      · cases found
      · exact rewrites.identity_eq id other found
    · rw [GoMap.lookup_erase_if] at found member
      split at found
      · cases found
      case isFalse differs =>
        rw [if_neg differs] at member
        exact rewrites.peer_eq id other found remote hostIP address entry member
  unfold Manager.nodeDeleted
  split
  · exact deleted
  · split
    · exact rewrites
    · split
      · exact rewrites
      · exact deleted

theorem Rewrites.ofOverrides
    (same : ipcache.tunnelEndpointOverrides = manager.ipcache.tunnelEndpointOverrides) :
    ({ manager with ipcache := ipcache } : Manager).Rewrites config := by
  refine ⟨rewrites.identity_eq, fun id node found remote hostIP address entry member => ?_⟩
  rw [rewrites.peer_eq id node found remote hostIP address entry member]
  unfold IPCache.overrideHostIP
  rw [same]

theorem Rewrites.step (action : Action) (settled : manager.Settled config action) :
    (manager.step config action).Rewrites config := by
  cases action with
  | nodeUpdated connectedPrefixes node => exact rewrites.nodeUpdated settled
  | nodeDeleted node => exact rewrites.nodeDeleted node
  | upsert ip hostIP hostKey k8sMeta newIdentity | upsertLocked call =>
    exact rewrites.ofOverrides (IPCache.upsertLocked_tunnelEndpointOverrides _)
  | deleteLocked ip source =>
    exact rewrites.ofOverrides (IPCache.deleteLocked_tunnelEndpointOverrides ip source)

end

theorem rewrites_start : start.Rewrites config :=
  ⟨fun _ _ known => absurd known (by simp [start]),
    fun _ _ known => absurd known (by simp [start])⟩

/-- For every live node that is reached through a tunnel, an entry that is inserted for a pod with
the address of the node as its host gets the endpoint of the node's pod CIDRs. -/
def EndpointsAgree (config : Config) (manager : Manager) : Prop :=
  ∀ id node, manager.nodes.lookup id = some node → isRemote config node = true →
    ∀ hostIP, config.nodeIP node = some hostIP → ∀ ip hostKey k8sMeta newIdentity,
        let inserted := manager.ipcache.upsert (some ip) (some hostIP) hostKey k8sMeta newIdentity
        inserted.err = none → ∀ entry ∈ (manager.podCIDRs.lookup id).getD [],
          (inserted.cache.getHostIPCache ip).1 = entry.tunnelPeer

/-- Along every run of settled events, the entries of pods and of pod CIDRs get the same tunnel
endpoint. -/
theorem run_endpointsAgree (config : Config) (actions : List Action)
    (meets : Meets (step config) (Settled config) start actions) :
    EndpointsAgree config (run (step config) start actions) := by
  have rewrites : (run (step config) start actions).Rewrites config :=
    meets.invariant (Rewrites config) (fun _ action rewrites => rewrites.step action) rewrites_start
  intro id node known remote hostIP address ip hostKey k8sMeta newIdentity inserted stored entry
    member
  rw [rewrites.peer_eq id node known remote hostIP address entry member]
  exact IPCache.upsertLocked_getHostIPCache rfl stored

def underlayAddr (last : Fin 256) : Addr := ⟨.ipv4, 0x0a000000 + last, by grind [Family.bitLen]⟩

def linkAddr : Addr := ⟨.ipv4, 0xc0a83201, by decide⟩

def linkSubnet : CIDR := ⟨linkAddr, 24, by decide⟩

def linkedConfig : Config where
  tunnelEndpointOverrides := (∅ : GoMap String Addr).insert "linked" linkAddr
  underlayIPv6 := false
  nodeName := "local"
  clusterName := "default"
  watcher := ⟨∅, []⟩
  clusterID _ := 0

def nodeAt (name : String) (ip : Addr) : Node where
  name := name
  cluster := "default"
  source := .customResource
  ipAddresses := [⟨.internalIP, ip⟩]
  ipv4AllocCIDRs := [⟨⟨.ipv4, 0x0a010000, by decide⟩, 24, by decide⟩]
  ipv6AllocCIDRs := []
  encryptionKey := 0

/-- Two nodes with an address each, one of them with an override. -/
def separateNodes : List Action :=
  [.nodeUpdated [linkSubnet] (nodeAt "linked" (underlayAddr 1)),
    .nodeUpdated [linkSubnet] (nodeAt "plain" (underlayAddr 2))]

/-- A node takes over the address of a deleted node that had an override. -/
def reusedAddress : List Action :=
  [.nodeUpdated [linkSubnet] (nodeAt "linked" (underlayAddr 1)),
    .nodeDeleted (nodeAt "linked" (underlayAddr 1)),
    .nodeUpdated [linkSubnet] (nodeAt "plain" (underlayAddr 1))]

theorem separateNodes_endpointsAgree :
    Meets (step linkedConfig) (Settled linkedConfig) start separateNodes ∧
      EndpointsAgree linkedConfig (run (step linkedConfig) start separateNodes) :=
  have meets : Meets (step linkedConfig) (Settled linkedConfig) start separateNodes := by
    decide +kernel
  ⟨meets, run_endpointsAgree linkedConfig separateNodes meets⟩

/-- The row of the deleted node sends the pods of the new one over the direct link. -/
theorem reusedAddress_endpoints_differ :
    ¬EndpointsAgree linkedConfig (run (step linkedConfig) start reusedAddress) := by
  intro agree
  have stored := agree ⟨"plain", "default"⟩ (nodeAt "plain" (underlayAddr 1)) (by decide +kernel)
    (by decide +kernel) (underlayAddr 1) (by decide +kernel)
    (.endpoint ⟨⟨.ipv4, 0x0a010005, by decide⟩, 0⟩) 0 none ⟨.customResource, none, 5, false, false⟩
    (by decide +kernel)
    ⟨⟨⟨⟨.ipv4, 0x0a010000, by decide⟩, 24, by decide⟩, 0⟩, .customResource, "plain",
      some (underlayAddr 1), 0⟩ (by decide +kernel)
  revert stored
  decide +kernel

end Manager

end Constellation.Nodes
