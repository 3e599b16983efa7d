/-
This file models the IP cache: the maps from addresses and prefixes to identities, host addresses,
keys and flags, and the calls that write, remove and report entries. An endpoint address and the
prefix of that single address are two keys of the maps, but one prefix to a listener; the entry of
the prefix may be marked as shadowed.
-/

import Constellation.Lib.GoMap
import Constellation.Ipam.Range

namespace Constellation.Ipcache

open Lib
open Ipam (Addr CIDR)

/-! ### Sources -/

inductive Source
  | kubeAPIServer
  | localAgent
  | kvStore
  | customResource
  | kubernetes
  | clusterMesh
  | directory
  | localAPI
  | generated
  | restored
  | unspec
  deriving DecidableEq, Repr

namespace Source

/-- From the highest precedence to the lowest. -/
def defaultSources : List Source :=
  [kubeAPIServer, localAgent, kvStore, customResource, kubernetes, clusterMesh, directory,
    localAPI, generated, restored, unspec]

def allowOverwrite (existing next : Source) : Bool :=
  decide (defaultSources.idxOf next ≤ defaultSources.idxOf existing)

end Source

/-! ### Keys -/

/-- The cluster is zero where it does not matter. -/
structure AddrCluster where
  addr : Addr
  clusterID : Nat
  deriving DecidableEq, Repr

structure PrefixCluster where
  cidr : CIDR
  clusterID : Nat
  deriving DecidableEq, Repr

namespace PrefixCluster

def isSingleIP (cidrCluster : PrefixCluster) : Bool :=
  decide (cidrCluster.cidr.bits = cidrCluster.cidr.addr.family.bitLen)

def addrCluster (cidrCluster : PrefixCluster) : AddrCluster :=
  ⟨cidrCluster.cidr.addr, cidrCluster.clusterID⟩

end PrefixCluster

namespace AddrCluster

variable (addrCluster : AddrCluster)

def asPrefixCluster : PrefixCluster :=
  ⟨⟨addrCluster.addr, addrCluster.addr.family.bitLen, le_rfl⟩, addrCluster.clusterID⟩

@[simp]
theorem isSingleIP_asPrefixCluster : addrCluster.asPrefixCluster.isSingleIP = true :=
  decide_eq_true rfl

@[simp]
theorem addrCluster_asPrefixCluster : addrCluster.asPrefixCluster.addrCluster = addrCluster := rfl

end AddrCluster

/-- A prefix of a single address is the one that its address is converted to. -/
theorem PrefixCluster.asPrefixCluster_addrCluster {cidrCluster : PrefixCluster}
    (single : cidrCluster.isSingleIP = true) :
    cidrCluster.addrCluster.asPrefixCluster = cidrCluster := by
  obtain ⟨⟨addr, bits, bits_le⟩, clusterID⟩ := cidrCluster
  obtain rfl : bits = addr.family.bitLen := of_decide_eq_true single
  rfl

/-- The source has the key's text, of which every key has one. -/
inductive Key
  | endpoint (addrCluster : AddrCluster)
  | cidr (cidrCluster : PrefixCluster)
  deriving DecidableEq, Repr

/-- The prefix by which listeners know the entry of a key. -/
def Key.cidrCluster : Key → PrefixCluster
  | .endpoint addrCluster => addrCluster.asPrefixCluster
  | .cidr cidrCluster => cidrCluster

/-! ### Entries -/

structure Identity where
  source : Source
  overwrittenLegacySource : Option Source
  id : Nat
  modifiedByLegacyAPI : Bool
  shadowed : Bool
  deriving DecidableEq, Repr

namespace Identity

def equals (identity other : Identity) : Bool := decide (identity = other)

def exclusivelyOwnedByMetadataAPI (identity : Identity) : Bool := !identity.modifiedByLegacyAPI

end Identity

structure IPKeyPair where
  ip : Addr
  key : Nat
  deriving DecidableEq, Repr

structure PortProto where
  port : Nat
  proto : Nat
  deriving DecidableEq, Repr

structure K8sMetadata where
  podNamespace : String
  podName : String
  namedPorts : GoMap String PortProto

namespace K8sMetadata

/-- What is read for a key without metadata. -/
def zero : K8sMetadata := ⟨"", "", ∅⟩

/-- No value equals the nil pointer. -/
def equal (metadata : K8sMetadata) : Option K8sMetadata → Bool
  | none => false
  | some other =>
    decide (metadata.namedPorts.keys.length = other.namedPorts.keys.length) &&
      metadata.namedPorts.keys.all (fun name =>
        decide (other.namedPorts.lookup name = metadata.namedPorts.lookup name)) &&
      decide (metadata.podNamespace = other.podNamespace ∧ metadata.podName = other.podName)

end K8sMetadata

/-! ### Prefix lengths -/

abbrev IntCounter := GoMap Nat Nat

namespace IntCounter

def add (counter : IntCounter) (key : Nat) : IntCounter :=
  counter.insert key ((counter.lookup key).getD 0 + 1)

def delete (counter : IntCounter) (key : Nat) : IntCounter :=
  let value := (counter.lookup key).getD 0
  if value ≤ 1 then counter.erase key else counter.insert key (value - 1)

end IntCounter

/-- The limits are those of the address families and are never exceeded. -/
structure PrefixLengthCounter where
  v4 : IntCounter
  v6 : IntCounter

namespace PrefixLengthCounter

def add (counter : PrefixLengthCounter) (cidr : CIDR) : PrefixLengthCounter :=
  match cidr.addr.family with
  | .ipv4 => { counter with v4 := counter.v4.add cidr.bits }
  | .ipv6 => { counter with v6 := counter.v6.add cidr.bits }

def delete (counter : PrefixLengthCounter) (cidr : CIDR) : PrefixLengthCounter :=
  match cidr.addr.family with
  | .ipv4 => { counter with v4 := counter.v4.delete cidr.bits }
  | .ipv6 => { counter with v6 := counter.v6.delete cidr.bits }

/-- Hosts and the world count from the start. -/
def defaultCounter : PrefixLengthCounter :=
  ⟨(IntCounter.add ∅ 0).add 32, (IntCounter.add ∅ 0).add 128⟩

end PrefixLengthCounter

/-! ### The cache -/

/-- The table of overrides is keyed by the text of a host address, which is that of no address for a
node without one. -/
structure IPCache where
  ipToIdentityCache : GoMap Key Identity
  identityToIPCache : GoMap Nat (GoSet Key)
  ipToHostIPCache : GoMap Key IPKeyPair
  ipToK8sMetadata : GoMap Key K8sMetadata
  ipToEndpointFlags : GoMap Key Nat
  prefixLengths : PrefixLengthCounter
  tunnelEndpointOverrides : GoMap (Option Addr) Addr

inductive CacheModification
  | upsert
  | delete
  deriving DecidableEq, Repr

structure CacheChange where
  modType : CacheModification
  cidrCluster : PrefixCluster
  oldHostIP : Option Addr
  newHostIP : Option Addr
  oldIdentity : Option Identity
  newIdentity : Identity
  encryptKey : Nat
  k8sMeta : Option K8sMetadata
  endpointFlags : Nat

inductive UpsertError
  | overwrite (existing next : Source)
  | invalidIP
  deriving DecidableEq, Repr

/-- A text that is neither a prefix nor an address is `none`. -/
structure UpsertCall where
  ip : Option Key
  hostIP : Option Addr
  hostKey : Nat
  k8sMeta : Option K8sMetadata
  newIdentity : Identity
  endpointFlags : Nat
  force : Bool
  fromLegacyAPI : Bool

structure UpsertResult where
  cache : IPCache
  changes : List CacheChange
  err : Option UpsertError

namespace IPCache

def new : IPCache := ⟨∅, ∅, ∅, ∅, ∅, PrefixLengthCounter.defaultCounter, ∅⟩

variable (cache : IPCache) (ip : Key)

def getHostIPCache : Option Addr × Nat :=
  match cache.ipToHostIPCache.lookup ip with
  | none => (none, 0)
  | some pair => (some pair.ip, pair.key)

def getEndpointFlags : Nat :=
  (cache.ipToEndpointFlags.lookup ip).getD 0

def setTunnelEndpointOverride (originalIP : Option Addr) (overrideIP : Addr) : IPCache :=
  { cache with
    tunnelEndpointOverrides := cache.tunnelEndpointOverrides.insert originalIP overrideIP }

def overrideHostIP : Option Addr → Option Addr
  | none => none
  | some hostIP => some ((cache.tunnelEndpointOverrides.lookup (some hostIP)).getD hostIP)

def reference (cachedIdentity : Option Identity) (newID : Nat) (ip : Key) : GoMap Nat (GoSet Key) :=
  let dropped :=
    match cachedIdentity with
    | none => cache.identityToIPCache
    | some cachedIdentity => dropReference cache.identityToIPCache cachedIdentity.id ip
  dropped.insert newID (((dropped.lookup newID).getD ∅).insert ip ())
where
  dropReference (references : GoMap Nat (GoSet Key)) (id : Nat) (ip : Key) :
      GoMap Nat (GoSet Key) :=
    let rest := ((references.lookup id).getD ∅).erase ip
    if rest.keys = [] then references.erase id else references.insert id rest

/-- The marks tell which of the two interfaces owns the entry. -/
def markOwner (cachedIdentity : Option Identity) (fromLegacyAPI : Bool) (newIdentity : Identity) :
    Identity :=
  match cachedIdentity with
  | none =>
    if fromLegacyAPI then { newIdentity with modifiedByLegacyAPI := true } else newIdentity
  | some cachedIdentity =>
    let overwrittenLegacySource :=
      if !fromLegacyAPI then newIdentity.overwrittenLegacySource
      else if cachedIdentity.exclusivelyOwnedByMetadataAPI then some newIdentity.source
      else
        match cachedIdentity.overwrittenLegacySource with
        | none => newIdentity.overwrittenLegacySource
        | some overwritten =>
          if Source.allowOverwrite overwritten newIdentity.source then some newIdentity.source
          else some overwritten
    { newIdentity with
      overwrittenLegacySource := overwrittenLegacySource
      modifiedByLegacyAPI :=
        fromLegacyAPI || cachedIdentity.modifiedByLegacyAPI || newIdentity.modifiedByLegacyAPI }

structure Shadowing where
  identities : GoMap Key Identity
  newIdentity : Identity
  oldIdentity : Option Identity
  oldHostIP : Option Addr
  callbackListeners : Bool

/-- A prefix that is written below an address is marked as shadowed; an address that is written for
the first time above a prefix of another identity or host marks the prefix. -/
def shadow (hostIP : Option Addr) (newIdentity : Identity) : Shadowing :=
  let cachedIdentity := cache.ipToIdentityCache.lookup ip
  let unchanged : Shadowing :=
    ⟨cache.ipToIdentityCache, newIdentity, cachedIdentity, (cache.getHostIPCache ip).1, true⟩
  match ip with
  | .cidr cidrCluster =>
    if cidrCluster.isSingleIP ∧ .endpoint cidrCluster.addrCluster ∈ cache.ipToIdentityCache then
      { unchanged with newIdentity := { newIdentity with shadowed := true } }
    else unchanged
  | .endpoint addrCluster =>
    if cachedIdentity.isSome then unchanged
    else
      let cidrKey := Key.cidr addrCluster.asPrefixCluster
      match cache.ipToIdentityCache.lookup cidrKey with
      | none => unchanged
      | some cidrIdentity =>
        let oldHostIP := (cache.getHostIPCache cidrKey).1
        if cidrIdentity.id ≠ newIdentity.id ∨ oldHostIP ≠ hostIP then
          let shadowed := { cidrIdentity with shadowed := true }
          { unchanged with
            identities := cache.ipToIdentityCache.insert cidrKey shadowed
            oldIdentity := some shadowed
            oldHostIP := oldHostIP }
        else { unchanged with oldHostIP := oldHostIP, callbackListeners := false }

def write (call : UpsertCall) (newIdentity : Identity) (metaEqual : Bool) : UpsertResult :=
  let cachedIdentity := cache.ipToIdentityCache.lookup ip
  let shadowing := cache.shadow ip call.hostIP newIdentity
  let sameID := cachedIdentity.all fun cachedIdentity => cachedIdentity.id == newIdentity.id
  let written : IPCache :=
    { cache with
      ipToIdentityCache := shadowing.identities.insert ip shadowing.newIdentity
      identityToIPCache := cache.reference cachedIdentity newIdentity.id ip
      prefixLengths := cache.prefixLengths.add ip.cidrCluster.cidr
      ipToHostIPCache :=
        match call.hostIP with
        | none => cache.ipToHostIPCache.erase ip
        | some hostIP => cache.ipToHostIPCache.insert ip ⟨hostIP, call.hostKey⟩
      ipToEndpointFlags := cache.ipToEndpointFlags.insert ip call.endpointFlags
      ipToK8sMetadata :=
        if metaEqual && sameID then cache.ipToK8sMetadata
        else
          match call.k8sMeta with
          | none => cache.ipToK8sMetadata.erase ip
          | some k8sMeta => cache.ipToK8sMetadata.insert ip k8sMeta }
  let change : CacheChange :=
    { modType := .upsert
      cidrCluster := ip.cidrCluster
      oldHostIP := shadowing.oldHostIP
      newHostIP := call.hostIP
      oldIdentity := shadowing.oldIdentity
      newIdentity := shadowing.newIdentity
      encryptKey := call.hostKey
      k8sMeta := call.k8sMeta
      endpointFlags := call.endpointFlags }
  ⟨written, if shadowing.callbackListeners && !shadowing.newIdentity.shadowed then [change] else [],
    none⟩

/-- An entry of a stronger source is kept, but for its marks; an entry that is there already is not
written again. -/
def upsertLocked (call : UpsertCall) : UpsertResult :=
  match call.ip with
  | none => ⟨cache, [], some .invalidIP⟩
  | some ip =>
    let metaEqual := ((cache.ipToK8sMetadata.lookup ip).getD K8sMetadata.zero).equal call.k8sMeta
    let newIdentity := markOwner (cache.ipToIdentityCache.lookup ip) call.fromLegacyAPI
      call.newIdentity
    match cache.ipToIdentityCache.lookup ip with
    | none => cache.write ip call newIdentity metaEqual
    | some cachedIdentity =>
      if !call.force && !Source.allowOverwrite cachedIdentity.source newIdentity.source then
        let marked :=
          { cachedIdentity with
            modifiedByLegacyAPI := newIdentity.modifiedByLegacyAPI
            overwrittenLegacySource := newIdentity.overwrittenLegacySource }
        ⟨{ cache with ipToIdentityCache := cache.ipToIdentityCache.insert ip marked }, [],
          some (.overwrite cachedIdentity.source newIdentity.source)⟩
      else if cachedIdentity.equals newIdentity &&
          decide (cache.getHostIPCache ip = (call.hostIP, call.hostKey)) && metaEqual &&
          decide (cache.getEndpointFlags ip = call.endpointFlags) then
        ⟨cache, [], none⟩
      else cache.write ip call newIdentity metaEqual

/-- The host address is replaced by its override, and the entry has no flags. -/
def upsert (ip : Option Key) (hostIP : Option Addr) (hostKey : Nat)
    (k8sMeta : Option K8sMetadata) (newIdentity : Identity) : UpsertResult :=
  cache.upsertLocked
    ⟨ip, cache.overrideHostIP hostIP, hostKey, k8sMeta, newIdentity, 0, false, true⟩

/-- What a deletion reports to the listeners, and the identities with the prefix that it revives. -/
def revive (cachedIdentity : Identity) : GoMap Key Identity × List CacheChange :=
  let (oldHostIP, encryptKey) := cache.getHostIPCache ip
  let deleted : CacheChange :=
    { modType := .delete
      cidrCluster := ip.cidrCluster
      oldHostIP := oldHostIP
      newHostIP := none
      oldIdentity := none
      newIdentity := cachedIdentity
      encryptKey := encryptKey
      k8sMeta := cache.ipToK8sMetadata.lookup ip
      endpointFlags := cache.getEndpointFlags ip }
  match ip with
  | .cidr cidrCluster =>
    if .endpoint cidrCluster.addrCluster ∈ cache.ipToIdentityCache then
      (cache.ipToIdentityCache, [])
    else (cache.ipToIdentityCache, [deleted])
  | .endpoint addrCluster =>
    let cidrKey := Key.cidr addrCluster.asPrefixCluster
    match cache.ipToIdentityCache.lookup cidrKey with
    | none => (cache.ipToIdentityCache, [deleted])
    | some cidrIdentity =>
      let (newHostIP, cidrEncryptKey) := cache.getHostIPCache cidrKey
      if cidrIdentity.id ≠ cachedIdentity.id ∨ oldHostIP ≠ newHostIP then
        let revived := { cidrIdentity with shadowed := false }
        (cache.ipToIdentityCache.insert cidrKey revived, [{ deleted with
              modType := .upsert
              newHostIP := newHostIP
              oldIdentity := some cachedIdentity
              newIdentity := revived
              encryptKey := cidrEncryptKey
              k8sMeta := cache.ipToK8sMetadata.lookup cidrKey
              endpointFlags := cache.getEndpointFlags cidrKey }])
      else (cache.ipToIdentityCache, [])

/-- Only the source of an entry may delete it. -/
def deleteLocked (ip : Option Key) (source : Source) : IPCache × List CacheChange :=
  match ip with
  | none => (cache, [])
  | some ip =>
    match cache.ipToIdentityCache.lookup ip with
    | none => (cache, [])
    | some cachedIdentity =>
      if cachedIdentity.source ≠ source then (cache, [])
      else
        let (identities, changes) := cache.revive ip cachedIdentity
        ({ cache with
            ipToIdentityCache := identities.erase ip
            identityToIPCache :=
              reference.dropReference cache.identityToIPCache cachedIdentity.id ip
            ipToHostIPCache := cache.ipToHostIPCache.erase ip
            ipToK8sMetadata := cache.ipToK8sMetadata.erase ip
            ipToEndpointFlags := cache.ipToEndpointFlags.erase ip
            prefixLengths := cache.prefixLengths.delete ip.cidrCluster.cidr },
          changes)

def dumpChange (identity : Identity) : CacheChange where
  modType := .upsert
  cidrCluster := ip.cidrCluster
  oldHostIP := none
  newHostIP := (cache.getHostIPCache ip).1
  oldIdentity := none
  newIdentity := identity
  encryptKey := (cache.getHostIPCache ip).2
  k8sMeta := cache.ipToK8sMetadata.lookup ip
  endpointFlags := cache.getEndpointFlags ip

/-- Every entry that is not shadowed, in any order. -/
def dumpToListenerLocked (order : IterationOrder) : List CacheChange :=
  (order.visit 0 cache.ipToIdentityCache.keys).filterMap fun ip =>
    match cache.ipToIdentityCache.lookup ip with
    | none => none
    | some identity => if identity.shadowed then none else some (cache.dumpChange ip identity)

/-! ### What the calls leave alone, and what they store -/

variable {cache : IPCache}

@[simp]
theorem upsertLocked_tunnelEndpointOverrides (call : UpsertCall) :
    (cache.upsertLocked call).cache.tunnelEndpointOverrides = cache.tunnelEndpointOverrides := by
  unfold upsertLocked
  split
  · rfl
  · dsimp only
    split
    · rfl
    · split
      · rfl
      · split <;> rfl

@[simp]
theorem deleteLocked_tunnelEndpointOverrides (ip : Option Key) (source : Source) :
    (cache.deleteLocked ip source).1.tunnelEndpointOverrides = cache.tunnelEndpointOverrides := by
  unfold deleteLocked
  split
  · rfl
  · split
    · rfl
    · split <;> rfl

theorem write_getHostIPCache (ip : Key) (call : UpsertCall) (newIdentity : Identity)
    (metaEqual : Bool) :
    ((cache.write ip call newIdentity metaEqual).cache.getHostIPCache ip).1 = call.hostIP := by
  unfold write getHostIPCache
  cases call.hostIP with
  | none | some hostIP => simp

theorem upsertLocked_getHostIPCache {call : UpsertCall} {ip : Key} (named : call.ip = some ip)
    (stored : (cache.upsertLocked call).err = none) :
    ((cache.upsertLocked call).cache.getHostIPCache ip).1 = call.hostIP := by
  unfold upsertLocked at stored ⊢
  cases found : cache.ipToIdentityCache.lookup ip with
  | none =>
    simp only [named, found]
    exact write_getHostIPCache ip call _ _
  | some cachedIdentity =>
    simp only [named, found] at stored ⊢
    split
    case isTrue refused =>
      rw [if_pos refused] at stored
      cases stored
    · split
      case isTrue there =>
        simp only [Bool.and_eq_true, decide_eq_true_eq] at there
        rw [there.1.1.2]
      · exact write_getHostIPCache ip call _ _

end IPCache

end Constellation.Ipcache
