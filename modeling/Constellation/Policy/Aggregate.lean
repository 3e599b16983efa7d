/-
This file models how identities are aggregated. The datapath looks every packet up under its
identity and under the aggregate of its identity. The agent and the datapath each have their own
version of the function; they read the cluster of an identity in different ways, and agree on
every identity that exists.
-/

import Constellation.Policy.Types

namespace Constellation.Policy

open List

/-- The local cluster, and how many bits of an identity name its cluster. -/
structure ClusterInfo where
  localClusterID : Nat
  clusterIDBits : Nat
  clusterIDBits_le : clusterIDBits ≤ 24
  deriving Repr

def defaultClusterInfo : ClusterInfo := ⟨0, 8, by decide⟩

/-! ### Reserved identities -/

def identityUnknown : NumericIdentity := 0

def reservedIdentityAggregateCluster : NumericIdentity := 11

def reservedIdentityAggregateClusterMesh : NumericIdentity := 12

def reservedIdentityAggregateWorld : NumericIdentity := 13

def reservedIdentityAggregateRemoteNode : NumericIdentity := 14

/-- A full wildcard is inserted under all of them. -/
def allAggregates : List NumericIdentity :=
  [identityUnknown, reservedIdentityAggregateRemoteNode, reservedIdentityAggregateWorld,
    reservedIdentityAggregateCluster, reservedIdentityAggregateClusterMesh]

def identityScopeLocal : Nat := 1 * 2 ^ 24

def identityScopeRemoteNode : Nat := 2 * 2 ^ 24

def scope (nid : NumericIdentity) : Nat :=
  nid.val / 2 ^ 24 * 2 ^ 24

variable (cluster : ClusterInfo)

def clusterID (nid : NumericIdentity) : Nat :=
  nid.val / 2 ^ (24 - cluster.clusterIDBits) % 2 ^ cluster.clusterIDBits

/-! ### The aggregate of an identity -/

def aggregateFor (nid : NumericIdentity) : NumericIdentity :=
  if nid = identityUnknown ∨ nid = reservedIdentityAggregateCluster ∨
      nid = reservedIdentityAggregateClusterMesh ∨ nid = reservedIdentityAggregateWorld ∨
      nid = reservedIdentityAggregateRemoteNode then nid
  else if nid.val < 100 then identityUnknown
  else if scope nid = identityScopeRemoteNode then reservedIdentityAggregateRemoteNode
  else if scope nid = identityScopeLocal then reservedIdentityAggregateWorld
  else if clusterID cluster nid = cluster.localClusterID then reservedIdentityAggregateCluster
  else reservedIdentityAggregateClusterMesh

/-- Whether the second identity is properly below the first. -/
def aggregates (agg child : NumericIdentity) : Bool :=
  agg != child && aggregateFor cluster child == agg

def isAggregate (nid : NumericIdentity) : Bool :=
  nid == aggregateFor cluster nid

/-- The datapath does not mask the scope. -/
def extractClusterIdFromIdentity (identity : NumericIdentity) : Nat :=
  identity.val / 2 ^ (24 - cluster.clusterIDBits)

def aggregateForIdentity (identity : NumericIdentity) : NumericIdentity :=
  if identity = 0 ∨ identity = reservedIdentityAggregateCluster ∨
      identity = reservedIdentityAggregateClusterMesh ∨
      identity = reservedIdentityAggregateRemoteNode ∨
      identity = reservedIdentityAggregateWorld then identity
  else if identity.val < 100 then 0
  else if scope identity = identityScopeRemoteNode then reservedIdentityAggregateRemoteNode
  else if scope identity = identityScopeLocal then reservedIdentityAggregateWorld
  else if extractClusterIdFromIdentity cluster identity = cluster.localClusterID then
    reservedIdentityAggregateCluster
  else reservedIdentityAggregateClusterMesh

section

variable (cluster : ClusterInfo)

theorem aggregateFor_of_mem_allAggregates {nid : NumericIdentity} (member : nid ∈ allAggregates) :
    aggregateFor cluster nid = nid := by
  refine if_pos ?_
  simp only [allAggregates, mem_cons, not_mem_nil, or_false] at member
  tauto

/-- Every identity aggregates to one of the listed aggregates. -/
theorem aggregateFor_mem_allAggregates (nid : NumericIdentity) :
    aggregateFor cluster nid ∈ allAggregates := by
  unfold aggregateFor
  split
  case isTrue listed =>
    simp only [allAggregates, mem_cons, not_mem_nil, or_false]
    tauto
  · simp only [allAggregates, mem_cons, not_mem_nil, or_false]
    split_ifs <;> simp

@[simp]
theorem aggregateFor_aggregateFor (nid : NumericIdentity) :
    aggregateFor cluster (aggregateFor cluster nid) = aggregateFor cluster nid :=
  aggregateFor_of_mem_allAggregates cluster (aggregateFor_mem_allAggregates cluster nid)

theorem aggregates_iff (agg child : NumericIdentity) :
    aggregates cluster agg child = true ↔ agg ≠ child ∧ aggregateFor cluster child = agg := by
  simp [aggregates]

/-- The two readings of the cluster agree on an identity of global scope. -/
theorem extractClusterIdFromIdentity_eq {identity : NumericIdentity}
    (globalScope : identity.val < 2 ^ 24) :
    extractClusterIdFromIdentity cluster identity = clusterID cluster identity := by
  refine (Nat.mod_eq_of_lt ?_).symm
  rw [extractClusterIdFromIdentity, Nat.div_lt_iff_lt_mul (Nat.two_pow_pos _), ← pow_add,
    Nat.add_sub_cancel' cluster.clusterIDBits_le]
  exact globalScope

/-- The agent and the datapath aggregate every identity to the same one. -/
theorem aggregateForIdentity_eq (identity : NumericIdentity) :
    aggregateForIdentity cluster identity = aggregateFor cluster identity := by
  refine if_congr (by unfold identityUnknown; tauto) rfl (if_congr .rfl rfl ?_)
  split
  case isTrue remoteNode => rfl
  case isFalse notRemoteNode =>
    split
    case isTrue localScope => rfl
    case isFalse notLocal =>
      have globalScope : identity.val < 2 ^ 24 := by
        unfold scope identityScopeRemoteNode at notRemoteNode
        unfold scope identityScopeLocal at notLocal
        omega
      rw [extractClusterIdFromIdentity_eq cluster globalScope]

end

/-! ### Covering keys -/

namespace Key

/-- The port and protocol are broader or equal, and the identity is the same or the aggregate. -/
def Covers (cluster : ClusterInfo) (broader narrower : Key) : Prop :=
  broader.lpmKey.IsAncestor narrower.lpmKey ∧ (broader.identity = narrower.identity ∨
      broader.identity = aggregateFor cluster narrower.identity)
  deriving Decidable

variable {cluster : ClusterInfo}

theorem Covers.refl (key : Key) : key.Covers cluster key :=
  ⟨LPMKey.IsAncestor.refl _, .inl rfl⟩

theorem Covers.aggregateFor_eq {broader narrower : Key} (covers : broader.Covers cluster narrower) :
    aggregateFor cluster broader.identity = aggregateFor cluster narrower.identity := by
  rcases covers.2 with same | aggregate
  · rw [same]
  · rw [aggregate, aggregateFor_aggregateFor]

theorem Covers.trans {first second third : Key} (upper : first.Covers cluster second)
    (lower : second.Covers cluster third) : first.Covers cluster third := by
  refine ⟨upper.1.trans lower.1, ?_⟩
  rcases upper.2 with same | aggregate
  · rw [same]
    exact lower.2
  · exact .inr (aggregate.trans lower.aggregateFor_eq)

end Key

end Constellation.Policy
