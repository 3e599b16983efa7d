/-
This file shows when nodes that share addresses keep their identifiers. When a node is deleted,
and its name is not managed by the agent, all addresses of its identifier are unmapped; an update
unmaps the addresses that the node loses, and all of its addresses where they have different
identifiers. The other nodes keep their identifiers if none of them relies on what is unmapped.
-/

import Constellation.Linux.Events

namespace Constellation.Linux

open Lib
open LinuxNodeHandler

def Action.subject : Action → Option Identity
  | .nodeUpdate _ newNode => some newNode.identity
  | .nodeDelete oldNode => some oldNode.identity
  | _ => none

namespace Agent

/-- A deletion that returns an identifier finds no other node with an address of the identifier, and
unmaps its addresses successfully; an update finds no other node that has one of the addresses which
the node loses, or an address of the node if these have different identifiers. -/
def Spares (agent : Agent) (event : Event) : Prop :=
  match event.action with
  | .nodeDelete oldNode =>
    agent.ReturnsUnmapped event ∧ ∀ node ∈ agent.returned event,
      ∀ entry ∈ agent.handler.nodes.entries, entry.1 ≠ oldNode.identity →
        ∀ ip ∈ entry.2.ipAddresses,
          agent.handler.nodeIDsByIPs.lookup ip ≠ some (agent.handler.getNodeIDForNode node)
  | .nodeUpdate oldNode newNode =>
    agent.handler.isInitialized = true →
      ∀ entry ∈ agent.handler.nodes.entries, entry.1 ≠ newNode.identity →
        ∀ ip ∈ entry.2.ipAddresses, agent.handler.nodeIDsByIPs.lookup ip ≠ none →
          ip ∉ droppedIPs oldNode.ipAddresses newNode.ipAddresses ∧
            (agent.handler.Uniform newNode ∨ ip ∉ newNode.ipAddresses)
  | _ => True

instance (agent : Agent) (event : Event) : Decidable (agent.Spares event) := by
  unfold Spares
  cases event.action <;> dsimp only <;> infer_instance

theorem Spares.returnsUnmapped {agent : Agent} {event : Event} (spares : agent.Spares event) :
    agent.ReturnsUnmapped event := by
  obtain ⟨action, outcomes, order⟩ := event
  cases action with
  | nodeDelete oldNode => exact spares.1
  | _ => exact nofun

section Step

variable {agent : Agent} {event : Event} (synced : (agent.stored event).Synced)
  (sound : (agent.stored event).PoolSound) {identity other : Identity} {node : Node}

include synced sound

theorem nodes_step : (agent.step event).handler.nodes = (agent.stored event).nodes := by
  rw [handler_step]
  split
  · exact (drops_ipsOf synced _ _).nodes
  · exact (evolves_run synced sound _ _).nodes

/-- The other nodes that are kept after an event were kept before. -/
theorem lookup_nodes_of_step (subject : event.action.subject = some identity)
    (differ : other ≠ identity) (kept : (agent.step event).handler.nodes.lookup other = some node) :
    agent.handler.nodes.lookup other = some node := by
  rw [nodes_step synced sound] at kept
  obtain ⟨action, outcomes, order⟩ := event
  cases action with
  | nodeUpdate oldNode newNode =>
    cases subject
    exact (AList.lookup_insert_ne differ).symm.trans kept
  | nodeDelete oldNode =>
    cases subject
    unfold stored at kept
    dsimp only at kept
    split at kept
    · exact (AList.lookup_erase_ne differ).symm.trans kept
    · exact kept
  | _ => cases subject

/-- An event that spares the other nodes keeps the mappings of their addresses. -/
theorem lookup_step_of_spares (spares : agent.Spares event)
    (subject : event.action.subject = some identity) (differ : other ≠ identity)
    (kept : agent.handler.nodes.lookup other = some node) {ip : NodeIP}
    (member : ip ∈ node.ipAddresses) {id : UInt16}
    (found : agent.handler.nodeIDsByIPs.lookup ip = some id) :
    (agent.step event).handler.nodeIDsByIPs.lookup ip = some id := by
  have listed : (⟨other, node⟩ : (_ : Identity) × Node) ∈ agent.handler.nodes.entries :=
    AList.mem_lookup_iff.mp kept
  have storedFound : (agent.stored event).nodeIDsByIPs.lookup ip = some id :=
    (agent.stored_books event).2.1 ▸ found
  obtain ⟨action, outcomes, order⟩ := event
  cases action with
  | nodeDelete oldNode =>
    cases subject
    rw [handler_step]
    split
    case h_1 returnedNode returned =>
      have apart := spares.2 returnedNode returned _ listed differ ip member
      rw [deallocateIDForNode, lookup_deallocateNodeIDLocked_of_ne synced]
      · exact storedFound
      · rw [storedFound, getNodeIDForNode_stored, ← found]
        exact apart
    · exact storedFound
  | nodeUpdate oldNode newNode =>
    cases subject
    rw [handler_step]
    show AList.lookup ip (run (update order) _
      (if agent.handler.isInitialized = true then _ else _)).nodeIDsByIPs = some id
    split
    case isTrue initialized =>
      obtain ⟨notDropped, alone⟩ := spares initialized _ listed differ ip member
        (by rw [found]; exact Option.some_ne_none id)
      have allocated := evolves_allocateIDForNode synced sound order (some oldNode) newNode
      refine ((drops_unmapNodeIDs (allocated.synced synced) _).elsewhere ip notDropped).trans ?_
      rcases alone with uniform | outside
      · refine lookup_allocateIDForNode_of_uniform sound ?_ order (some oldNode) storedFound
        unfold Uniform
        exact uniform
      · exact (allocated.elsewhere ip outside).trans storedFound
    · exact storedFound
  | _ => cases subject

end Step

/-- In every run after a restart whose events spare the other nodes, a deletion or an update leaves
every address of every other node mapped to the identifier that it had, and that identifier is not
in the pool. -/
theorem run_spares_others (names : AgentNames) (nodeMap : NodeMap) (order : IterationOrder)
    {events : List Event} (meets : Meets step Spares (restored names nodeMap order) events)
    {event : Event} (spares : (run step (restored names nodeMap order) events).Spares event)
    {identity other : Identity} (subject : event.action.subject = some identity)
    (differ : other ≠ identity) {node : Node}
    (kept : ((run step (restored names nodeMap order) events).step event).handler.nodes.lookup
      other = some node) {ip : NodeIP} (member : ip ∈ node.ipAddresses) {id : UInt16}
    (mapped : (run step (restored names nodeMap order) events).handler.nodeIDsByIPs.lookup ip =
      some id) :
    ((run step (restored names nodeMap order) events).step event).handler.nodeIDsByIPs.lookup ip =
        some id ∧
      id.toUInt64 ∉
        ((run step (restored names nodeMap order) events).step event).handler.nodeIDs.ids := by
  have initial := restored_restored names nodeMap order
  obtain ⟨synced, sound⟩ := sound_run initial.toSynced initial.toPoolSound events
  replace synced := synced_stored synced event
  replace sound := poolSound_stored sound event
  have reserved := reserved_run initial (meets.mono fun _ _ => Spares.returnsUnmapped)
  have before := lookup_nodes_of_step synced sound subject differ kept
  have still := lookup_step_of_spares synced sound spares subject differ before member mapped
  exact ⟨still, reserved_step synced sound reserved spares.returnsUnmapped id ⟨ip, still⟩⟩

def pawn (name : String) (ips : List NodeIP) : Node := ⟨name, "default", ips, 0, .customResource⟩

/-- Two pawns of a host are added, which share the address of the host. -/
def addPawns : List Event :=
  [⟨.nodeConfigurationChanged, [], .listed⟩,
    ⟨.nodeAdd (pawn "pawn-1" [remoteIP, secondIP]), [], .listed⟩,
    ⟨.nodeAdd (pawn "pawn-2" [remoteIP]), [], .listed⟩]

/-- The first pawn loses the address that it does not share. -/
def updatePawn : Event :=
  ⟨.nodeUpdate (pawn "pawn-1" [remoteIP, secondIP]) (pawn "pawn-1" [remoteIP]), [], .listed⟩

/-- The second pawn keeps its identifier. -/
theorem updatePawn_spares_others :
    ((run step (restored soleNames emptyMap .listed) addPawns).step
        updatePawn).handler.nodeIDsByIPs.lookup remoteIP = some 1 ∧
      (1 : UInt16).toUInt64 ∉ ((run step (restored soleNames emptyMap .listed) addPawns).step
        updatePawn).handler.nodeIDs.ids :=
  run_spares_others soleNames emptyMap .listed (by decide +kernel) (by decide +kernel) rfl
    (by decide : (⟨"pawn-2", "default"⟩ : Identity) ≠ ⟨"pawn-1", "default"⟩)
    (by decide +kernel : _ = some (pawn "pawn-2" [remoteIP])) (.head _)
    (by decide +kernel)

def deletePawn : Event := ⟨.nodeDelete (pawn "pawn-1" [remoteIP, secondIP]), [], .listed⟩

/-- Deleting one of two pawns of a host that the agent does not manage unmaps the address of the
other. -/
theorem deletePawn_unmaps_other :
    ((run step (restored soleNames emptyMap .listed) addPawns).step
        deletePawn).handler.nodes.lookup ⟨"pawn-2", "default"⟩ = some (pawn "pawn-2" [remoteIP]) ∧
      (run step (restored soleNames emptyMap .listed) addPawns).handler.nodeIDsByIPs.lookup
        remoteIP = some 1 ∧
      ((run step (restored soleNames emptyMap .listed) addPawns).step
        deletePawn).handler.nodeIDsByIPs.lookup remoteIP = none := by
  refine ⟨?_, ?_, ?_⟩ <;> decide +kernel

end Agent

end Constellation.Linux
