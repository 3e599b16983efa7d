/-
This file models the agent that receives events about nodes, and shows what its books satisfy
along its runs. An event comes with the outcomes of the calls to the BPF map. It either returns
the identifier of one node to the pool, or it updates some nodes one after the other:
`handler_step` reads every event in this form.
-/

import Constellation.Linux.Bookkeeping

namespace Constellation.Linux

open Lib
open LinuxNodeHandler

/-! ### Events -/

inductive Action
  | nodeAdd (newNode : Node)
  | nodeUpdate (oldNode newNode : Node)
  | nodeDelete (oldNode : Node)
  | nodeValidateImplementation (nodeToValidate : Node)
  | allNodeValidateImplementation
  | nodeConfigurationChanged
  | setManagedNames (names : List String)

/-- With the outcomes of the calls that it makes to the BPF map and the order in which it visits
maps. -/
structure Event where
  action : Action
  outcomes : List (Option String)
  order : IterationOrder

structure Agent where
  names : AgentNames
  handler : LinuxNodeHandler

namespace Agent

variable (agent : Agent) (event : Event)

def start : LinuxNodeHandler :=
  { agent.handler with nodeMap := ⟨agent.handler.nodeMap.entries, event.outcomes⟩ }

def step : Agent :=
  match event.action with
  | .nodeAdd newNode =>
    { agent with handler := ((agent.start event).nodeAdd event.order newNode).1 }
  | .nodeUpdate oldNode newNode =>
    { agent with handler := ((agent.start event).nodeUpdate event.order oldNode newNode).1 }
  | .nodeDelete oldNode =>
    { agent with handler := (agent.start event).nodeDelete event.order agent.names oldNode }
  | .nodeValidateImplementation node =>
    { agent with handler := ((agent.start event).nodeValidateImplementation event.order node).1 }
  | .allNodeValidateImplementation =>
    { agent with handler := (agent.start event).allNodeValidateImplementation event.order }
  | .nodeConfigurationChanged =>
    { agent with handler := (agent.start event).nodeConfigurationChanged event.order }
  | .setManagedNames names =>
    { names := { agent.names with watcher := agent.names.watcher.setManagedNames names }
      handler := agent.start event }

def restored (names : AgentNames) (nodeMap : NodeMap) (order : IterationOrder) : Agent :=
  ⟨names, (newNodeHandler nodeMap).restoreNodeIDs order none⟩

/-! ### What an event does -/

def returned : Option Node :=
  match event.action with
  | .nodeDelete oldNode =>
    (agent.handler.deletedNode oldNode).filter fun node =>
      agent.handler.isInitialized && !agent.names.isLocal node && !agent.names.isManaged node.name
  | _ => none

/-- Each with the node that it was before if that is known. -/
def updated : List (Option Node × Node) :=
  match event.action with
  | .nodeAdd newNode => if agent.handler.isInitialized then [(none, newNode)] else []
  | .nodeUpdate oldNode newNode =>
    if agent.handler.isInitialized then [(some oldNode, newNode)] else []
  | .nodeValidateImplementation node =>
    if agent.handler.isInitialized then [(none, node)] else []
  | .allNodeValidateImplementation =>
    if agent.handler.isInitialized then
      (agent.handler.keptNodes event.order).map fun node => (none, node)
    else []
  | .nodeConfigurationChanged =>
    if agent.handler.isInitialized then []
    else (agent.handler.keptNodes event.order).map fun node => (none, node)
  | _ => []

def stored : LinuxNodeHandler :=
  match event.action with
  | .nodeAdd newNode => (agent.start event).storeNode newNode
  | .nodeUpdate _ newNode => (agent.start event).storeNode newNode
  | .nodeDelete oldNode =>
    if (agent.handler.deletedNode oldNode).isSome then
      { agent.start event with nodes := agent.handler.nodes.erase oldNode.identity }
    else agent.start event
  | .nodeConfigurationChanged => { agent.start event with isInitialized := true }
  | _ => agent.start event

def update (order : IterationOrder) (n : LinuxNodeHandler) (nodes : Option Node × Node) :
    LinuxNodeHandler :=
  (n.nodeUpdateLocked order nodes.1 nodes.2).1

theorem run_update_map (order : IterationOrder) (n : LinuxNodeHandler) (nodes : List Node) :
    run (update order) n (nodes.map fun node => (none, node)) =
      run (fun n node => (n.nodeUpdateLocked order none node).1) n nodes :=
  List.foldl_map

/-- An event returns the identifier of a node, or updates nodes one after the other. -/
theorem handler_step : (agent.step event).handler = match agent.returned event with
    | some node => (agent.stored event).deallocateIDForNode event.order node
    | none => run (update event.order) (agent.stored event) (agent.updated event) := by
  obtain ⟨action, outcomes, order⟩ := event
  cases action with
  | nodeAdd newNode =>
    simp only [step, returned, updated, stored, nodeAdd]
    show (if agent.handler.isInitialized = true then _ else _ : LinuxNodeHandler × _).1 = _
    split <;> rfl
  | nodeUpdate oldNode newNode =>
    simp only [step, returned, updated, stored, nodeUpdate]
    show (if agent.handler.isInitialized = true then _ else _ : LinuxNodeHandler × _).1 = _
    split <;> rfl
  | nodeDelete oldNode =>
    have same : (agent.start ⟨.nodeDelete oldNode, outcomes, order⟩).deletedNode oldNode =
        agent.handler.deletedNode oldNode := rfl
    simp only [step, returned, updated, stored, nodeDelete, same]
    cases agent.handler.deletedNode oldNode with
    | none => rfl
    | some cached =>
      show (if agent.handler.isInitialized = true then _ else _) = _
      rw [nodeDeleteLocked, Option.filter_some]
      by_cases initialized : agent.handler.isInitialized = true <;>
        by_cases isLocal : agent.names.isLocal cached = true <;>
          by_cases managed : agent.names.isManaged cached.name = true <;>
            simp only [initialized, isLocal, managed] <;> rfl
  | nodeValidateImplementation node =>
    simp only [step, returned, updated, stored, nodeValidateImplementation]
    show (if agent.handler.isInitialized = true then _ else _ : LinuxNodeHandler × _).1 = _
    split <;> rfl
  | allNodeValidateImplementation =>
    simp only [step, returned, updated, stored, allNodeValidateImplementation]
    show (if agent.handler.isInitialized = true then _ else _) = _
    split
    · exact (run_update_map order _ _).symm
    · rfl
  | nodeConfigurationChanged =>
    simp only [step, returned, updated, stored, nodeConfigurationChanged]
    show (if agent.handler.isInitialized = true then _ else _) = _
    split
    case isTrue initialized =>
      exact congrArg (fun flag => { agent.start _ with isInitialized := flag }) initialized
    · exact (run_update_map order _ _).symm
  | setManagedNames names => rfl

theorem stored_books : (agent.stored event).nodeIDs = agent.handler.nodeIDs ∧
      (agent.stored event).nodeIDsByIPs = agent.handler.nodeIDsByIPs ∧
      (agent.stored event).nodeIPsByIDs = agent.handler.nodeIPsByIDs ∧
      (agent.stored event).nodeMap = ⟨agent.handler.nodeMap.entries, event.outcomes⟩ := by
  obtain ⟨action, outcomes, order⟩ := event
  cases action with
  | nodeDelete oldNode =>
    unfold stored
    dsimp only
    split <;> exact ⟨rfl, rfl, rfl, rfl⟩
  | _ => exact ⟨rfl, rfl, rfl, rfl⟩

theorem getNodeIDForNode_stored (node : Node) :
    (agent.stored event).getNodeIDForNode node = agent.handler.getNodeIDForNode node := by
  rw [getNodeIDForNode, (agent.stored_books event).2.1]
  rfl

variable {agent : Agent} {event : Event}

theorem assigned_stored {id : UInt16} :
    (agent.stored event).Assigned id ↔ agent.handler.Assigned id := by
  rw [Assigned, (agent.stored_books event).2.1]
  rfl

/-! ### The maps agree -/

theorem synced_stored (synced : agent.handler.Synced) (event : Event) :
    (agent.stored event).Synced := by
  obtain ⟨_, byIPs, byIDs, map⟩ := agent.stored_books event
  constructor
  · rw [byIPs, byIDs]
    exact synced.inverse
  · rw [byIPs, map]
    exact synced.stored
  · rw [byIPs]
    exact synced.parses

theorem poolSound_stored (sound : agent.handler.PoolSound) (event : Event) :
    (agent.stored event).PoolSound := by
  constructor
  · rw [(agent.stored_books event).1]
    exact sound.bounded
  · rw [(agent.stored_books event).1]
    exact sound.unleased

variable {n : LinuxNodeHandler}

theorem evolves_run (synced : n.Synced) (sound : n.PoolSound) (order : IterationOrder)
    (updates : List (Option Node × Node)) :
    Evolves (fun _ => True) n (run (update order) n updates) := by
  induction updates generalizing n with
  | nil => exact .refl _ n
  | cons nodes rest inductionHypothesis =>
    have first := (evolves_nodeUpdateLocked synced sound order nodes.1 nodes.2).mono
      fun _ _ => trivial
    exact first.trans (inductionHypothesis (first.synced synced) (first.poolSound sound))

section Step

variable (synced : agent.handler.Synced) (sound : agent.handler.PoolSound)

include synced sound

theorem sound_step : (agent.step event).handler.Synced ∧ (agent.step event).handler.PoolSound := by
  have storedSynced := synced_stored synced event
  have storedSound := poolSound_stored sound event
  rw [handler_step]
  split
  · exact ⟨synced_deallocateNodeIDLocked storedSynced _ _,
      poolSound_deallocateNodeIDLocked storedSynced _ _ storedSound⟩
  · have evolves := evolves_run storedSynced storedSound event.order (agent.updated event)
    exact ⟨evolves.synced storedSynced, evolves.poolSound storedSound⟩

end Step

/-- In every run the maps agree and the pool is sound. -/
theorem sound_run (synced : agent.handler.Synced) (sound : agent.handler.PoolSound)
    (events : List Event) :
    (run step agent events).handler.Synced ∧ (run step agent events).handler.PoolSound := by
  induction events generalizing agent with
  | nil => exact ⟨synced, sound⟩
  | cons event rest inductionHypothesis =>
    exact (sound_step synced sound).elim inductionHypothesis

/-! ### The identifiers in the pool -/

section

variable (agent : Agent) (event : Event)

/-- An event that returns an identifier to the pool unmaps all of its addresses. -/
def ReturnsUnmapped : Prop :=
  ∀ node ∈ agent.returned event, (agent.stored event).Succeeds
    ((agent.stored event).ipsOf event.order (agent.handler.getNodeIDForNode node)).length
  deriving Decidable

/-- An event returns an identifier only of a node that has one. -/
def ReturnsNonzero : Prop :=
  ∀ node ∈ agent.returned event, agent.handler.getNodeIDForNode node ≠ 0
  deriving Decidable

def sharers (n : LinuxNodeHandler) (ip : NodeIP) : List NodeIP :=
  ((n.nodeIDsByIPs.lookup ip).map (n.ipsOf .listed)).getD []

/-- The addresses of the node have one identifier, or one that is new is mapped to successfully, and
an identifier of an address that the node loses has another address. -/
def GivesUpNone (n : LinuxNodeHandler) (nodes : Option Node × Node) : Prop :=
  n.Uniform nodes.2 ∧ n.Identifies nodes.2 ∧
    ∀ oldNode ∈ nodes.1, ∀ ip ∈ droppedIPs oldNode.ipAddresses nodes.2.ipAddresses,
      n.nodeIDsByIPs.lookup ip = none ∨ ∃ other ∈ sharers n ip,
        other ∉ droppedIPs oldNode.ipAddresses nodes.2.ipAddresses
  deriving Decidable

def UpdatesGiveUpNone : Prop :=
  Meets (update event.order) GivesUpNone (agent.stored event) (agent.updated event)
  deriving Decidable

end

section Step

variable (synced : (agent.stored event).Synced) (sound : (agent.stored event).PoolSound)

include synced sound

/-- The identifiers in the pool after an event were there before, or are that of the node which
returns its own. -/
theorem mem_ids_step {id : ID} (member : id ∈ (agent.step event).handler.nodeIDs.ids) :
    id ∈ agent.handler.nodeIDs.ids ∨ ∃ node ∈ agent.returned event,
      id = (agent.handler.getNodeIDForNode node).toUInt64 := by
  rw [handler_step] at member
  rw [← (agent.stored_books event).1]
  split at member
  case h_1 node returned =>
    rw [deallocateIDForNode, mem_ids_deallocateNodeIDLocked synced _ _ sound,
      getNodeIDForNode_stored] at member
    exact member.imp_right fun same => ⟨node, returned, same⟩
  · exact .inl ((evolves_run synced sound _ _).available id member)

theorem reserved_step (reserved : agent.handler.Reserved)
    (unmapped : agent.ReturnsUnmapped event) : (agent.step event).handler.Reserved := by
  have storedReserved : (agent.stored event).Reserved := by
    intro id assigned
    rw [(agent.stored_books event).1]
    exact reserved id (assigned_stored.mp assigned)
  rw [handler_step]
  split
  case h_1 node returned =>
    have succeeds := unmapped node returned
    rw [← getNodeIDForNode_stored agent event] at succeeds
    intro id assigned member
    have differ : id ≠ (agent.stored event).getNodeIDForNode node := by
      intro same
      subst same
      exact not_assigned_deallocateNodeIDLocked synced _ _ succeeds assigned
    rcases (mem_ids_deallocateNodeIDLocked synced _ _ sound).mp member with before | same
    · obtain ⟨ip, found⟩ := assigned
      exact storedReserved id ⟨ip, lookup_of_deallocateNodeIDLocked synced _ _ found⟩ before
    · exact differ (UInt16.toUInt64_inj.mp same)
  · exact (evolves_run synced sound _ _).reserved sound storedReserved

theorem zero_not_mem_step (nonzero : (0 : ID) ∉ agent.handler.nodeIDs.ids)
    (some : agent.ReturnsNonzero event) : (0 : ID) ∉ (agent.step event).handler.nodeIDs.ids := by
  intro member
  rcases mem_ids_step synced sound member with before | ⟨node, returned, same⟩
  · exact nonzero before
  · refine some node returned ?_
    exact (UInt16.toUInt64_inj.mp (show (0 : UInt16).toUInt64 = _ from same)).symm

end Step

section

variable (synced : n.Synced) (sound : n.PoolSound) (complete : n.Complete) (order : IterationOrder)
include synced sound complete order

/-- An update that gives up no identifier keeps the pool complete. -/
theorem complete_update {nodes : Option Node × Node} (keeps : GivesUpNone n nodes) :
    (update order n nodes).Complete := by
  obtain ⟨oldNode, newNode⟩ := nodes
  obtain ⟨uniform, identifies, dropped⟩ := keeps
  have allocated := evolves_allocateIDForNode synced sound order oldNode newNode
  have kept (ip : NodeIP)
      (spared : ∀ old ∈ oldNode, ip ∉ droppedIPs old.ipAddresses newNode.ipAddresses) :
      (update order n (oldNode, newNode)).nodeIDsByIPs.lookup ip =
        (n.allocateIDForNode order oldNode newNode).1.nodeIDsByIPs.lookup ip := by
    cases oldNode with
    | none => rfl
    | some old =>
      exact (drops_unmapNodeIDs (allocated.synced synced) _).elsewhere ip (spared old rfl)
  have pool : (update order n (oldNode, newNode)).nodeIDs =
      (n.allocateIDForNode order oldNode newNode).1.nodeIDs := by
    cases oldNode with
    | none => rfl
    | some old => exact (drops_unmapNodeIDs (allocated.synced synced) _).pool
  intro id some unassigned
  by_contra absent
  rw [pool] at absent
  refine unassigned ?_
  by_cases available : id.toUInt64 ∈ n.nodeIDs.ids
  · obtain ⟨ip, member, found⟩ := assigned_allocateIDForNode_of_uniform sound uniform identifies
      order oldNode some available absent
    refine ⟨ip, (kept ip fun old _ inDropped => ?_).trans found⟩
    exact of_decide_eq_true (List.mem_filter.mp inDropped).2 member
  · obtain ⟨ip, found⟩ : n.Assigned id := by
      by_contra unassigned
      exact available (complete id some unassigned)
    have spared : ∃ other, n.nodeIDsByIPs.lookup other = .some id ∧
        ∀ old ∈ oldNode, other ∉ droppedIPs old.ipAddresses newNode.ipAddresses := by
      cases oldNode with
      | none => exact ⟨ip, found, nofun⟩
      | some old =>
        by_cases inDropped : ip ∈ droppedIPs old.ipAddresses newNode.ipAddresses
        · obtain ⟨other, listed, outside⟩ := (dropped old rfl ip inDropped).resolve_left
            (by rw [found]; exact Option.some_ne_none id)
          rw [sharers, found] at listed
          refine ⟨other, (mem_ipsOf synced _ _).mp listed, fun same equal => ?_⟩
          cases equal
          exact outside
        · refine ⟨ip, found, fun same equal => ?_⟩
          cases equal
          exact inDropped
    obtain ⟨other, otherFound, outside⟩ := spared
    exact ⟨other, (kept other outside).trans
      (lookup_allocateIDForNode_of_uniform sound uniform order oldNode otherFound)⟩

theorem complete_updates {updates : List (Option Node × Node)}
    (keeps : Meets (update order) GivesUpNone n updates) :
    (run (update order) n updates).Complete := by
  refine (Meets.invariant (fun n => n.Synced ∧ n.PoolSound ∧ n.Complete)
    (fun n nodes holds keeps => ?_) ⟨synced, sound, complete⟩ keeps).2.2
  have evolves := evolves_nodeUpdateLocked holds.1 holds.2.1 order nodes.1 nodes.2
  exact ⟨evolves.synced holds.1, evolves.poolSound holds.2.1,
    complete_update holds.1 holds.2.1 holds.2.2 order keeps⟩

end

theorem complete_step (synced : (agent.stored event).Synced)
    (sound : (agent.stored event).PoolSound) (complete : agent.handler.Complete)
    (keeps : agent.UpdatesGiveUpNone event) : (agent.step event).handler.Complete := by
  have storedComplete : (agent.stored event).Complete := by
    intro id some unassigned
    rw [(agent.stored_books event).1]
    exact complete id some fun assigned => unassigned (assigned_stored.mpr assigned)
  rw [handler_step]
  split
  case h_1 node _ =>
    intro id some unassigned
    rw [deallocateIDForNode, mem_ids_deallocateNodeIDLocked synced _ _ sound]
    by_cases same : id = (agent.stored event).getNodeIDForNode node
    · exact .inr (congrArg UInt16.toUInt64 same)
    · refine .inl (storedComplete id some fun ⟨ip, found⟩ => unassigned ⟨ip, ?_⟩)
      rw [deallocateIDForNode, lookup_deallocateNodeIDLocked_of_ne synced]
      · exact found
      · rw [found]
        exact fun equal => same (Option.some.inj equal)
  · exact complete_updates synced sound storedComplete _ keeps

/-! ### Runs -/

/-- A pool without zero hands out zero only when it is empty. -/
theorem allocateID_ne_zero (sound : n.PoolSound) (nonzero : (0 : ID) ∉ n.nodeIDs.ids)
    (order : IterationOrder) (loop : Nat) (nonempty : n.nodeIDs.ids.keys ≠ []) :
    (n.nodeIDs.allocateID order loop).1.toUInt16 ≠ 0 := by
  intro zero
  rcases n.nodeIDs.allocateID_cases order loop with ⟨empty, _⟩ | ⟨member, _, _⟩
  · exact nonempty empty
  · have same := sound.bounded _ member
    rw [zero] at same
    rw [← same] at member
    exact nonzero member

section Runs

variable (initial : agent.handler.Restored) {events : List Event}

include initial

/-- What the steps keep as long as the books are sound, a run keeps. -/
theorem kept_run (property : LinuxNodeHandler → Prop) {condition : Agent → Event → Prop}
    (kept : ∀ agent event, (agent.stored event).Synced → (agent.stored event).PoolSound →
      property agent.handler → condition agent event → property (agent.step event).handler)
    (holds : property agent.handler) (meets : Meets step condition agent events) :
    property (run step agent events).handler :=
  (Meets.invariant (fun agent => agent.handler.Synced ∧ agent.handler.PoolSound ∧
      property agent.handler)
    (fun _ event holds meets => and_assoc.mp ⟨sound_step holds.1 holds.2.1,
      kept _ _ (synced_stored holds.1 event) (poolSound_stored holds.2.1 event) holds.2.2 meets⟩)
    ⟨initial.toSynced, initial.toPoolSound, holds⟩ meets).2.2

theorem reserved_run (unmapped : Meets step ReturnsUnmapped agent events) :
    (run step agent events).handler.Reserved :=
  kept_run initial Reserved (fun _ _ => reserved_step) initial.reserved unmapped

end Runs

theorem restored_restored (names : AgentNames) (nodeMap : NodeMap) (order : IterationOrder) :
    (restored names nodeMap order).handler.Restored :=
  restored_restoreNodeIDs nodeMap order

/-- In every run after a restart, whatever the BPF map holds and whatever calls to it fail: the
maps in memory are inverse to each other and equal to the BPF map. If identifiers are returned only
when all their addresses were unmapped, then no identifier that is assigned is in the pool. If only
nodes with an identifier return one, then zero is not in the pool, and is handed out only when the
pool is empty. If no update gives up an identifier, then all identifiers that are not assigned are
in the pool. -/
theorem run_restored_books (names : AgentNames) (nodeMap : NodeMap) (order : IterationOrder)
    (events : List Event) :
    (run step (restored names nodeMap order) events).handler.Synced ∧
    (Meets step ReturnsUnmapped (restored names nodeMap order) events →
      (run step (restored names nodeMap order) events).handler.Reserved) ∧
    (Meets step ReturnsNonzero (restored names nodeMap order) events →
      (0 : ID) ∉ (run step (restored names nodeMap order) events).handler.nodeIDs.ids ∧
      ∀ later loop, (run step (restored names nodeMap order) events).handler.nodeIDs.ids.keys ≠ [] →
        ((run step (restored names nodeMap order) events).handler.nodeIDs.allocateID
          later loop).1.toUInt16 ≠ 0) ∧
    (Meets step UpdatesGiveUpNone (restored names nodeMap order) events →
      (run step (restored names nodeMap order) events).handler.Complete) := by
  have initial := restored_restored names nodeMap order
  obtain ⟨synced, sound⟩ := sound_run initial.toSynced initial.toPoolSound events
  refine ⟨synced, reserved_run initial, fun some => ?_,
    kept_run initial Complete (fun _ _ => complete_step) initial.complete⟩
  have nonzero := kept_run initial ((0 : ID) ∉ ·.nodeIDs.ids) (fun _ _ => zero_not_mem_step)
    initial.nonzero some
  exact ⟨nonzero, fun later loop => allocateID_ne_zero sound nonzero later loop⟩

/-- After a restart at any moment, whatever changes of the BPF map fail: if the map can be read, the
mappings are as before, except for those to zero, and the books are in order; if it cannot, no
mapping is known and the map is left alone. -/
theorem run_restart (names : AgentNames) (nodeMap : NodeMap) (order later : IterationOrder)
    (events : List Event) (outcomes : List (Option String)) (unreadable : Option String) :
    let before := (run step (restored names nodeMap order) events).handler
    let found : NodeMap := ⟨before.nodeMap.entries, outcomes⟩
    let after := (newNodeHandler found).restoreNodeIDs later unreadable
    (unreadable = none → after.Restored ∧
      ∀ ip, after.nodeIDsByIPs.lookup ip = before.nodeIDsByIPs.lookup ip ∨
        before.nodeIDsByIPs.lookup ip = some 0) ∧
    (unreadable ≠ none → after.nodeMap = found ∧ ∀ ip, after.nodeIDsByIPs.lookup ip = none) := by
  intro before found after
  have initial := restored_restored names nodeMap order
  have synced : before.Synced := (sound_run initial.toSynced initial.toPoolSound events).1
  have registers := synced_registered found later
  have same ip : (registered found later).nodeIDsByIPs.lookup ip =
      before.nodeIDsByIPs.lookup ip := by
    cases ip with
    | valid addr =>
      rw [registers.stored, synced.stored, (registers_registered found later).nodeMap]
      rfl
    | invalid text => rw [registers.parses, synced.parses]
  refine ⟨?_, fun failed => ?_⟩
  · rintro rfl
    refine ⟨restored_restored names _ later, fun ip => ?_⟩
    by_cases visited : ip ∈ zeroIPs found later
    · rw [zeroIPs, IterationOrder.mem_visit, List.mem_map] at visited
      obtain ⟨entry, filtered, rfl⟩ := visited
      obtain ⟨listed, zero⟩ := List.mem_filter.mp filtered
      rw [← same, lookup_registered]
      exact .inr ⟨entry, listed, rfl, (of_decide_eq_true zero).symm⟩
    · have unvisited := (drops_unmapNodeIDs registers _).elsewhere ip visited
      exact .inl (unvisited.trans (same ip))
  · obtain ⟨error, rfl⟩ := Option.ne_none_iff_exists'.mp failed
    exact ⟨rfl, fun _ => rfl⟩

def soleNames : AgentNames := ⟨"node", "default", ⟨∅, []⟩⟩

def emptyMap : NodeMap := ⟨∅, []⟩

def remoteIP : NodeIP := .valid ⟨.ipv4, 0xc0a8320a, by decide⟩

def secondIP : NodeIP := .valid ⟨.ipv4, 0xc0a8320b, by decide⟩

def remote (ips : List NodeIP) : Node := ⟨"remote", "default", ips, 0, .customResource⟩

/-- A remote host is added, loses one of its two addresses and is deleted. -/
def orderlyEvents : List Event :=
  [⟨.nodeConfigurationChanged, [], .listed⟩,
    ⟨.nodeAdd (remote [remoteIP, secondIP]), [some "no memory"], .listed⟩,
    ⟨.nodeUpdate (remote [remoteIP, secondIP]) (remote [secondIP]), [], .listed⟩,
    ⟨.nodeDelete (remote [secondIP]), [], .listed⟩]

theorem orderlyEvents_unmapped :
    Meets step ReturnsUnmapped (restored soleNames emptyMap .listed) orderlyEvents := by
  decide +kernel

theorem orderlyEvents_nonzero :
    Meets step ReturnsNonzero (restored soleNames emptyMap .listed) orderlyEvents := by
  decide +kernel

theorem orderlyEvents_giveUpNone :
    Meets step UpdatesGiveUpNone (restored soleNames emptyMap .listed) orderlyEvents := by
  decide +kernel

/-- The books of the agent are in order after these events. -/
theorem orderlyEvents_books :
    (run step (restored soleNames emptyMap .listed) orderlyEvents).handler.Reserved ∧ (0 : ID) ∉
        (run step (restored soleNames emptyMap .listed) orderlyEvents).handler.nodeIDs.ids ∧
      (run step (restored soleNames emptyMap .listed) orderlyEvents).handler.Complete := by
  obtain ⟨_, reserved, nonzero, complete⟩ :=
    run_restored_books soleNames emptyMap .listed orderlyEvents
  exact ⟨reserved orderlyEvents_unmapped, (nonzero orderlyEvents_nonzero).1,
    complete orderlyEvents_giveUpNone⟩

/-- The identifier of a node that is returned is in the pool, unmapped or not. -/
theorem mem_ids_step_of_returned (synced : agent.handler.Synced) (sound : agent.handler.PoolSound)
    {node : Node} (returned : agent.returned event = some node) :
    (agent.handler.getNodeIDForNode node).toUInt64 ∈ (agent.step event).handler.nodeIDs.ids := by
  rw [handler_step, returned, ← getNodeIDForNode_stored agent event]
  exact (mem_ids_deallocateNodeIDLocked (synced_stored synced event) _ _
    (poolSound_stored sound event)).mpr (.inr rfl)

def addRemote : List Event :=
  [⟨.nodeConfigurationChanged, [], .listed⟩, ⟨.nodeAdd (remote [remoteIP]), [], .listed⟩]

def remoteAgent : Agent := run step (restored soleNames emptyMap .listed) addRemote

theorem remoteAgent_sound : remoteAgent.handler.Synced ∧ remoteAgent.handler.PoolSound :=
  have initial := restored_restored soleNames emptyMap .listed
  sound_run initial.toSynced initial.toPoolSound addRemote

theorem remoteAgent_reserved : remoteAgent.handler.Reserved :=
  reserved_run (restored_restored soleNames emptyMap .listed) (by decide +kernel)

/-- The remote host is deleted, while the BPF map cannot be changed. -/
def faultyDelete : Event := ⟨.nodeDelete (remote [remoteIP]), [some "no memory"], .listed⟩

/-- A node without a known address is deleted, after it was restored from a file. -/
def unknownDelete : Event :=
  ⟨.nodeDelete ⟨"unknown", "default", [], 0, .restored⟩, [], .listed⟩

def moveRemote : Event :=
  ⟨.nodeUpdate (remote [remoteIP]) (remote [secondIP]), [], .listed⟩

/-- An identifier that is still assigned returns to the pool when the BPF map cannot be changed;
zero gets into the pool with a node that has no identifier; and the identifier of a node that
changes its only address is neither assigned nor in the pool. -/
theorem remoteAgent_books_broken :
    ((remoteAgent.step faultyDelete).handler.nodeIDsByIPs.lookup remoteIP = some 1 ∧
      (1 : ID) ∈ (remoteAgent.step faultyDelete).handler.nodeIDs.ids) ∧
    (0 : ID) ∈ (remoteAgent.step unknownDelete).handler.nodeIDs.ids ∧
    ¬ (remoteAgent.step moveRemote).handler.Assigned 1 ∧
      (1 : ID) ∉ (remoteAgent.step moveRemote).handler.nodeIDs.ids := by
  obtain ⟨synced, sound⟩ := remoteAgent_sound
  refine ⟨⟨by decide +kernel, ?_⟩, ?_, ?_, ?_⟩
  · exact mem_ids_step_of_returned synced sound
      (by decide +kernel : remoteAgent.returned faultyDelete = some (remote [remoteIP]))
  · exact mem_ids_step_of_returned synced sound (by decide +kernel :
      remoteAgent.returned unknownDelete = some ⟨"unknown", "default", [], 0, .restored⟩)
  · intro ⟨ip, found⟩
    obtain ⟨members, listed, _⟩ := ((sound_step synced sound).1.inverse ip 1).mpr found
    have unlisted : (remoteAgent.step moveRemote).handler.nodeIPsByIDs.lookup 1 = none := by
      decide +kernel
    cases unlisted.symm.trans listed
  · intro member
    rcases mem_ids_step (synced_stored synced _) (poolSound_stored sound _) member with
      before | ⟨_, returned, _⟩
    · exact remoteAgent_reserved 1 ⟨remoteIP, by decide +kernel⟩ before
    · cases (by decide +kernel : remoteAgent.returned moveRemote = none).symm.trans returned

end Agent

end Constellation.Linux
