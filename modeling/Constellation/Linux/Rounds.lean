/-
This file shows when `allocateIDForNode` returns whatever the BPF map answers. Where the addresses
of a node have different identifiers, the function unmaps them and starts over, for ever if the
map goes on refusing to delete them.
-/

import Constellation.Linux.Bookkeeping

namespace Constellation.Linux.LinuxNodeHandler

open Lib List

variable (n : LinuxNodeHandler)

/-- The BPF map answers its next calls by a pattern, for the given number of calls. -/
def answering (pattern : Nat → Option String) (calls : Nat) : LinuxNodeHandler :=
  { n with nodeMap := ⟨n.nodeMap.entries, (range calls).map pattern⟩ }

/-- Some number of rounds is enough when the pattern is followed for long enough. -/
def Returns (order : IterationOrder) (oldNode : Option Node) (node : Node)
    (pattern : Nat → Option String) : Prop :=
  ∃ rounds calls, ∀ more ≥ calls,
    (allocateIDForNodeLoop order oldNode node rounds (n.answering pattern more)).isSome = true

/-- The same handler, with the BPF map about to refuse a number of calls or more. -/
def Refused (calls : Nat) (other : LinuxNodeHandler) : Prop :=
  ∃ more ≥ calls, other =
    { n with nodeMap := ⟨n.nodeMap.entries, replicate more (some "refused")⟩ }

variable {n other : LinuxNodeHandler} {ips : List NodeIP} {calls : Nat} {order : IterationOrder}
  {oldNode : Option Node} {node : Node}

theorem Refused.mono (refused : n.Refused (calls + 1) other) : n.Refused calls other :=
  refused.imp fun _ left => ⟨Nat.le_of_succ_le left.1, left.2⟩

theorem Refused.fault (refused : n.Refused (calls + 1) other) :
    other.nodeMap.fault = some "refused" ∧ n.Refused calls other.afterFault := by
  obtain ⟨_ | more, enough, rfl⟩ := refused
  · cases enough
  · exact ⟨rfl, more, Nat.le_of_succ_le_succ enough, rfl⟩

theorem Refused.unmapNodeIDs (refused : n.Refused (calls + ips.length) other) :
    n.Refused calls (other.unmapNodeIDs ips) := by
  induction ips generalizing other with
  | nil => exact refused
  | cons ip rest inductionHypothesis =>
    refine inductionHypothesis ?_
    dsimp only [unmapNodeID]
    split
    · exact refused.mono
    · split
      · exact refused.mono
      · simp only [NodeMap.delete, refused.fault.1]
        exact refused.fault.2

/-- The loop meets the address with another identifier. -/
theorem Refused.mapIPs {nodeID : UInt16} {spiChanged : Bool} {spi : UInt8} {errs : List String}
    (refused : n.Refused (calls + ips.length) other)
    (stale : ∃ ip ∈ ips, ∃ id, n.nodeIDsByIPs.lookup ip = some id ∧ id ≠ nodeID) :
    ∃ later, mapIPs nodeID spiChanged spi ips other errs = (later, none) ∧
      n.Refused calls later := by
  induction ips generalizing other errs with
  | nil => exact absurd stale (by simp)
  | cons ip rest inductionHypothesis =>
    have inRest (fits : ∀ id, other.nodeIDsByIPs.lookup ip = some id → id = nodeID) :
        ∃ ip ∈ rest, ∃ id, n.nodeIDsByIPs.lookup ip = some id ∧ id ≠ nodeID := by
      obtain ⟨_, _, rfl⟩ := refused
      obtain ⟨ip, member, id, found, differ⟩ := stale
      rcases mem_cons.mp member with rfl | member
      · exact absurd (fits id found) differ
      · exact ⟨ip, member, id, found, differ⟩
    rcases mapIPs_cons (n := other) spiChanged ip rest errs with
      ⟨found, same⟩ | ⟨_, _, _, same⟩ | ⟨fits, later, same⟩
    · rw [same]
      exact inductionHypothesis refused.mono
        (inRest fun id known => Option.some.inj (known.symm.trans found))
    · exact ⟨other, same, refused.imp fun _ left => ⟨(Nat.le_add_right _ _).trans left.1, left.2⟩⟩
    · rw [same]
      refine inductionHypothesis ?_ (inRest fits)
      rcases other.mapNodeID_cases ip nodeID spi with
        ⟨_, _, _, kept⟩ | ⟨_, _, ⟨_, _, _, kept⟩ | ⟨free, _⟩⟩
      · rw [kept]
        exact refused.mono
      · rw [kept]
        exact refused.fault.2
      · cases free.symm.trans refused.fault.1

section

variable (known : n.getNodeIDForNode node ≠ 0) (mixed : ¬n.Uniform node)
include known mixed

/-- The addresses of a node that has an identifier and is not uniform have another one as well. -/
theorem exists_stale : ∃ ip ∈ node.ipAddresses, ∃ id,
      n.nodeIDsByIPs.lookup ip = some id ∧ id ≠ n.getNodeIDForNode node := by
  by_contra agree
  push Not at agree
  refine mixed fun ip member => ?_
  cases found : n.nodeIDsByIPs.lookup ip with
  | none => exact .inl rfl
  | some id => exact .inr ⟨congrArg some (agree ip member id found), known⟩

/-- The rounds go on as long as the map refuses to delete. -/
theorem Refused.loop {rounds : Nat}
    (refused : n.Refused (rounds * (2 * node.ipAddresses.length)) other) :
    allocateIDForNodeLoop order oldNode node rounds other = none := by
  induction rounds generalizing other with
  | zero => rfl
  | succ rounds inductionHypothesis =>
    have same : other.getNodeIDForNode node = n.getNodeIDForNode node := by
      obtain ⟨_, _, rfl⟩ := refused
      rfl
    rw [Nat.succ_mul, Nat.two_mul, ← Nat.add_assoc, ← Nat.two_mul] at refused
    obtain ⟨stale, stopped, later⟩ := refused.mapIPs (exists_stale known mixed)
    rcases other.chooseID_cases order rounds node with ⟨zero, _⟩ | ⟨_, chosen⟩
    · exact absurd (same.symm.trans zero) known
    · rw [allocateIDForNodeLoop, chosen, same, if_neg known, stopped]
      exact inductionHypothesis later.unmapNodeIDs

theorem not_returns : ¬n.Returns order oldNode node fun _ => some "refused" := by
  intro ⟨rounds, calls, returned⟩
  have refused (more : Nat) :
      n.Refused more (n.answering (fun _ => some "refused") (calls + more)) :=
    ⟨calls + more, Nat.le_add_left _ _, by simp [answering]⟩
  have stuck := returned _ (Nat.le_add_right calls (rounds * (2 * node.ipAddresses.length)))
  rw [(refused _).loop known mixed] at stuck
  cases stuck

end

/-- The addresses of the node agree on their identifier, or they give none and the pool has none
either. -/
def Settled (n : LinuxNodeHandler) (node : Node) : Prop :=
  n.Uniform node ∨ n.getNodeIDForNode node = 0 ∧ ∀ id ∈ n.nodeIDs.ids, id.toUInt16 = 0

/-- A settled allocation ends with its first round. -/
theorem Settled.loop (settled : n.Settled node) :
    (allocateIDForNodeLoop order oldNode node 1 n).isSome = true := by
  unfold allocateIDForNodeLoop
  split
  · rfl
  case isFalse given =>
    rcases settled with uniform | ⟨zero, spent⟩
    · split
      case h_1 stale stopped =>
        exact absurd (congrArg Prod.snd stopped) (uniform.finishes order 0 oldNode)
      · rfl
    · refine absurd ?_ given
      rw [chooseID, if_pos zero]
      rcases n.nodeIDs.allocateID_cases order 0 with ⟨_, none⟩ | ⟨member, _⟩
      · rw [none]
        rfl
      · exact spent _ member

/-- An allocation returns whatever the BPF map answers if it is settled, and only then, unless the
last address of the node that has an identifier has the identifier zero. -/
theorem returns_of_settled (n : LinuxNodeHandler) (node : Node) :
    (n.Settled node → ∀ order oldNode pattern, n.Returns order oldNode node pattern) ∧
      (n.getNodeIDForNode node ≠ 0 →
        (∀ order oldNode pattern, n.Returns order oldNode node pattern) → n.Settled node) := by
  constructor
  · exact fun settled order oldNode pattern => ⟨1, 0, fun more _ =>
      Settled.loop (n := n.answering pattern more) settled⟩
  · intro known returns
    by_contra mixed
    exact not_returns known (fun uniform => mixed (.inl uniform)) (returns .listed none _)

def firstIP : NodeIP := .valid ⟨.ipv4, 1, by decide⟩

def nodeOf (ips : List NodeIP) : Node := ⟨"n", "c", ips, 0, .kubernetes⟩

def mappedTo (id : UInt16) : LinuxNodeHandler :=
  ((newNodeHandler ⟨∅, []⟩).mapNodeID firstIP id 0).1

/-- The address has an identifier, or zero is left over for it and the pool is empty. -/
theorem mappedTo_returns :
    (mappedTo 1).Returns .listed none (nodeOf [firstIP]) (fun _ => some "refused") ∧
      { mappedTo 0 with nodeIDs := ⟨∅, ∅, fun _ => (absurd · (AList.notMem_empty _))⟩ }.Returns
        .listed none (nodeOf [firstIP]) (fun _ => some "refused") :=
  ⟨(returns_of_settled _ _).1 (.inl (by decide)) _ _ _, (returns_of_settled _ _).1
    (.inr ⟨by decide, fun _ => (absurd · (AList.notMem_empty _))⟩) _ _ _⟩

/-- Two addresses that have different identifiers, of a node that has both. -/
theorem not_returns_of_reused :
    let second : NodeIP := .valid ⟨.ipv4, 2, by decide⟩
    ¬((mappedTo 1).mapNodeID second 2 0).1.Returns .listed none (nodeOf [firstIP, second])
      fun _ => some "refused" :=
  not_returns (by decide) (by decide)

end Constellation.Linux.LinuxNodeHandler
