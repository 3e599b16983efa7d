/-
This file models the allocator for managed nodes: one range of addresses for each node that shares
the agent. A node whose CIDR changes gets a new range in which no address is in use, so an address
can be handed out twice once its CIDR is registered again. The last part shows that this is the
only way.
-/

import Constellation.Ipam.Range
import Constellation.Lib.Run

namespace Constellation.Ipam

open Lib List Range

/-- The empty name stands for no pool. -/
abbrev Pool := String

structure AllocationResult where
  ip : Addr
  ipPoolName : Pool
  deriving DecidableEq, Repr

/-! ### The allocator -/

structure SubAllocator where
  nodeName : String
  allocCIDR : CIDR
  allocator : Range
  allocator_cidr : allocator.cidr = allocCIDR.masked

def SubAllocator.withAllocator (sub : SubAllocator) (range : Range)
    (same : range.cidr = sub.allocator.cidr) : SubAllocator :=
  { sub with allocator := range, allocator_cidr := same.trans sub.allocator_cidr }

/-- The sub-allocators stand in the order in which they were added, at most one for each node. -/
structure ManagedScopeAllocator where
  subs : List SubAllocator
  primaryNode : String
  nodeNames_nodup : (subs.map SubAllocator.nodeName).Nodup

namespace ManagedScopeAllocator

def empty (primaryNode : String) : ManagedScopeAllocator := ⟨[], primaryNode, nodup_nil⟩

variable (m : ManagedScopeAllocator) (nodeName : String)

def subByNode : Option SubAllocator :=
  m.subs.find? fun sub => sub.nodeName = nodeName

def updateSub (changed : SubAllocator) : ManagedScopeAllocator where
  subs := m.subs.map fun sub => if sub.nodeName = changed.nodeName then changed else sub
  primaryNode := m.primaryNode
  nodeNames_nodup := by
    have names : (m.subs.map fun sub =>
        if sub.nodeName = changed.nodeName then changed else sub).map SubAllocator.nodeName =
        m.subs.map SubAllocator.nodeName := by
      rw [map_map]
      refine map_congr_left fun sub _ => ?_
      show (if sub.nodeName = changed.nodeName then changed else sub).nodeName = sub.nodeName
      split
      case isTrue same => exact same.symm
      · rfl
    rw [names]
    exact m.nodeNames_nodup

def removeCIDRLocked : ManagedScopeAllocator where
  subs := m.subs.eraseP fun sub => sub.nodeName = nodeName
  primaryNode := m.primaryNode
  nodeNames_nodup := m.nodeNames_nodup.sublist (eraseP_sublist.map _)

def newSub (cidr : CIDR) : SubAllocator where
  nodeName := nodeName
  allocCIDR := cidr
  allocator := .newCIDRRange cidr
  allocator_cidr := newCIDRRange_cidr cidr

/-- `addCIDR` of the source. -/
def addCIDRLocked (cidr : CIDR)
    (fresh : nodeName ∉ m.subs.map SubAllocator.nodeName) : ManagedScopeAllocator where
  subs := m.subs ++ [newSub nodeName cidr]
  primaryNode := m.primaryNode
  nodeNames_nodup := by
    rw [map_append, nodup_append]
    refine ⟨m.nodeNames_nodup, nodup_singleton _, ?_⟩
    intro name member other otherMember same
    obtain rfl := mem_singleton.mp otherMember
    exact fresh (same ▸ member)

variable {m : ManagedScopeAllocator} {nodeName : String} {first second : SubAllocator} {addr : Addr}

theorem not_mem_of_subByNode (missing : m.subByNode nodeName = none) :
    nodeName ∉ m.subs.map SubAllocator.nodeName := by
  intro member
  obtain ⟨sub, subMember, same⟩ := mem_map.mp member
  exact find?_eq_none.mp missing sub subMember (decide_eq_true same)

/-- Among distinct names, removing the first sub-allocator of a node removes all of them. -/
theorem eraseP_eq_filter (subs : List SubAllocator) (nodeName : String)
    (nodup : (subs.map SubAllocator.nodeName).Nodup) :
    (subs.eraseP fun sub => sub.nodeName = nodeName) =
      subs.filter fun sub => sub.nodeName ≠ nodeName := by
  induction subs with
  | nil => rfl
  | cons sub rest inductionHypothesis =>
    rw [map_cons, nodup_cons] at nodup
    by_cases same : sub.nodeName = nodeName
    · have others : rest.filter (fun sub => sub.nodeName ≠ nodeName) = rest := by
        refine filter_eq_self.mpr fun other member => decide_eq_true fun otherSame => ?_
        exact nodup.1 (mem_map.mpr ⟨other, member, otherSame.trans same.symm⟩)
      rw [eraseP_cons_of_pos (by simp [same]), filter_cons_of_neg (by simp [same]), others]
    · rw [eraseP_cons_of_neg (by simp [same]), filter_cons_of_pos (by simp [same]),
        inductionHypothesis nodup.2]

theorem mem_removeCIDRLocked {sub : SubAllocator} :
    sub ∈ (m.removeCIDRLocked nodeName).subs ↔ sub ∈ m.subs ∧ sub.nodeName ≠ nodeName := by
  show sub ∈ m.subs.eraseP _ ↔ _
  rw [eraseP_eq_filter m.subs nodeName m.nodeNames_nodup, mem_filter, decide_eq_true_eq]

section

variable (m : ManagedScopeAllocator)

theorem not_mem_removeCIDRLocked (nodeName : String) :
    nodeName ∉ (m.removeCIDRLocked nodeName).subs.map SubAllocator.nodeName := by
  intro member
  obtain ⟨sub, subMember, same⟩ := mem_map.mp member
  exact (mem_removeCIDRLocked.mp subMember).2 same

/-- A CIDR that is not a valid one is ignored. -/
def addCIDR (nodeName : String) (cidr : Option CIDR) : ManagedScopeAllocator :=
  match cidr with
  | none => m
  | some cidr =>
    match missing : m.subByNode nodeName with
    | none => m.addCIDRLocked nodeName cidr (not_mem_of_subByNode missing)
    | some existing =>
      if existing.allocCIDR = cidr then m
      else
        (m.removeCIDRLocked nodeName).addCIDRLocked nodeName cidr
          (m.not_mem_removeCIDRLocked nodeName)

def findSubForIP (addr : Addr) : Option SubAllocator :=
  m.subs.find? fun sub => sub.allocCIDR.contains addr

/-- The empty pool is that of the primary node. -/
def resolvePool (pool : Pool) : Option SubAllocator :=
  m.subByNode (if pool = "" then m.primaryNode else pool)

end

def errNoManagedCIDR (addr : Addr) : String :=
  "IP " ++ addr.string ++ " does not belong to any managed CIDR"

section

variable (m : ManagedScopeAllocator)

def allocate (addr : Addr) : ManagedScopeAllocator × Except String AllocationResult :=
  match m.findSubForIP addr with
  | none => (m, .error (errNoManagedCIDR addr))
  | some sub =>
    match allocated : sub.allocator.allocate addr with
    | .error err => (m, .error err)
    | .ok range =>
      (m.updateSub (sub.withAllocator range (allocate_spec allocated).1), .ok ⟨addr, sub.nodeName⟩)

def release (addr : Addr) : ManagedScopeAllocator × Except String Unit :=
  match m.findSubForIP addr with
  | none => (m, .error (errNoManagedCIDR addr))
  | some sub =>
    (m.updateSub (sub.withAllocator (sub.allocator.release addr)
      (sub.allocator.release_cidr addr)), .ok ())

/-- Falls back to the primary node if the pool is unknown. If that has no range the agent panics. -/
def allocateNext (pool : Pool) (start : Nat) :
    ManagedScopeAllocator × Except String AllocationResult :=
  match (m.resolvePool pool).or (m.subByNode m.primaryNode) with
  | none => (m, .error "runtime error: invalid memory address or nil pointer dereference")
  | some sub =>
    match allocated : sub.allocator.allocateNext start with
    | .error err =>
      (m, .error ("pool " ++ sub.nodeName.quote ++ " (" ++ sub.allocCIDR.string ++
        ") exhausted: " ++ err))
    | .ok (addr, range) =>
      (m.updateSub (sub.withAllocator range (allocateNext_spec allocated).1),
        .ok ⟨addr, sub.nodeName⟩)

end

/-! ### What the operations make of the sub-allocators -/

section Operations

variable {sub other : SubAllocator}

theorem mem_updateSub {changed : SubAllocator} (member : other ∈ (m.updateSub changed).subs) :
    other = changed ∨ other ∈ m.subs ∧ other.nodeName ≠ changed.nodeName := by
  obtain ⟨previous, previousMember, same⟩ := mem_map.mp member
  split at same
  · exact .inl same.symm
  case isFalse differ =>
    subst same
    exact .inr ⟨previousMember, differ⟩

theorem mem_of_subByNode (found : m.subByNode nodeName = some sub) :
    sub ∈ m.subs ∧ sub.nodeName = nodeName := by
  have same := find?_some found
  exact ⟨mem_of_find?_eq_some found, of_decide_eq_true same⟩

theorem mem_of_findSubForIP (found : m.findSubForIP addr = some sub) :
    sub ∈ m.subs ∧ sub.allocCIDR.contains addr = true := by
  have inside := find?_some found
  exact ⟨mem_of_find?_eq_some found, inside⟩

/-- The sub-allocators after a CIDR was registered: those of other nodes, and a new one unless the
node has the CIDR already. -/
theorem mem_addCIDR {cidr : CIDR} (member : other ∈ (m.addCIDR nodeName (some cidr)).subs) :
    other ∈ m.subs ∨ other = newSub nodeName cidr ∧
      ∀ existing, m.subByNode nodeName = some existing → existing.allocCIDR ≠ cidr := by
  unfold addCIDR at member
  dsimp only at member
  split at member
  case h_1 missing =>
    rcases mem_append.mp member with earlier | new
    · exact .inl earlier
    · refine .inr ⟨mem_singleton.mp new, fun existing found => ?_⟩
      rw [missing] at found
      cases found
  case h_2 existing found =>
    split at member
    · exact .inl member
    case isFalse differ =>
      rcases mem_append.mp member with earlier | new
      · exact .inl (mem_removeCIDRLocked.mp earlier).1
      · refine .inr ⟨mem_singleton.mp new, fun previous previousFound => ?_⟩
        rw [found] at previousFound
        exact Option.some.inj previousFound ▸ differ

/-- A successful allocation of an address reserves it in a sub-allocator that contains it. -/
theorem allocate_cases (addr : Addr) :
    (m.allocate addr).1 = m ∧ (∃ err, (m.allocate addr).2 = .error err) ∨
      ∃ sub range same, m.findSubForIP addr = some sub ∧ sub.allocator.allocate addr = .ok range ∧
        m.allocate addr =
          (m.updateSub (sub.withAllocator range same), .ok ⟨addr, sub.nodeName⟩) := by
  unfold allocate
  split
  · exact .inl ⟨rfl, _, rfl⟩
  case h_2 sub found =>
    split
    · exact .inl ⟨rfl, _, rfl⟩
    case h_2 range allocated =>
      exact .inr ⟨sub, range, (allocate_spec allocated).1, found, allocated, rfl⟩

/-- A successful allocation of the next address reserves it in the sub-allocator of the pool, or
of the primary node. -/
theorem allocateNext_cases (pool : Pool) (start : Nat) :
    (m.allocateNext pool start).1 = m ∧ (∃ err, (m.allocateNext pool start).2 = .error err) ∨
      ∃ sub addr range same, (m.resolvePool pool).or (m.subByNode m.primaryNode) = some sub ∧
        sub.allocator.allocateNext start = .ok (addr, range) ∧
        m.allocateNext pool start =
          (m.updateSub (sub.withAllocator range same), .ok ⟨addr, sub.nodeName⟩) := by
  unfold allocateNext
  split
  · exact .inl ⟨rfl, _, rfl⟩
  case h_2 sub found =>
    split
    · exact .inl ⟨rfl, _, rfl⟩
    case h_2 addr range allocated =>
      exact .inr ⟨sub, addr, range, (allocateNext_spec allocated).1, found, allocated, rfl⟩

theorem mem_of_resolvePool {pool : Pool}
    (found : (m.resolvePool pool).or (m.subByNode m.primaryNode) = some sub) : sub ∈ m.subs := by
  rcases Option.or_eq_some_iff.mp found with resolved | ⟨_, primary⟩
  · exact (mem_of_subByNode resolved).1
  · exact (mem_of_subByNode primary).1

/-- It fails and changes nothing, or reserves a free address in the range of a node. -/
def Reserves (m : ManagedScopeAllocator)
    (outcome : ManagedScopeAllocator × Except String AllocationResult) : Prop :=
  outcome.1 = m ∧ (∃ err, outcome.2 = .error err) ∨
    ∃ sub range same addr, sub ∈ m.subs ∧ sub.allocCIDR.contains addr = true ∧
      sub.allocator.has addr = false ∧
      (∀ other, range.has other = (decide (other = addr) || sub.allocator.has other)) ∧
      outcome = (m.updateSub (sub.withAllocator range same), .ok ⟨addr, sub.nodeName⟩)

theorem allocate_reserves (addr : Addr) : m.Reserves (m.allocate addr) := by
  refine (allocate_cases addr).imp_right fun ⟨sub, range, same, found, allocated, result⟩ => ?_
  obtain ⟨_, free, has_eq⟩ := allocate_spec allocated
  obtain ⟨member, inside⟩ := mem_of_findSubForIP found
  exact ⟨sub, range, same, addr, member, inside, free, has_eq, result⟩

theorem allocateNext_reserves (pool : Pool) (start : Nat) :
    m.Reserves (m.allocateNext pool start) := by
  refine (allocateNext_cases pool start).imp_right
    fun ⟨sub, addr, range, same, found, allocated, result⟩ => ?_
  obtain ⟨_, inside, free, has_eq, _⟩ := allocateNext_spec allocated
  rw [sub.allocator_cidr, CIDR.contains_masked] at inside
  exact ⟨sub, range, same, addr, mem_of_resolvePool found, inside, free, has_eq, result⟩

end Operations

/-! ### Disjoint CIDRs -/

def CIDRsDisjoint (m : ManagedScopeAllocator) : Prop :=
  m.subs.Pairwise fun first second => first.allocCIDR.overlaps second.allocCIDR = false
  deriving Decidable

theorem CIDRsDisjoint.eq_of_contains (disjoint : m.CIDRsDisjoint) (firstMember : first ∈ m.subs)
    (secondMember : second ∈ m.subs) (inFirst : first.allocCIDR.contains addr = true)
    (inSecond : second.allocCIDR.contains addr = true) : first.nodeName = second.nodeName := by
  by_contra differ
  have symmetric : Std.Symm fun first second : SubAllocator =>
      first.allocCIDR.overlaps second.allocCIDR = false :=
    ⟨fun first second apart => (CIDR.overlaps_comm _ _).trans apart⟩
  have apart := List.Pairwise.forall disjoint firstMember secondMember
    fun same => differ (congrArg SubAllocator.nodeName same)
  rw [CIDR.overlaps_of_contains inFirst inSecond] at apart
  cases apart

/-! ### Addresses in use -/

section

variable (m : ManagedScopeAllocator)

def has (addr : Addr) : Bool :=
  m.subs.any fun sub => sub.allocator.has addr

def layout : List (String × CIDR) :=
  m.subs.map fun sub => (sub.nodeName, sub.allocCIDR)

def nodeFor (addr : Addr) : Option String :=
  (m.findSubForIP addr).map SubAllocator.nodeName

end

section InUse

variable {sub : SubAllocator} {other : Addr} {range : Range}
  {same : range.cidr = sub.allocator.cidr}

theorem eq_of_nodeName (firstMember : first ∈ m.subs) (secondMember : second ∈ m.subs)
    (names : first.nodeName = second.nodeName) : first = second :=
  inj_on_of_nodup_map m.nodeNames_nodup firstMember secondMember names

theorem has_iff (member : sub ∈ m.subs) :
    m.has other = true ↔ sub.allocator.has other = true ∨
      ∃ another ∈ m.subs, another.nodeName ≠ sub.nodeName ∧ another.allocator.has other = true := by
  rw [has, any_eq_true]
  constructor
  · intro ⟨another, anotherMember, used⟩
    by_cases names : another.nodeName = sub.nodeName
    · exact .inl (eq_of_nodeName anotherMember member names ▸ used)
    · exact .inr ⟨another, anotherMember, names, used⟩
  · intro found
    rcases found with used | ⟨another, anotherMember, _, used⟩
    · exact ⟨sub, member, used⟩
    · exact ⟨another, anotherMember, used⟩

theorem has_updateSub (member : sub ∈ m.subs) :
    (m.updateSub (sub.withAllocator range same)).has other = true ↔ range.has other = true ∨
      ∃ another ∈ m.subs, another.nodeName ≠ sub.nodeName ∧ another.allocator.has other = true := by
  rw [has, any_eq_true]
  constructor
  · intro ⟨another, anotherMember, used⟩
    rcases mem_updateSub anotherMember with changed | ⟨earlier, differ⟩
    · subst changed
      exact .inl used
    · exact .inr ⟨another, earlier, differ, used⟩
  · intro found
    rcases found with used | ⟨another, anotherMember, differ, used⟩
    · exact ⟨_, mem_map.mpr ⟨sub, member, if_pos rfl⟩, used⟩
    · exact ⟨another, mem_map.mpr ⟨another, anotherMember, if_neg differ⟩, used⟩

theorem layout_updateSub (member : sub ∈ m.subs) :
    (m.updateSub (sub.withAllocator range same)).layout = m.layout := by
  show List.map _ (List.map _ m.subs) = _
  rw [map_map]
  refine map_congr_left fun another anotherMember => ?_
  show (fun sub : SubAllocator => (sub.nodeName, sub.allocCIDR)) (if _ then _ else _) = _
  split
  case isTrue names => rw [eq_of_nodeName anotherMember member names]; rfl
  · rfl

theorem isSome_subByNode_iff :
    (m.subByNode nodeName).isSome = true ↔ nodeName ∈ m.layout.map Prod.fst := by
  rw [subByNode, find?_isSome, layout, map_map, mem_map]
  exact exists_congr fun sub => and_congr_right fun _ => decide_eq_true_iff

theorem nodeFor_eq (addr : Addr) :
    m.nodeFor addr = (m.layout.find? fun entry => entry.2.contains addr).map Prod.fst := by
  rw [layout, find?_map, Option.map_map]
  rfl

theorem cidrsDisjoint_iff :
    m.CIDRsDisjoint ↔ m.layout.Pairwise fun first second => first.2.overlaps second.2 = false := by
  rw [layout, pairwise_map]
  rfl

theorem contains_of_has (used : sub.allocator.has addr = true) :
    sub.allocCIDR.contains addr = true := by
  have inside := Range.contains_of_has used
  rwa [sub.allocator_cidr, CIDR.contains_masked] at inside

/-- Among disjoint CIDRs, the node for an address is the one whose CIDR contains it. -/
theorem nodeFor_of_contains (disjoint : m.CIDRsDisjoint) (member : sub ∈ m.subs)
    (inside : sub.allocCIDR.contains addr = true) : m.nodeFor addr = some sub.nodeName := by
  unfold nodeFor
  cases found : m.findSubForIP addr with
  | none => exact absurd inside (find?_eq_none.mp found sub member)
  | some first =>
    obtain ⟨firstMember, firstInside⟩ := mem_of_findSubForIP found
    rw [Option.map_some, disjoint.eq_of_contains firstMember member firstInside inside]

theorem has_updateSub_insert (member : sub ∈ m.subs)
    (has_eq : ∀ other, range.has other = (decide (other = addr) || sub.allocator.has other))
    (other : Addr) :
    (m.updateSub (sub.withAllocator range same)).has other =
      (decide (other = addr) || m.has other) := by
  rw [Bool.eq_iff_iff, has_updateSub member, has_eq, Bool.or_eq_true, Bool.or_eq_true,
    has_iff member, or_assoc]

theorem has_release (disjoint : m.CIDRsDisjoint) (addr other : Addr) :
    (m.release addr).1.has other = (decide (other ≠ addr) && m.has other) := by
  unfold release
  cases found : m.findSubForIP addr with
  | none =>
    have unused : m.has addr = false := by
      rw [← Bool.not_eq_true, has, any_eq_true]
      intro ⟨sub, member, used⟩
      exact find?_eq_none.mp found sub member (contains_of_has used)
    by_cases same : other = addr
    · subst same
      simp [unused]
    · simp [same]
  | some sub =>
    obtain ⟨member, inside⟩ := mem_of_findSubForIP found
    rw [Bool.eq_iff_iff, has_updateSub member, Range.has_release, Bool.and_eq_true,
      Bool.and_eq_true, decide_eq_true_eq, has_iff member]
    constructor
    · intro used
      rcases used with ⟨differ, used⟩ | ⟨another, anotherMember, names, used⟩
      · exact ⟨differ, .inl used⟩
      · refine ⟨fun same => names ?_, .inr ⟨another, anotherMember, names, used⟩⟩
        exact disjoint.eq_of_contains anotherMember member (contains_of_has used) (same ▸ inside)
    · intro ⟨differ, used⟩
      exact used.imp (fun used => ⟨differ, used⟩) id

theorem layout_release (addr : Addr) : (m.release addr).1.layout = m.layout := by
  unfold release
  split
  · rfl
  case h_2 sub found => exact layout_updateSub (mem_of_findSubForIP found).1

end InUse

/-! ### Runs -/

/-- The starting point of the search for the next address is random. -/
inductive Action
  | addCIDR (nodeName : String) (cidr : Option CIDR)
  | allocate (addr : Addr)
  | allocateNext (pool : Pool) (start : Nat)
  | release (addr : Addr)

/-- With the addresses that were returned and not released since. -/
structure History where
  m : ManagedScopeAllocator
  outstanding : Finset Addr

namespace History

variable (history : History)

def returned : Action → Option Addr
  | .addCIDR _ _ => none
  | .allocate addr => (history.m.allocate addr).2.toOption.map AllocationResult.ip
  | .allocateNext pool start =>
    (history.m.allocateNext pool start).2.toOption.map AllocationResult.ip
  | .release _ => none

/-- A call to release an address ends its being outstanding, whether it fails or not. -/
def step (action : Action) : History :=
  match action with
  | .addCIDR nodeName cidr => ⟨history.m.addCIDR nodeName cidr, history.outstanding⟩
  | .allocate addr =>
    ⟨(history.m.allocate addr).1,
      (history.returned action).elim history.outstanding (insert · history.outstanding)⟩
  | .allocateNext pool start =>
    ⟨(history.m.allocateNext pool start).1,
      (history.returned action).elim history.outstanding (insert · history.outstanding)⟩
  | .release addr => ⟨(history.m.release addr).1, history.outstanding.erase addr⟩

/-- No operation gives a node a new range that covers an outstanding address. -/
def CoversNone : Action → Prop
  | .addCIDR nodeName (some cidr) =>
    (∃ existing ∈ history.m.subByNode nodeName, existing.allocCIDR = cidr) ∨
      ∀ addr ∈ history.outstanding, cidr.contains addr = false
  | _ => True

/-- Every outstanding address is in use in all ranges whose CIDR contains it. -/
def Marked : Prop :=
  ∀ addr ∈ history.outstanding, ∀ sub ∈ history.m.subs, sub.allocCIDR.contains addr = true →
    sub.allocator.has addr = true

variable {history : History}

section

variable {sub : SubAllocator} {range : Range} (marked : history.Marked)
  (disjoint : history.m.CIDRsDisjoint) (member : sub ∈ history.m.subs)
  (same : range.cidr = sub.allocator.cidr)
include marked disjoint member same

/-- Outstanding addresses stay in use when the range of one node changes, provided that the new
range has them in use, and that each new one is in the node's CIDR. -/
theorem Marked.updateSub {outstanding : Finset Addr}
    (kept : ∀ addr ∈ outstanding, sub.allocCIDR.contains addr = true → range.has addr = true)
    (origin : ∀ addr ∈ outstanding,
      addr ∈ history.outstanding ∨ sub.allocCIDR.contains addr = true) :
    Marked ⟨history.m.updateSub (sub.withAllocator range same), outstanding⟩ := by
  intro addr isOutstanding other otherMember inside
  rcases mem_updateSub otherMember with changed | ⟨otherMember, differ⟩
  · subst changed
    exact kept addr isOutstanding inside
  · rcases origin addr isOutstanding with earlier | here
    · exact marked addr earlier other otherMember inside
    · exact absurd (disjoint.eq_of_contains otherMember member inside here) differ

theorem Marked.insert (inside : sub.allocCIDR.contains addr = true)
    (has_eq : ∀ other, range.has other = (decide (other = addr) || sub.allocator.has other)) :
    Marked ⟨history.m.updateSub (sub.withAllocator range same),
      Insert.insert addr history.outstanding⟩ := by
  refine marked.updateSub disjoint member same (fun other isOutstanding otherInside => ?_)
    fun other isOutstanding => ?_
  · rw [has_eq, Bool.or_eq_true, decide_eq_true_eq]
    exact (Finset.mem_insert.mp isOutstanding).imp id fun earlier =>
      marked other earlier sub member otherInside
  · rcases Finset.mem_insert.mp isOutstanding with new | earlier
    · exact .inr (new ▸ inside)
    · exact .inl earlier

end

section

variable {outcome : ManagedScopeAllocator × Except String AllocationResult}
  (marked : history.Marked) (reserves : history.m.Reserves outcome)
include marked reserves

theorem Marked.allocation (disjoint : history.m.CIDRsDisjoint) :
    Marked ⟨outcome.1, (outcome.2.toOption.map AllocationResult.ip).elim history.outstanding
      (Insert.insert · history.outstanding)⟩ := by
  rcases reserves with ⟨unchanged, err, failed⟩ |
    ⟨sub, range, same, addr, member, inside, _, has_eq, rfl⟩
  · rw [unchanged, failed]
    exact marked
  · exact marked.insert disjoint member same inside has_eq

theorem Marked.not_outstanding (returns : outcome.2.toOption.map AllocationResult.ip = some addr) :
    addr ∉ history.outstanding := by
  intro isOutstanding
  rcases reserves with ⟨_, err, failed⟩ | ⟨sub, range, same, own, member, inside, free, _, rfl⟩
  · rw [failed] at returns
    cases returns
  · cases returns
    rw [marked own isOutstanding sub member inside] at free
    cases free

end

variable {action : Action}

section

variable (marked : history.Marked)
include marked

theorem Marked.release (disjoint : history.m.CIDRsDisjoint) (addr : Addr) :
    (history.step (.release addr)).Marked := by
  have fewer {other : Addr} (member : other ∈ history.outstanding.erase addr) :
      other ≠ addr ∧ other ∈ history.outstanding :=
    Finset.mem_erase.mp member
  unfold step ManagedScopeAllocator.release
  dsimp only
  cases found : history.m.findSubForIP addr with
  | none => exact fun other member => marked other (fewer member).2
  | some sub =>
    have member := (mem_of_findSubForIP found).1
    refine marked.updateSub disjoint member _ (fun other isOutstanding inside => ?_)
      fun other isOutstanding => .inl (fewer isOutstanding).2
    rw [Range.has_release, Bool.and_eq_true, decide_eq_true_eq]
    exact ⟨(fewer isOutstanding).1, marked other (fewer isOutstanding).2 sub member inside⟩

/-- Registering a CIDR that covers no outstanding address keeps outstanding addresses in use. -/
theorem Marked.addCIDR {cidr : Option CIDR}
    (coversNone : history.CoversNone (.addCIDR nodeName cidr)) :
    (history.step (.addCIDR nodeName cidr)).Marked := by
  cases cidr with
  | none => exact marked
  | some cidr =>
    intro addr isOutstanding sub member inside
    rcases mem_addCIDR member with earlier | ⟨new, differ⟩
    · exact marked addr isOutstanding sub earlier inside
    · subst new
      rcases coversNone with ⟨existing, found, same⟩ | outside
      · exact absurd same (differ existing found)
      · have : cidr.contains addr = true := inside
        rw [outside addr isOutstanding] at this
        cases this

theorem Marked.step (disjoint : history.m.CIDRsDisjoint) (coversNone : history.CoversNone action) :
    (history.step action).Marked := by
  cases action with
  | addCIDR nodeName cidr => exact marked.addCIDR coversNone
  | allocate addr => exact marked.allocation (allocate_reserves addr) disjoint
  | allocateNext pool start => exact marked.allocation (allocateNext_reserves pool start) disjoint
  | release addr => exact marked.release disjoint addr

end

/-- In every run with disjoint CIDRs in which no new range covers an outstanding address, an
operation does not return an address that is still outstanding. -/
theorem returned_not_outstanding (primaryNode : String) {actions : List Action}
    (meets : Meets step (fun history action => (history.step action).m.CIDRsDisjoint ∧
      history.CoversNone action) ⟨empty primaryNode, ∅⟩ actions) {action : Action} {addr : Addr}
    (returns : (run step ⟨empty primaryNode, ∅⟩ actions).returned action = some addr) :
    addr ∉ (run step ⟨empty primaryNode, ∅⟩ actions).outstanding := by
  have invariant : (run step ⟨empty primaryNode, ∅⟩ actions).m.CIDRsDisjoint ∧
      (run step ⟨empty primaryNode, ∅⟩ actions).Marked := by
    refine Meets.invariant (fun history => history.m.CIDRsDisjoint ∧ history.Marked)
      (fun history action holds meets => ?_) ⟨.nil, fun addr member => ?_⟩ meets
    · exact ⟨meets.1, holds.2.step holds.1 meets.2⟩
    · cases member
  cases action with
  | addCIDR nodeName cidr | release released => cases returns
  | allocate requested => exact invariant.2.not_outstanding (allocate_reserves requested) returns
  | allocateNext pool start =>
    exact invariant.2.not_outstanding (allocateNext_reserves pool start) returns

def smallCIDR (network : Nat) (inRange : network < 2 ^ 32) : CIDR :=
  ⟨⟨.ipv4, network, inRange⟩, 29, (by decide : 29 ≤ Family.ipv4.bitLen)⟩

/-- A CIDR changes while no address of it is in use. -/
def orderlyRun : List Action :=
  [.addCIDR "node" (some (smallCIDR 0x0a000000 (by decide))), .allocateNext "node" 0,
    .release ⟨.ipv4, 0x0a000001, by decide⟩,
    .addCIDR "node" (some (smallCIDR 0x0a000100 (by decide))),
    .allocateNext "node" 0]

theorem orderlyRun_meets :
    Meets step (fun history action => (history.step action).m.CIDRsDisjoint ∧
      history.CoversNone action) ⟨empty "node", ∅⟩ orderlyRun := by
  refine ⟨⟨by decide +kernel, .inr ?_⟩, ⟨by decide +kernel, trivial⟩,
    ⟨by decide +kernel, trivial⟩, ⟨by decide +kernel, .inr ?_⟩, ⟨by decide +kernel, trivial⟩,
    trivial⟩
  · decide +kernel
  · decide +kernel

theorem orderlyRun_returned_not_outstanding :
    (run step ⟨empty "node", ∅⟩ orderlyRun).returned (.allocateNext "node" 0) =
        some ⟨.ipv4, 0x0a000102, by decide⟩ ∧
      ⟨.ipv4, 0x0a000102, by decide⟩ ∉ (run step ⟨empty "node", ∅⟩ orderlyRun).outstanding :=
  have returns : (run step ⟨empty "node", ∅⟩ orderlyRun).returned (.allocateNext "node" 0) =
      some ⟨.ipv4, 0x0a000102, by decide⟩ := by decide +kernel
  ⟨returns, returned_not_outstanding "node" orderlyRun_meets returns⟩

/-- A CIDR changes and changes back while an address is in use. -/
def restoredRun : List Action :=
  [.addCIDR "node" (some (smallCIDR 0x0a000000 (by decide))), .allocateNext "node" 0,
    .addCIDR "node" (some (smallCIDR 0x0a000100 (by decide))),
    .addCIDR "node" (some (smallCIDR 0x0a000000 (by decide)))]

/-- After the CIDR came back, the address that is still in use is returned again. -/
theorem restoredRun_returned_outstanding :
    Meets step (fun history action => (history.step action).m.CIDRsDisjoint) ⟨empty "node", ∅⟩
        restoredRun ∧
      (run step ⟨empty "node", ∅⟩ restoredRun).returned (.allocateNext "node" 0) =
        some ⟨.ipv4, 0x0a000001, by decide⟩ ∧
      (run step ⟨empty "node", ∅⟩ restoredRun).returned (.allocate ⟨.ipv4, 0x0a000001, by decide⟩) =
        some ⟨.ipv4, 0x0a000001, by decide⟩ ∧
      ⟨.ipv4, 0x0a000001, by decide⟩ ∈ (run step ⟨empty "node", ∅⟩ restoredRun).outstanding := by
  refine ⟨?_, ?_, ?_, ?_⟩ <;> decide +kernel

end History

end ManagedScopeAllocator

end Constellation.Ipam
