/-
This file shows what the node handler's books have in common at all times. The two maps in memory
are inverse to each other and equal to the BPF map, whatever calls fail. `Evolves` says what a
change of the mappings of some addresses may do; only the return of an identifier to the pool is
not such a change.
-/

import Constellation.Linux.Handler

namespace Constellation.Linux

open Lib List AList GoMap NodeIP IterationOrder IDCache
open Ipam (Addr)

namespace LinuxNodeHandler

/-- The maps in memory are inverse to each other and equal to the BPF map. -/
structure Synced (n : LinuxNodeHandler) : Prop where
  inverse : ∀ ip id, Index.Indexed n.nodeIPsByIDs id ip ↔ n.nodeIDsByIPs.lookup ip = some id
  stored : ∀ addr, n.nodeIDsByIPs.lookup (.valid addr) =
    (n.nodeMap.entries.lookup addr).map NodeValueV2.nodeID
  parses : ∀ text, n.nodeIDsByIPs.lookup (.invalid text) = none

/-- The pool has identifiers of 16 bits only, and none of them is leased. -/
structure PoolSound (n : LinuxNodeHandler) : Prop where
  bounded : ∀ id ∈ n.nodeIDs.ids, id.toUInt16.toUInt64 = id
  unleased : ∀ id, id ∉ n.nodeIDs.leased

def Assigned (n : LinuxNodeHandler) (id : UInt16) : Prop :=
  ∃ ip, n.nodeIDsByIPs.lookup ip = some id

structure Evolves (ips : NodeIP → Prop) (before after : LinuxNodeHandler) : Prop where
  isInitialized : after.isInitialized = before.isInitialized
  nodes : after.nodes = before.nodes
  synced : before.Synced → after.Synced
  leased : after.nodeIDs.leased = before.nodeIDs.leased
  elsewhere : ∀ ip, ¬ ips ip → after.nodeIDsByIPs.lookup ip = before.nodeIDsByIPs.lookup ip
  available : ∀ id ∈ after.nodeIDs.ids, id ∈ before.nodeIDs.ids
  assigned : before.PoolSound → ∀ id, after.Assigned id →
    before.Assigned id ∨ id.toUInt64 ∉ after.nodeIDs.ids

/-- No identifier that is assigned is in the pool. -/
def Reserved (n : LinuxNodeHandler) : Prop := ∀ id, n.Assigned id → id.toUInt64 ∉ n.nodeIDs.ids

/-- Every identifier except zero that is not assigned is in the pool. -/
def Complete (n : LinuxNodeHandler) : Prop :=
  ∀ id : UInt16, id ≠ 0 → ¬ n.Assigned id → id.toUInt64 ∈ n.nodeIDs.ids

namespace Evolves

variable {ips others : NodeIP → Prop} {before middle after : LinuxNodeHandler}

theorem refl (ips : NodeIP → Prop) (n : LinuxNodeHandler) : Evolves ips n n where
  isInitialized := rfl
  nodes := rfl
  synced := id
  leased := rfl
  elsewhere _ _ := rfl
  available _ := id
  assigned _ _ := .inl

theorem poolSound (evolves : Evolves ips before after) (sound : before.PoolSound) :
    after.PoolSound where
  bounded id member := sound.bounded id (evolves.available id member)
  unleased id := evolves.leased ▸ sound.unleased id

theorem trans (first : Evolves ips before middle) (second : Evolves ips middle after) :
    Evolves ips before after where
  isInitialized := second.isInitialized.trans first.isInitialized
  nodes := second.nodes.trans first.nodes
  synced := second.synced ∘ first.synced
  leased := second.leased.trans first.leased
  elsewhere ip outside := (second.elsewhere ip outside).trans (first.elsewhere ip outside)
  available id member := first.available id (second.available id member)
  assigned sound id assigned := by
    rcases second.assigned (first.poolSound sound) id assigned with between | taken
    · rcases first.assigned sound id between with initial | taken
      · exact .inl initial
      · exact .inr fun member => taken (second.available _ member)
    · exact .inr taken

theorem reserved (evolves : Evolves ips before after) (sound : before.PoolSound)
    (reserved : before.Reserved) : after.Reserved := by
  intro id assigned
  rcases evolves.assigned sound id assigned with initial | taken
  · exact fun member => reserved id initial (evolves.available _ member)
  · exact taken

theorem mono (evolves : Evolves ips before after) (within : ∀ ip, ips ip → others ip) :
    Evolves others before after :=
  { evolves with elsewhere := fun ip outside => evolves.elsewhere ip (mt (within ip) outside) }

end Evolves

/-! ### One address -/

variable (n : LinuxNodeHandler)

def afterFault : LinuxNodeHandler :=
  { n with nodeMap := ⟨n.nodeMap.entries, n.nodeMap.outcomes.tail⟩ }

def afterMap (addr : Addr) (id : UInt16) (spi : UInt8) : LinuxNodeHandler :=
  { n with
    nodeMap := ⟨n.nodeMap.entries.insert addr ⟨id, spi⟩, n.nodeMap.outcomes.tail⟩
    nodeIDsByIPs := n.nodeIDsByIPs.insert (.valid addr) id
    nodeIPsByIDs := setIPsByIDsMapping n.nodeIPsByIDs id (.valid addr) }

def afterUnmap (addr : Addr) (id : UInt16) : LinuxNodeHandler :=
  { n with
    nodeMap := ⟨n.nodeMap.entries.erase addr, n.nodeMap.outcomes.tail⟩
    nodeIDsByIPs := n.nodeIDsByIPs.erase (.valid addr)
    nodeIPsByIDs := Index.erase n.nodeIPsByIDs id (.valid addr) }

theorem mapNodeID_cases (ip : NodeIP) (id : UInt16) (spi : UInt8) :
    (∃ text err, ip = .invalid text ∧ n.mapNodeID ip id spi = (n, some err)) ∨
      ∃ addr, ip = .valid addr ∧ ((∃ fault err, n.nodeMap.fault = some fault ∧
            n.mapNodeID ip id spi = (n.afterFault, some err)) ∨
          n.nodeMap.fault = none ∧ n.mapNodeID ip id spi = (n.afterMap addr id spi, none)) := by
  cases ip with
  | invalid text => exact .inl ⟨text, _, rfl, rfl⟩
  | valid addr =>
    refine .inr ⟨addr, rfl, ?_⟩
    simp only [mapNodeID, parseAddr, NodeMap.update]
    cases outcome : n.nodeMap.fault with
    | some fault => exact .inl ⟨fault, _, rfl, rfl⟩
    | none => exact .inr ⟨rfl, rfl⟩

variable {n : LinuxNodeHandler} {addr : Addr} {id : UInt16}

theorem mem_entries_of_lookup (synced : n.Synced)
    (found : n.nodeIDsByIPs.lookup (.valid addr) = some id) :
    addr ∈ n.nodeMap.entries := by
  rw [synced.stored, Option.map_eq_some_iff] at found
  obtain ⟨value, present, _⟩ := found
  exact mem_of_lookup present

theorem unmapNodeID_cases (synced : n.Synced) (ip : NodeIP) :
    (n.nodeIDsByIPs.lookup ip = none ∧ (n.unmapNodeID ip).1 = n) ∨
      ∃ addr id, ip = .valid addr ∧ n.nodeIDsByIPs.lookup ip = some id ∧
        ((∃ fault, n.nodeMap.fault = some fault ∧ (n.unmapNodeID ip).1 = n.afterFault) ∨
          n.nodeMap.fault = none ∧ (n.unmapNodeID ip).1 = n.afterUnmap addr id) := by
  unfold unmapNodeID
  cases found : n.nodeIDsByIPs.lookup ip with
  | none => exact .inl ⟨rfl, rfl⟩
  | some id =>
    cases ip with
    | invalid text => cases (synced.parses text).symm.trans found
    | valid addr =>
      refine .inr ⟨addr, id, rfl, rfl, ?_⟩
      simp only [parseAddr, NodeMap.delete]
      cases outcome : n.nodeMap.fault with
      | some fault => exact .inl ⟨fault, rfl, rfl⟩
      | none =>
        rw [if_pos (mem_entries_of_lookup synced found)]
        exact .inr ⟨rfl, rfl⟩

theorem evolves_afterFault (ips : NodeIP → Prop) (n : LinuxNodeHandler) :
    Evolves ips n n.afterFault :=
  { Evolves.refl ips n with synced := fun synced => ⟨synced.inverse, synced.stored, synced.parses⟩ }

theorem synced_afterMap (synced : n.Synced)
    (fits : ∀ other, n.nodeIDsByIPs.lookup (.valid addr) = some other → other = id) (spi : UInt8) :
    (n.afterMap addr id spi).Synced where
  inverse := Index.inverse_insert synced.inverse fits ()
  stored other := by
    show (n.nodeIDsByIPs.insert (.valid addr) id).lookup (.valid other) =
      ((n.nodeMap.entries.insert addr ⟨id, spi⟩).lookup other).map NodeValueV2.nodeID
    rw [lookup_insert_if, lookup_insert_if, synced.stored]
    simp only [valid.injEq, apply_ite (Option.map NodeValueV2.nodeID)]
    rfl
  parses text := (lookup_insert_ne (by simp)).trans (synced.parses text)

theorem synced_afterUnmap (synced : n.Synced)
    (found : n.nodeIDsByIPs.lookup (.valid addr) = some id) : (n.afterUnmap addr id).Synced where
  inverse ip other := by
    show Index.Indexed (Index.erase n.nodeIPsByIDs id (.valid addr)) other ip ↔
      (n.nodeIDsByIPs.erase (.valid addr)).lookup ip = some other
    rw [Index.indexed_erase, synced.inverse, lookup_erase_if]
    by_cases same : ip = .valid addr
    · subst same
      rw [if_pos rfl, found, Option.some_inj]
      refine ⟨fun both => absurd ⟨both.2.symm, rfl⟩ both.1, nofun⟩
    · rw [if_neg same]
      exact ⟨fun both => both.2, fun before => ⟨fun both => same both.2, before⟩⟩
  stored other := by
    show (n.nodeIDsByIPs.erase (.valid addr)).lookup (.valid other) =
      ((n.nodeMap.entries.erase addr).lookup other).map NodeValueV2.nodeID
    rw [lookup_erase_if, lookup_erase_if, synced.stored]
    simp only [valid.injEq, apply_ite (Option.map NodeValueV2.nodeID)]
    rfl
  parses text := (lookup_erase_ne (by simp)).trans (synced.parses text)

/-- An address may be mapped to an identifier that is assigned already, or not in the pool, unless
it has another one. -/
theorem evolves_afterMap
    (fits : ∀ other, n.nodeIDsByIPs.lookup (.valid addr) = some other → other = id)
    (taken : n.Assigned id ∨ id.toUInt64 ∉ n.nodeIDs.ids) (spi : UInt8) :
    Evolves (· = .valid addr) n (n.afterMap addr id spi) where
  isInitialized := rfl
  nodes := rfl
  synced synced := synced_afterMap synced fits spi
  leased := rfl
  elsewhere _ differ := lookup_insert_ne differ
  available _ member := member
  assigned _ other assigned := by
    obtain ⟨ip, found⟩ := assigned
    rw [afterMap, lookup_insert_if] at found
    split at found
    · cases found
      exact taken
    · exact .inl ⟨ip, found⟩

theorem evolves_afterUnmap (found : n.nodeIDsByIPs.lookup (.valid addr) = some id) :
    Evolves (· = .valid addr) n (n.afterUnmap addr id) where
  isInitialized := rfl
  nodes := rfl
  synced synced := synced_afterUnmap synced found
  leased := rfl
  elsewhere _ differ := lookup_erase_ne differ
  available _ member := member
  assigned _ other assigned := by
    obtain ⟨ip, found⟩ := assigned
    rw [afterUnmap, lookup_erase_if] at found
    split at found
    · cases found
    · exact .inl ⟨ip, found⟩

/-! ### Several addresses -/

/-- It may drop mappings of the given addresses, and nothing else. -/
structure Drops (ips : NodeIP → Prop) (before after : LinuxNodeHandler) : Prop
    extends Evolves ips before after where
  pool : after.nodeIDs = before.nodeIDs
  lookups : ∀ ip, after.nodeIDsByIPs.lookup ip = none ∨
    after.nodeIDsByIPs.lookup ip = before.nodeIDsByIPs.lookup ip
  outcomes : after.nodeMap.outcomes.length ≤ before.nodeMap.outcomes.length

namespace Drops

variable {ips others : NodeIP → Prop} {before middle after : LinuxNodeHandler}

theorem refl (ips : NodeIP → Prop) (n : LinuxNodeHandler) : Drops ips n n :=
  { Evolves.refl ips n with
    pool := rfl
    lookups := fun _ => .inr rfl
    outcomes := le_rfl }

theorem trans (first : Drops ips before middle) (second : Drops ips middle after) :
    Drops ips before after :=
  { first.toEvolves.trans second.toEvolves with
    pool := second.pool.trans first.pool
    lookups := fun ip => (second.lookups ip).elim .inl fun same =>
      same ▸ first.lookups ip
    outcomes := second.outcomes.trans first.outcomes }

theorem mono (drops : Drops ips before after) (within : ∀ ip, ips ip → others ip) :
    Drops others before after :=
  { drops.toEvolves.mono within, drops with }

end Drops

theorem drops_unmapNodeID (synced : n.Synced) (ip : NodeIP) :
    Drops (· = ip) n (n.unmapNodeID ip).1 := by
  rcases unmapNodeID_cases synced ip with ⟨_, same⟩ | ⟨addr, id, rfl, found, effect⟩
  · rw [same]
    exact .refl _ n
  · rcases effect with ⟨fault, _, same⟩ | ⟨_, same⟩
    · rw [same]
      exact { evolves_afterFault _ n with
        pool := rfl
        lookups := fun _ => .inr rfl
        outcomes := (tail_sublist _).length_le }
    · rw [same]
      refine { evolves_afterUnmap found with
        pool := rfl
        lookups := fun ip => ?_
        outcomes := (tail_sublist _).length_le }
      rw [afterUnmap, lookup_erase_if]
      split
      · exact .inl rfl
      · exact .inr rfl

theorem drops_unmapNodeIDs (synced : n.Synced) (ips : List NodeIP) :
    Drops (· ∈ ips) n (n.unmapNodeIDs ips) := by
  induction ips generalizing n with
  | nil => exact .refl _ n
  | cons ip rest inductionHypothesis =>
    have first := drops_unmapNodeID synced ip
    refine (first.mono fun other same => ?_).trans
      ((inductionHypothesis (first.synced synced)).mono fun other =>
        mem_cons_of_mem ip)
    exact same ▸ (.head _)

variable {before after : LinuxNodeHandler} {ips : List NodeIP} {calls : Nat}

theorem Drops.lookup_of_some {ips : NodeIP → Prop} (drops : Drops ips before after) {ip : NodeIP}
    (found : after.nodeIDsByIPs.lookup ip = some id) : before.nodeIDsByIPs.lookup ip = some id :=
  (drops.lookups ip).elim (fun gone => nomatch gone.symm.trans found) fun same =>
    same.symm.trans found

def Succeeds (n : LinuxNodeHandler) (calls : Nat) : Prop :=
  ∀ outcome ∈ n.nodeMap.outcomes.take calls, outcome = none
  deriving Decidable

theorem Succeeds.fault (succeeds : n.Succeeds (calls + 1)) : n.nodeMap.fault = none := by
  unfold NodeMap.fault
  unfold Succeeds at succeeds
  cases outcomes : n.nodeMap.outcomes with
  | nil => rfl
  | cons outcome rest =>
    rw [outcomes] at succeeds
    obtain rfl := succeeds outcome (.head _)
    rfl

/-- Where the calls succeed, an address that is unmapped has no mapping afterwards, and the calls
after this one succeed. -/
theorem unmapNodeID_of_succeeds (synced : n.Synced) (ip : NodeIP)
    (succeeds : n.Succeeds (calls + 1)) :
    (n.unmapNodeID ip).1.nodeIDsByIPs.lookup ip = none ∧ (n.unmapNodeID ip).1.Succeeds calls := by
  have later (m : LinuxNodeHandler) (outcomes : m.nodeMap.outcomes = n.nodeMap.outcomes ∨
        m.nodeMap.outcomes = n.nodeMap.outcomes.tail) : m.Succeeds calls := by
    unfold Succeeds at succeeds ⊢
    rcases outcomes with same | same
    · rw [same]
      exact fun outcome member => succeeds outcome
        ((take_subset_take_left _ (Nat.le_succ calls)) member)
    · rw [same]
      generalize n.nodeMap.outcomes = outcomes at succeeds
      cases outcomes with
      | nil => exact fun outcome member => nomatch mem_of_mem_take member
      | cons first rest => exact forall_mem_of_forall_mem_cons succeeds
  rcases unmapNodeID_cases synced ip with ⟨unmapped, same⟩ | ⟨addr, id, rfl, found, effect⟩
  · rw [same]
    exact ⟨unmapped, later n (.inl rfl)⟩
  · rcases effect with ⟨fault, failed, _⟩ | ⟨_, same⟩
    · cases succeeds.fault.symm.trans failed
    · rw [same]
      exact ⟨lookup_erase _ _, later _ (.inr rfl)⟩

theorem unmapNodeIDs_of_succeeds (synced : n.Synced) (succeeds : n.Succeeds ips.length)
    {ip : NodeIP} (member : ip ∈ ips) : (n.unmapNodeIDs ips).nodeIDsByIPs.lookup ip = none := by
  induction ips generalizing n with
  | nil => cases member
  | cons first rest inductionHypothesis =>
    have drops := drops_unmapNodeID synced first
    obtain ⟨unmapped, later⟩ := unmapNodeID_of_succeeds synced first succeeds
    rcases mem_cons.mp member with same | inRest
    · subst same
      refine Option.eq_none_iff_forall_ne_some.mpr fun id found => ?_
      have later := drops_unmapNodeIDs (drops.synced synced) rest
      cases (later.lookup_of_some found).symm.trans unmapped
    · exact inductionHypothesis (drops.synced synced) later inRest

/-! ### Mapping the addresses of a node -/

/-- It may map some of the given addresses that have no mapping, and nothing else. -/
structure Adds (ips : NodeIP → Prop) (nodeID : UInt16) (before after : LinuxNodeHandler) : Prop
    extends Evolves ips before after where
  pool : after.nodeIDs = before.nodeIDs
  kept : ∀ ip id, before.nodeIDsByIPs.lookup ip = some id → after.nodeIDsByIPs.lookup ip = some id
  added : ∀ ip id, after.nodeIDsByIPs.lookup ip = some id →
    before.nodeIDsByIPs.lookup ip = some id ∨ id = nodeID
  outcomes : after.nodeMap.outcomes.length ≤ before.nodeMap.outcomes.length

namespace Adds

variable {ips others : NodeIP → Prop} {nodeID : UInt16} {middle : LinuxNodeHandler}

theorem refl (ips : NodeIP → Prop) (nodeID : UInt16) (n : LinuxNodeHandler) :
    Adds ips nodeID n n :=
  { Evolves.refl ips n with
    pool := rfl
    kept := fun _ _ found => found
    added := fun _ _ found => .inl found
    outcomes := le_rfl }

theorem trans (first : Adds ips nodeID before middle) (second : Adds ips nodeID middle after) :
    Adds ips nodeID before after :=
  { first.toEvolves.trans second.toEvolves with
    pool := second.pool.trans first.pool
    kept := fun ip id found => second.kept ip id (first.kept ip id found)
    added := fun ip id found => (second.added ip id found).elim (first.added ip id) .inr
    outcomes := second.outcomes.trans first.outcomes }

theorem mono (adds : Adds ips nodeID before after) (within : ∀ ip, ips ip → others ip) :
    Adds others nodeID before after :=
  { adds.toEvolves.mono within, adds with }

theorem taken (adds : Adds ips nodeID before after)
    (taken : before.Assigned nodeID ∨ nodeID.toUInt64 ∉ before.nodeIDs.ids) :
    after.Assigned nodeID ∨ nodeID.toUInt64 ∉ after.nodeIDs.ids := by
  rcases taken with ⟨ip, found⟩ | absent
  · exact .inl ⟨ip, adds.kept ip nodeID found⟩
  · exact .inr (adds.pool ▸ absent)

end Adds

section Mapping

variable {nodeID : UInt16} {spi : UInt8}

/-- Mapping an address gives no address another identifier. -/
theorem lookup_of_mapNodeID {ip other : NodeIP}
    (found : (n.mapNodeID ip nodeID spi).1.nodeIDsByIPs.lookup other = some id) :
    n.nodeIDsByIPs.lookup other = some id ∨ id = nodeID := by
  rcases n.mapNodeID_cases ip nodeID spi with
    ⟨_, _, _, same⟩ | ⟨addr, _, ⟨_, _, _, same⟩ | ⟨_, same⟩⟩ <;> rw [same] at found
  · exact .inl found
  · exact .inl found
  · rw [afterMap, lookup_insert_if] at found
    split at found
    · exact .inr (Option.some.inj found).symm
    · exact .inl found

theorem adds_mapNodeID {ip : NodeIP}
    (fits : ∀ other, n.nodeIDsByIPs.lookup ip = some other → other = nodeID)
    (taken : n.Assigned nodeID ∨ nodeID.toUInt64 ∉ n.nodeIDs.ids) :
    Adds (· = ip) nodeID n (n.mapNodeID ip nodeID spi).1 := by
  rcases n.mapNodeID_cases ip nodeID spi with ⟨text, err, _, same⟩ | ⟨addr, rfl, effect⟩
  · rw [same]
    exact .refl _ _ n
  · rcases effect with ⟨fault, err, _, same⟩ | ⟨_, same⟩
    · rw [same]
      exact { evolves_afterFault _ n with
        pool := rfl
        kept := fun _ _ found => found
        added := fun _ _ found => .inl found
        outcomes := (tail_sublist _).length_le }
    · rw [same]
      refine { evolves_afterMap fits taken spi with
        pool := rfl
        kept := fun ip id found => ?_
        added := fun ip id found => lookup_of_mapNodeID (same ▸ found)
        outcomes := (tail_sublist _).length_le }
      rw [afterMap, lookup_insert_if]
      split
      case isTrue same =>
        subst same
        rw [fits id found]
      · exact found

/-- One round of the loop over the addresses: it skips an address, stops at it, or maps it. -/
theorem mapIPs_cons (spiChanged : Bool) (ip : NodeIP) (rest : List NodeIP) (errs : List String) :
    (n.nodeIDsByIPs.lookup ip = some nodeID ∧ mapIPs nodeID spiChanged spi (ip :: rest) n errs =
        mapIPs nodeID spiChanged spi rest n errs) ∨
      (∃ other, n.nodeIDsByIPs.lookup ip = some other ∧ other ≠ nodeID ∧
        mapIPs nodeID spiChanged spi (ip :: rest) n errs = (n, none)) ∨
      (∀ other, n.nodeIDsByIPs.lookup ip = some other → other = nodeID) ∧
        ∃ later, mapIPs nodeID spiChanged spi (ip :: rest) n errs =
          mapIPs nodeID spiChanged spi rest (n.mapNodeID ip nodeID spi).1 later := by
  rw [mapIPs]
  split
  case isTrue skipped => exact .inl ⟨skipped.1, rfl⟩
  · split
    case isTrue stale =>
      obtain ⟨other, found⟩ := Option.ne_none_iff_exists'.mp stale.1
      exact .inr (.inl ⟨other, found, fun same => stale.2 (found.trans (congrArg some same)), rfl⟩)
    case isFalse fitting =>
      refine .inr (.inr ⟨fun other found => ?_, ?_⟩)
      · by_contra differ
        exact fitting ⟨by rw [found]; exact Option.some_ne_none other,
          fun same => differ (Option.some.inj (found.symm.trans same))⟩
      · rcases outcome : n.mapNodeID ip nodeID spi with ⟨later, _ | err⟩
        · exact ⟨errs, rfl⟩
        · exact ⟨_, rfl⟩

variable {spiChanged : Bool} {errs : List String}

theorem adds_mapIPs (taken : n.Assigned nodeID ∨ nodeID.toUInt64 ∉ n.nodeIDs.ids) :
    Adds (· ∈ ips) nodeID n (mapIPs nodeID spiChanged spi ips n errs).1 := by
  induction ips generalizing n errs with
  | nil => exact .refl _ _ n
  | cons ip rest inductionHypothesis =>
    rcases mapIPs_cons (n := n) spiChanged ip rest errs with
      ⟨_, same⟩ | ⟨_, _, _, same⟩ | ⟨fits, later, same⟩
    · rw [same]
      exact (inductionHypothesis taken).mono fun other => mem_cons_of_mem ip
    · rw [same]
      exact .refl _ _ n
    · rw [same]
      have first := @adds_mapNodeID n nodeID spi ip fits taken
      refine (first.mono fun other equal => ?_).trans
        ((inductionHypothesis (first.taken taken)).mono fun other => mem_cons_of_mem ip)
      exact equal ▸ (.head _)

/-- The loop stops only at an address that has another identifier. -/
theorem stale_of_mapIPs (stopped : (mapIPs nodeID spiChanged spi ips n errs).2 = none) :
    ∃ ip ∈ ips, ∃ id, (mapIPs nodeID spiChanged spi ips n errs).1.nodeIDsByIPs.lookup ip = some id ∧
      id ≠ nodeID := by
  induction ips generalizing n errs with
  | nil => cases stopped
  | cons ip rest inductionHypothesis =>
    rcases mapIPs_cons (n := n) spiChanged ip rest errs with
      ⟨_, same⟩ | ⟨other, found, differ, same⟩ | ⟨_, later, same⟩
    · rw [same] at stopped ⊢
      exact exists_mem_cons_of_exists (inductionHypothesis stopped)
    · rw [same]
      exact ⟨ip, .head _, other, found, differ⟩
    · rw [same] at stopped ⊢
      exact exists_mem_cons_of_exists (inductionHypothesis stopped)

def SucceedsOnce (n : LinuxNodeHandler) (calls : Nat) : Prop :=
  ∃ call < calls, n.nodeMap.outcomes[call]?.join = none

instance (n : LinuxNodeHandler) (calls : Nat) : Decidable (n.SucceedsOnce calls) := by
  delta SucceedsOnce
  infer_instance

theorem SucceedsOnce.afterFault (succeeds : n.SucceedsOnce (calls + 1)) {fault : String}
    (failed : n.nodeMap.fault = some fault) : n.afterFault.SucceedsOnce calls := by
  obtain ⟨call, below, success⟩ := succeeds
  cases call with
  | zero =>
    rw [← head?_eq_getElem?] at success
    cases success.symm.trans failed
  | succ call =>
    refine ⟨call, Nat.lt_of_succ_lt_succ below, ?_⟩
    rw [LinuxNodeHandler.afterFault, getElem?_tail]
    exact success

/-- Where one of the calls succeeds, some address is mapped to the identifier. -/
theorem assigned_of_mapIPs (taken : n.Assigned nodeID ∨ nodeID.toUInt64 ∉ n.nodeIDs.ids)
    (succeeds : n.SucceedsOnce (ips.filter isValid).length)
    (finished : (mapIPs nodeID spiChanged spi ips n errs).2 ≠ none) :
    ∃ ip ∈ ips,
      (mapIPs nodeID spiChanged spi ips n errs).1.nodeIDsByIPs.lookup ip = some nodeID := by
  induction ips generalizing n errs with
  | nil =>
    obtain ⟨call, below, _⟩ := succeeds
    cases below
  | cons ip rest inductionHypothesis =>
    rcases mapIPs_cons (n := n) spiChanged ip rest errs with
      ⟨found, same⟩ | ⟨_, _, _, same⟩ | ⟨fits, later, same⟩
    · rw [same]
      exact ⟨ip, .head _, (adds_mapIPs taken).kept ip nodeID found⟩
    · rw [same] at finished
      exact absurd rfl finished
    · rw [same] at finished ⊢
      have first := @adds_mapNodeID n nodeID spi ip fits taken
      have inRest := @inductionHypothesis (n.mapNodeID ip nodeID spi).1 later (first.taken taken)
      rcases n.mapNodeID_cases ip nodeID spi with ⟨text, err, rfl, unchanged⟩ | ⟨addr, rfl, effect⟩
      · rw [unchanged] at inRest
        exact exists_mem_cons_of_exists (unchanged ▸ inRest succeeds (unchanged ▸ finished))
      · rcases effect with ⟨fault, err, failed, unchanged⟩ | ⟨_, mapped⟩
        · refine exists_mem_cons_of_exists (inRest ?_ finished)
          rw [unchanged]
          exact succeeds.afterFault failed
        · refine ⟨.valid addr, .head _, (adds_mapIPs (first.taken taken)).kept _ _ ?_⟩
          rw [mapped, afterMap, lookup_insert]

end Mapping

/-! ### The identifier of a node -/

section Allocation

variable {order : IterationOrder} {loop : Nat} {node : Node}

theorem foldl_lookup_cases (map : GoMap NodeIP UInt16) (ips : List NodeIP) (initial : UInt16) :
    (ips.foldl (fun nodeID ip => (map.lookup ip).getD nodeID) initial = initial ∧
        ∀ ip ∈ ips, map.lookup ip = none) ∨
      ∃ ip ∈ ips, map.lookup ip =
        some (ips.foldl (fun nodeID ip => (map.lookup ip).getD nodeID) initial) := by
  induction ips generalizing initial with
  | nil => exact .inl ⟨rfl, nofun⟩
  | cons ip rest inductionHypothesis =>
    rw [foldl_cons]
    rcases inductionHypothesis ((map.lookup ip).getD initial) with
      ⟨same, unmapped⟩ | found
    · cases here : map.lookup ip with
      | none =>
        rw [here] at same
        exact .inl ⟨same, forall_mem_cons.mpr ⟨here, unmapped⟩⟩
      | some id =>
        rw [here] at same
        exact .inr ⟨ip, .head _, here.trans (congrArg some same.symm)⟩
    · exact .inr (exists_mem_cons_of_exists found)

section

variable (n : LinuxNodeHandler)

/-- The identifier of a node is that of one of its addresses, unless they have none. -/
theorem getNodeIDForNode_cases (node : Node) :
    (n.getNodeIDForNode node = 0 ∧ ∀ ip ∈ node.ipAddresses, n.nodeIDsByIPs.lookup ip = none) ∨
      ∃ ip ∈ node.ipAddresses, n.nodeIDsByIPs.lookup ip = some (n.getNodeIDForNode node) :=
  foldl_lookup_cases n.nodeIDsByIPs node.ipAddresses 0

theorem chooseID_cases (order : IterationOrder) (loop : Nat) (node : Node) :
    (n.getNodeIDForNode node = 0 ∧ n.chooseID order loop node =
        ({ n with nodeIDs := (n.nodeIDs.allocateID order loop).2 },
          (n.nodeIDs.allocateID order loop).1.toUInt16)) ∨
      n.getNodeIDForNode node ≠ 0 ∧ n.chooseID order loop node = (n, n.getNodeIDForNode node) := by
  unfold chooseID
  split
  case isTrue zero => exact .inl ⟨zero, rfl⟩
  case isFalse some => exact .inr ⟨some, rfl⟩

theorem chooseID_lookups (order : IterationOrder) (loop : Nat)
    (node : Node) : (n.chooseID order loop node).1.nodeIDsByIPs = n.nodeIDsByIPs ∧
      (n.chooseID order loop node).1.nodeMap = n.nodeMap := by
  rcases n.chooseID_cases order loop node with ⟨_, same⟩ | ⟨_, same⟩ <;> rw [same] <;>
    exact ⟨rfl, rfl⟩

end

theorem evolves_chooseID (ips : NodeIP → Prop) (n : LinuxNodeHandler) (order : IterationOrder)
    (loop : Nat) (node : Node) : Evolves ips n (n.chooseID order loop node).1 := by
  rcases n.chooseID_cases order loop node with ⟨_, same⟩ | ⟨_, same⟩
  · rw [same]
    rcases n.nodeIDs.allocateID_cases order loop with ⟨_, none⟩ | ⟨_, ids, leased⟩
    · rw [none]
      exact .refl ips n
    · exact { Evolves.refl ips n with
        synced := fun synced => ⟨synced.inverse, synced.stored, synced.parses⟩
        leased := leased
        available := fun id member => by
          rw [ids] at member
          exact (mem_erase.mp member).2
        assigned := fun _ _ assigned => .inl assigned }
  · rw [same]
    exact .refl ips n

/-- The identifier that is chosen may be mapped to. -/
theorem taken_chooseID (sound : n.PoolSound) (some : (n.chooseID order loop node).2 ≠ 0) :
    (n.chooseID order loop node).1.Assigned (n.chooseID order loop node).2 ∨
      (n.chooseID order loop node).2.toUInt64 ∉ (n.chooseID order loop node).1.nodeIDs.ids := by
  rcases n.chooseID_cases order loop node with ⟨_, same⟩ | ⟨known, same⟩
  · rw [same] at some ⊢
    have allocated : (n.nodeIDs.allocateID order loop).1 ≠ noID := by
      intro none
      rw [none] at some
      exact some rfl
    refine .inr ?_
    rcases n.nodeIDs.allocateID_cases order loop with ⟨_, none⟩ | ⟨member, _, _⟩
    · exact absurd (congrArg Prod.fst none) allocated
    · dsimp only
      rw [sound.bounded _ member]
      exact allocateID_not_mem allocated
  · rw [same]
    rcases n.getNodeIDForNode_cases node with ⟨zero, _⟩ | ⟨ip, _, found⟩
    · exact absurd zero known
    · exact .inl ⟨ip, found⟩

variable {oldNode : Option Node} {fuel : Nat}

variable {ip : NodeIP}

/-- Where one of the addresses is mapped, unmapping them uses up an outcome. -/
theorem outcomes_unmapNodeIDs_lt (synced : n.Synced) (member : ip ∈ ips)
    (found : n.nodeIDsByIPs.lookup ip = some id) (left : n.nodeMap.outcomes ≠ []) :
    (n.unmapNodeIDs ips).nodeMap.outcomes.length < n.nodeMap.outcomes.length := by
  induction ips generalizing n with
  | nil => cases member
  | cons first rest inductionHypothesis =>
    have drops := drops_unmapNodeID synced first
    have later := (drops_unmapNodeIDs (drops.synced synced) rest).outcomes
    have shorter : n.nodeMap.outcomes.tail.length < n.nodeMap.outcomes.length := by
      rw [length_tail]
      exact Nat.sub_lt (length_pos_iff.mpr left) Nat.one_pos
    rcases unmapNodeID_cases synced first with ⟨unmapped, same⟩ | ⟨addr, other, rfl, _, effect⟩
    · rcases mem_cons.mp member with equal | inRest
      · cases (equal ▸ found).symm.trans unmapped
      · show ((n.unmapNodeID first).1.unmapNodeIDs rest).nodeMap.outcomes.length < _
        rw [same]
        exact inductionHypothesis synced inRest found left
    · refine later.trans_lt ?_
      rcases effect with ⟨_, _, same⟩ | ⟨_, same⟩ <;> rw [same] <;> exact shorter

/-- The loop does not stop where no address has another identifier. -/
theorem mapIPs_isSome_of_fits {nodeID : UInt16} {spiChanged : Bool} {spi : UInt8}
    {errs : List String}
    (fits : ∀ ip ∈ ips, ∀ id, n.nodeIDsByIPs.lookup ip = some id → id = nodeID) :
    (mapIPs nodeID spiChanged spi ips n errs).2 ≠ none := by
  induction ips generalizing n errs with
  | nil => nofun
  | cons ip rest inductionHypothesis =>
    have inRest := forall_mem_of_forall_mem_cons fits
    rcases mapIPs_cons (n := n) spiChanged ip rest errs with
      ⟨_, same⟩ | ⟨other, found, differ, _⟩ | ⟨_, later, same⟩
    · rw [same]
      exact inductionHypothesis inRest
    · exact absurd (fits ip (.head _) other found) differ
    · rw [same]
      exact inductionHypothesis fun other member id found =>
        (lookup_of_mapNodeID found).elim (inRest other member id) fun same => same

section

variable (synced : n.Synced) (sound : n.PoolSound)
include synced sound

/-- An allocation ends, and changes the mappings of the addresses of the node only. One round is
enough for a node none of whose addresses has an identifier. -/
theorem exists_allocateIDForNodeLoop (enough : n.nodeMap.outcomes.length + 2 ≤ fuel ∨
      0 < fuel ∧ ∀ ip ∈ node.ipAddresses, n.nodeIDsByIPs.lookup ip = none) :
    ∃ result, allocateIDForNodeLoop order oldNode node fuel n = some result ∧
      Evolves (· ∈ node.ipAddresses) n result.1 := by
  induction fuel generalizing n with
  | zero => omega
  | succ fuel inductionHypothesis =>
    have chosen := evolves_chooseID (· ∈ node.ipAddresses) n order fuel node
    unfold allocateIDForNodeLoop
    split
    · exact ⟨_, rfl, chosen⟩
    case isFalse some =>
      have adds := @adds_mapIPs _ node.ipAddresses _ node.encryptionKey
        (oldNode.all fun old => old.encryptionKey != node.encryptionKey) []
        (taken_chooseID sound some)
      split
      case h_2 mapped errs finished =>
        rw [finished] at adds
        exact ⟨_, rfl, chosen.trans adds.toEvolves⟩
      case h_1 stale stopped =>
        obtain ⟨ip, member, id, found, _⟩ := stale_of_mapIPs (congrArg Prod.snd stopped)
        rw [stopped] at adds found
        dsimp only at adds found
        have mapped := chosen.trans adds.toEvolves
        have drops := drops_unmapNodeIDs (mapped.synced synced) node.ipAddresses
        have unmapped := mapped.trans drops.toEvolves
        have fewer : stale.nodeMap.outcomes.length ≤ n.nodeMap.outcomes.length :=
          (n.chooseID_lookups order fuel node).2 ▸ adds.outcomes
        obtain ⟨result, ended, evolves⟩ :=
          inductionHypothesis (unmapped.synced synced) (unmapped.poolSound sound) <| by
            rcases enough with enough | ⟨_, none⟩
            · by_cases exhausted : stale.nodeMap.outcomes = []
              · refine .inr ⟨by omega, fun ip member =>
                  unmapNodeIDs_of_succeeds (mapped.synced synced) ?_ member⟩
                unfold Succeeds
                rw [exhausted, take_nil]
                exact nofun
              · have used := outcomes_unmapNodeIDs_lt (mapped.synced synced) member found exhausted
                exact .inl (by omega)
            · refine absurd (congrArg Prod.snd stopped)
                (mapIPs_isSome_of_fits fun ip member id found => ?_)
              rw [(n.chooseID_lookups order fuel node).1, none ip member] at found
              cases found
        exact ⟨result, ended, unmapped.trans evolves⟩

theorem evolves_allocateIDForNode (order : IterationOrder) (oldNode : Option Node) (node : Node) :
    Evolves (· ∈ node.ipAddresses) n (n.allocateIDForNode order oldNode node).1 := by
  obtain ⟨result, ended, evolves⟩ := @exists_allocateIDForNodeLoop n order node oldNode
    (n.nodeMap.outcomes.length + 2) synced sound (.inl le_rfl)
  rw [allocateIDForNode, ended]
  exact evolves

end

/-- The addresses of a node that have an identifier have the same one, which is not zero. -/
def Uniform (n : LinuxNodeHandler) (node : Node) : Prop :=
  ∀ ip ∈ node.ipAddresses, n.nodeIDsByIPs.lookup ip = none ∨
    n.nodeIDsByIPs.lookup ip = some (n.getNodeIDForNode node) ∧ n.getNodeIDForNode node ≠ 0
  deriving Decidable

section

variable (uniform : n.Uniform node)
include uniform

theorem Uniform.eq_getNodeIDForNode (member : ip ∈ node.ipAddresses)
    (found : n.nodeIDsByIPs.lookup ip = some id) :
    n.getNodeIDForNode node ≠ 0 ∧ id = n.getNodeIDForNode node := by
  rcases uniform ip member with unmapped | ⟨mapped, some⟩
  · cases unmapped.symm.trans found
  · exact ⟨some, Option.some.inj (found.symm.trans mapped)⟩

/-- The addresses of a uniform node have the identifier that is chosen, or none. -/
theorem Uniform.fits (order : IterationOrder) (loop : Nat) (member : ip ∈ node.ipAddresses)
    (found : n.nodeIDsByIPs.lookup ip = some id) : id = (n.chooseID order loop node).2 := by
  obtain ⟨some, same⟩ := uniform.eq_getNodeIDForNode member found
  rcases n.chooseID_cases order loop node with ⟨zero, _⟩ | ⟨_, chosen⟩
  · exact absurd zero some
  · rw [chosen]
    exact same

theorem Uniform.finishes (order : IterationOrder) (loop : Nat) (oldNode : Option Node) :
    (mapIPs (n.chooseID order loop node).2
      (oldNode.all fun old => old.encryptionKey != node.encryptionKey) node.encryptionKey
      node.ipAddresses (n.chooseID order loop node).1 []).2 ≠ none :=
  mapIPs_isSome_of_fits fun _ member _ found =>
    uniform.fits order loop member ((n.chooseID_lookups order loop node).1 ▸ found)

/-- The allocation for a uniform node takes one round. -/
theorem allocateIDForNode_of_uniform (order : IterationOrder) (oldNode : Option Node) :
    ∃ loop, ((n.chooseID order loop node).2 = 0 ∧
        (n.allocateIDForNode order oldNode node).1 = (n.chooseID order loop node).1) ∨
      (n.chooseID order loop node).2 ≠ 0 ∧ ∃ spiChanged,
        (mapIPs (n.chooseID order loop node).2 spiChanged node.encryptionKey node.ipAddresses
          (n.chooseID order loop node).1 []).2 ≠ none ∧
        (n.allocateIDForNode order oldNode node).1 =
          (mapIPs (n.chooseID order loop node).2 spiChanged node.encryptionKey node.ipAddresses
            (n.chooseID order loop node).1 []).1 := by
  refine ⟨n.nodeMap.outcomes.length + 1, ?_⟩
  rw [allocateIDForNode, allocateIDForNodeLoop]
  split
  case isTrue zero => exact .inl ⟨zero, rfl⟩
  case isFalse some =>
    refine .inr ⟨some, oldNode.all fun old => old.encryptionKey != node.encryptionKey, ?_⟩
    have finished := uniform.finishes order (n.nodeMap.outcomes.length + 1) oldNode
    refine ⟨finished, ?_⟩
    split
    case h_1 stale stopped => exact absurd (congrArg Prod.snd stopped) finished
    case h_2 mapped errs ended =>
      rw [ended]
      rfl

end

/-- The allocation for a uniform node keeps all mappings. -/
theorem lookup_allocateIDForNode_of_uniform (sound : n.PoolSound) (uniform : n.Uniform node)
    (order : IterationOrder) (oldNode : Option Node) (found : n.nodeIDsByIPs.lookup ip = some id) :
    (n.allocateIDForNode order oldNode node).1.nodeIDsByIPs.lookup ip = some id := by
  obtain ⟨loop, outcome⟩ := allocateIDForNode_of_uniform uniform order oldNode
  have chosen : (n.chooseID order loop node).1.nodeIDsByIPs.lookup ip = some id :=
    (n.chooseID_lookups order loop node).1 ▸ found
  rcases outcome with ⟨_, same⟩ | ⟨some, spiChanged, _, same⟩
  · rw [same]
    exact chosen
  · rw [same]
    exact (adds_mapIPs (taken_chooseID sound some)).kept ip id chosen

/-- An address of the node has an identifier, or the pool is empty, or one of the calls that map
the addresses succeeds. -/
def Identifies (n : LinuxNodeHandler) (node : Node) : Prop :=
  (∃ ip ∈ node.ipAddresses, n.nodeIDsByIPs.lookup ip ≠ none) ∨ n.nodeIDs.ids.keys = [] ∨
    n.SucceedsOnce (node.ipAddresses.filter isValid).length
  deriving Decidable

/-- An identifier that the allocation takes out of the pool is assigned to an address of the
node. -/
theorem assigned_allocateIDForNode_of_uniform (sound : n.PoolSound) (uniform : n.Uniform node)
    (identifies : n.Identifies node) (order : IterationOrder) (oldNode : Option Node)
    (some : id ≠ 0) (available : id.toUInt64 ∈ n.nodeIDs.ids)
    (taken : id.toUInt64 ∉ (n.allocateIDForNode order oldNode node).1.nodeIDs.ids) :
    ∃ ip ∈ node.ipAddresses,
      (n.allocateIDForNode order oldNode node).1.nodeIDsByIPs.lookup ip = .some id := by
  obtain ⟨loop, outcome⟩ := allocateIDForNode_of_uniform uniform order oldNode
  have pool : (n.allocateIDForNode order oldNode node).1.nodeIDs =
      (n.chooseID order loop node).1.nodeIDs := by
    rcases outcome with ⟨_, same⟩ | ⟨chosen, spiChanged, _, same⟩
    · rw [same]
    · rw [same]
      exact (adds_mapIPs (taken_chooseID sound chosen)).pool
  rw [pool] at taken
  rcases n.chooseID_cases order loop node with ⟨zero, fresh⟩ | ⟨_, known⟩
  · rw [fresh] at taken
    have same : id = (n.chooseID order loop node).2 := by
      rw [fresh]
      rcases n.nodeIDs.allocateID_cases order loop with ⟨_, none⟩ | ⟨_, ids, _⟩
      · rw [none] at taken
        exact absurd available taken
      · dsimp only at taken ⊢
        rw [ids, mem_erase] at taken
        have equal : id.toUInt64 = (n.nodeIDs.allocateID order loop).1 := by
          by_contra differ
          exact taken ⟨differ, available⟩
        rw [← equal, UInt16.toUInt16_toUInt64]
    rcases outcome with ⟨none, _⟩ | ⟨chosen, spiChanged, finished, result⟩
    · exact absurd (same.trans none) some
    · rw [result, same]
      refine assigned_of_mapIPs (taken_chooseID sound chosen) ?_ finished
      rcases identifies with ⟨ip, member, mapped⟩ | empty | succeeds
      · obtain ⟨other, found⟩ := Option.ne_none_iff_exists'.mp mapped
        exact absurd zero (uniform.eq_getNodeIDForNode member found).1
      · rw [AList.mem_keys, empty] at available
        cases available
      · unfold SucceedsOnce
        rw [(n.chooseID_lookups order loop node).2]
        exact succeeds
  · rw [known] at taken
    exact absurd available taken

end Allocation

/-- An update of a node changes the mappings of its addresses, new and old, only. -/
theorem evolves_nodeUpdateLocked (synced : n.Synced) (sound : n.PoolSound) (order : IterationOrder)
    (oldNode : Option Node) (newNode : Node) :
    Evolves (fun ip => ip ∈ newNode.ipAddresses ∨
        ∃ old ∈ oldNode, ip ∈ droppedIPs old.ipAddresses newNode.ipAddresses)
      n (n.nodeUpdateLocked order oldNode newNode).1 := by
  have allocated := evolves_allocateIDForNode synced sound order oldNode newNode
  cases oldNode with
  | none => exact allocated.mono fun _ => .inl
  | some old =>
    have drops := drops_unmapNodeIDs (allocated.synced synced)
      (droppedIPs old.ipAddresses newNode.ipAddresses)
    exact (allocated.mono fun _ => .inl).trans
      (drops.toEvolves.mono fun _ dropped => .inr ⟨old, rfl, dropped⟩)

/-! ### Returning an identifier -/

section Return

variable (synced : n.Synced) (order : IterationOrder) (nodeID : UInt16)

include synced

variable {ip : NodeIP}

theorem mem_ipsOf :
    ip ∈ n.ipsOf order nodeID ↔ n.nodeIDsByIPs.lookup ip = some nodeID := by
  rw [ipsOf, mem_visit, ← synced.inverse, Index.indexed_iff, AList.mem_keys]

theorem drops_ipsOf : Drops (fun ip => n.nodeIDsByIPs.lookup ip = some nodeID) n
    (n.unmapNodeIDs (n.ipsOf order nodeID)) :=
  (drops_unmapNodeIDs synced _).mono fun _ => (mem_ipsOf synced order nodeID).mp

theorem synced_deallocateNodeIDLocked : (n.deallocateNodeIDLocked order nodeID).Synced :=
  have unmapped := (drops_ipsOf synced order nodeID).synced synced
  ⟨unmapped.inverse, unmapped.stored, unmapped.parses⟩

theorem mem_ids_deallocateNodeIDLocked (sound : n.PoolSound) {id : ID} :
    id ∈ (n.deallocateNodeIDLocked order nodeID).nodeIDs.ids ↔
      id ∈ n.nodeIDs.ids ∨ id = nodeID.toUInt64 := by
  show id ∈ (insert _ _).1.ids ↔ _
  rw [mem_ids_insert, (drops_ipsOf synced order nodeID).pool]
  exact or_congr_right (and_iff_left (sound.unleased _))

theorem poolSound_deallocateNodeIDLocked (sound : n.PoolSound) :
    (n.deallocateNodeIDLocked order nodeID).PoolSound where
  bounded id member := by
    rcases (mem_ids_deallocateNodeIDLocked synced order nodeID sound).mp member with before | same
    · exact sound.bounded id before
    · rw [same, UInt16.toUInt16_toUInt64]
  unleased id := by
    show id ∉ (insert _ _).1.leased
    rw [leased_insert, (drops_ipsOf synced order nodeID).pool]
    exact sound.unleased id

theorem lookup_deallocateNodeIDLocked_of_ne (other : n.nodeIDsByIPs.lookup ip ≠ some nodeID) :
    (n.deallocateNodeIDLocked order nodeID).nodeIDsByIPs.lookup ip = n.nodeIDsByIPs.lookup ip :=
  (drops_ipsOf synced order nodeID).elsewhere ip other

theorem lookup_of_deallocateNodeIDLocked
    (found : (n.deallocateNodeIDLocked order nodeID).nodeIDsByIPs.lookup ip = some id) :
    n.nodeIDsByIPs.lookup ip = some id :=
  (drops_ipsOf synced order nodeID).lookup_of_some found

/-- Where the calls succeed, no address is mapped to the identifier afterwards. -/
theorem not_assigned_deallocateNodeIDLocked (succeeds : n.Succeeds (n.ipsOf order nodeID).length) :
    ¬ (n.deallocateNodeIDLocked order nodeID).Assigned nodeID := by
  intro ⟨ip, found⟩
  have member := (mem_ipsOf synced order nodeID).mpr
    (lookup_of_deallocateNodeIDLocked synced order nodeID found)
  cases (unmapNodeIDs_of_succeeds synced succeeds member).symm.trans found

end Return

/-! ### Restoring the identifiers -/

structure Registers (entries : List ((_ : Addr) × NodeValueV2)) (before after : LinuxNodeHandler) :
    Prop where
  nodeMap : after.nodeMap = before.nodeMap
  inverse : (∀ ip id, Index.Indexed before.nodeIPsByIDs id ip ↔
    before.nodeIDsByIPs.lookup ip = some id) → ∀ ip id, Index.Indexed after.nodeIPsByIDs id ip ↔
      after.nodeIDsByIPs.lookup ip = some id
  lookups : ∀ ip id, after.nodeIDsByIPs.lookup ip = some id ↔
    before.nodeIDsByIPs.lookup ip = some id ∨
      ∃ entry ∈ entries, ip = .valid entry.1 ∧ id = entry.2.nodeID
  available : ∀ id, id ∈ after.nodeIDs.ids ↔
    id ∈ before.nodeIDs.ids ∧ ∀ entry ∈ entries, id ≠ entry.2.nodeID.toUInt64
  leased : ∀ id ∈ after.nodeIDs.leased, id ∈ before.nodeIDs.leased

theorem Registers.refl (n : LinuxNodeHandler) : Registers [] n n where
  nodeMap := rfl
  inverse inverse := inverse
  lookups ip id := by simp
  available id := by simp
  leased _ member := member

theorem registers_registerNodeID {entry : (_ : Addr) × NodeValueV2}
    (fresh : n.nodeIDsByIPs.lookup (.valid entry.1) = none) :
    Registers [entry] n (n.registerNodeID entry) where
  nodeMap := rfl
  inverse inverse := Index.inverse_insert inverse (by rw [fresh]; exact nofun) ()
  lookups ip id := by
    show AList.lookup ip (AList.insert _ _ _) = _ ↔ _
    rw [lookup_insert_if]
    simp only [mem_singleton, exists_eq_left]
    by_cases same : ip = .valid entry.1
    · subst same
      rw [if_pos rfl, fresh, Option.some_inj]
      exact ⟨fun equal => .inr ⟨rfl, equal.symm⟩,
        fun either => either.elim (nofun) fun both => both.2.symm⟩
    · rw [if_neg same]
      exact ⟨.inl, fun either => either.resolve_right fun both => same both.1⟩
  available id := by
    rw [registerNodeID, mem_ids_remove, forall_mem_singleton, and_comm]
  leased _ member := (mem_erase.mp member).2

theorem Registers.append {first second : List ((_ : Addr) × NodeValueV2)}
    {middle : LinuxNodeHandler} (here : Registers first before middle)
    (there : Registers second middle after) : Registers (first ++ second) before after where
  nodeMap := there.nodeMap.trans here.nodeMap
  inverse inverse := there.inverse (here.inverse inverse)
  lookups ip id := by
    rw [there.lookups, here.lookups, or_assoc]
    refine or_congr_right ?_
    simp only [mem_append, or_and_right, exists_or]
  available id := by
    rw [there.available, here.available, and_assoc, forall_mem_append]
  leased id member := here.leased id (there.leased id member)

theorem registers_foldl {entries : List ((_ : Addr) × NodeValueV2)} (distinct : entries.NodupKeys)
    (fresh : ∀ entry ∈ entries, n.nodeIDsByIPs.lookup (.valid entry.1) = none) :
    Registers entries n (entries.foldl registerNodeID n) := by
  induction entries generalizing n with
  | nil => exact .refl n
  | cons entry rest inductionHypothesis =>
    obtain ⟨apart, distinctRest⟩ := nodupKeys_cons.mp distinct
    have here := registers_registerNodeID (fresh entry (.head _))
    refine here.append (inductionHypothesis distinctRest fun other member => ?_)
    refine Option.eq_none_iff_forall_ne_some.mpr fun id found => ?_
    rcases (here.lookups _ id).mp found with before | ⟨same, listed, equal, _⟩
    · cases (fresh other (.tail entry member)).symm.trans before
    · obtain rfl := mem_singleton.mp listed
      refine apart ?_
      rw [← valid.inj equal]
      exact mem_keys_of_mem member

/-- After a restart the identifiers are those of the BPF map, except zero, and the pool has all
others. -/
structure Restored (n : LinuxNodeHandler) : Prop extends n.Synced, n.PoolSound where
  reserved : n.Reserved
  nonzero : (0 : ID) ∉ n.nodeIDs.ids
  complete : n.Complete

theorem mem_newIDPool (id : ID) :
    id ∈ (newIDPool minNodeID maxNodeID).ids ↔ id ≠ 0 ∧ id.toUInt16.toUInt64 = id := by
  rw [mem_ids_newIDPool, ← UInt64.toNat_inj, ne_eq, ← UInt64.toNat_inj, UInt16.toNat_toUInt64,
    UInt64.toNat_toUInt16]
  have lower : minNodeID.toNat = 1 := rfl
  have upper : (maxNodeID + 1).toNat = 65536 := rfl
  rw [lower, upper, UInt64.toNat_zero]
  omega

section Restore

variable (nodeMap : NodeMap) (order : IterationOrder)

def registered : LinuxNodeHandler :=
  (newNodeHandler nodeMap).registerNodeIDAllocations (order.visit 0 nodeMap.entries.entries)

theorem registers_registered : Registers (order.visit 0 nodeMap.entries.entries)
    (newNodeHandler nodeMap) (registered nodeMap order) :=
  @registers_foldl (newNodeHandler nodeMap) _
    ((perm_nodupKeys (order.visit_perm 0 _)).mpr nodeMap.entries.nodupKeys)
    fun _ _ => lookup_empty _

theorem lookup_registered {ip : NodeIP} :
    (registered nodeMap order).nodeIDsByIPs.lookup ip = some id ↔
      ∃ entry ∈ nodeMap.entries.entries, ip = .valid entry.1 ∧ id = entry.2.nodeID := by
  rw [(registers_registered nodeMap order).lookups]
  simp only [mem_visit]
  refine ⟨fun either => either.resolve_left fun found => ?_, .inr⟩
  cases found

theorem synced_registered : (registered nodeMap order).Synced where
  inverse := by
    refine (registers_registered nodeMap order).inverse fun ip id => ?_
    rw [newNodeHandler, lookup_empty]
    refine ⟨fun ⟨members, found, _⟩ => ?_, nofun⟩
    cases found
  stored addr := by
    refine Option.ext fun id => ?_
    rw [lookup_registered, (registers_registered nodeMap order).nodeMap, Option.map_eq_some_iff]
    constructor
    · intro ⟨entry, member, same, value⟩
      refine ⟨entry.2, mem_lookup_iff.mpr ?_, value.symm⟩
      rw [valid.inj same]
      exact member
    · intro ⟨value, found, same⟩
      exact ⟨⟨addr, value⟩, mem_lookup_iff.mp found, rfl, same.symm⟩
  parses text := by
    refine Option.eq_none_iff_forall_ne_some.mpr fun id found => ?_
    obtain ⟨_, _, same, _⟩ := (lookup_registered nodeMap order).mp found
    cases same

theorem mem_ids_registered {id : ID} : id ∈ (registered nodeMap order).nodeIDs.ids ↔
    (id ≠ 0 ∧ id.toUInt16.toUInt64 = id) ∧
      ∀ entry ∈ nodeMap.entries.entries, id ≠ entry.2.nodeID.toUInt64 := by
  rw [(registers_registered nodeMap order).available]
  simp only [mem_visit]
  exact and_congr_left' (mem_newIDPool id)

def zeroIPs : List NodeIP :=
  order.visit 1 ((nodeMap.entries.entries.filter fun entry => entry.2.nodeID = 0).map
    fun entry => .valid entry.1)

theorem restoreNodeIDs_eq : (newNodeHandler nodeMap).restoreNodeIDs order none =
    (registered nodeMap order).unmapNodeIDs (zeroIPs nodeMap order) :=
  rfl

/-- The handler is restored from whatever the BPF map holds. -/
theorem restored_restoreNodeIDs :
    ((newNodeHandler nodeMap).restoreNodeIDs order none).Restored := by
  have synced := synced_registered nodeMap order
  have drops := drops_unmapNodeIDs synced (zeroIPs nodeMap order)
  rw [restoreNodeIDs_eq]
  refine ⟨drops.synced synced, ⟨fun id member => ?_, fun id member => ?_⟩, ?_, ?_, ?_⟩
  · rw [drops.pool, mem_ids_registered] at member
    exact member.1.2
  · rw [drops.pool] at member
    exact notMem_empty id ((registers_registered nodeMap order).leased id member)
  · intro id ⟨ip, found⟩ member
    rw [drops.pool, mem_ids_registered] at member
    obtain ⟨entry, listed, _, equal⟩ :=
      (lookup_registered nodeMap order).mp (drops.lookup_of_some found)
    exact member.2 entry listed (congrArg UInt16.toUInt64 equal)
  · rw [drops.pool, mem_ids_registered]
    exact fun member => member.1.1 rfl
  · intro id some unassigned
    by_contra absent
    rw [drops.pool, mem_ids_registered] at absent
    have inPool : id.toUInt64 ≠ 0 ∧ id.toUInt64.toUInt16.toUInt64 = id.toUInt64 :=
      ⟨fun zero => some (UInt16.toUInt64_inj.mp zero), by rw [UInt16.toUInt16_toUInt64]⟩
    obtain ⟨entry, listed, equal⟩ : ∃ entry ∈ nodeMap.entries.entries,
        id.toUInt64 = entry.2.nodeID.toUInt64 := by
      by_contra missing
      push Not at missing
      exact absent ⟨inPool, missing⟩
    have found := (lookup_registered nodeMap order).mpr
      ⟨entry, listed, rfl, UInt16.toUInt64_inj.mp equal⟩
    refine unassigned ⟨.valid entry.1, (drops.elsewhere _ fun visited => ?_).trans found⟩
    rw [zeroIPs, mem_visit, mem_map] at visited
    obtain ⟨zero, filtered, same⟩ := visited
    obtain ⟨alsoListed, isZero⟩ := mem_filter.mp filtered
    have other := (lookup_registered nodeMap order).mpr ⟨zero, alsoListed, same.symm, rfl⟩
    refine some ?_
    rw [← Option.some.inj (other.symm.trans found)]
    exact of_decide_eq_true isZero

end Restore

end LinuxNodeHandler

end Constellation.Linux
