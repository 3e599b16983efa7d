/-
This file models how the entries of a map state are written to the policy map, and how the
datapath decides a packet on that map, a longest prefix match trie. The decision looks a packet up
under its identity and under the aggregate of its identity and weighs the two matches by
precedence and then by prefix length. When neither exists, it tries the unknown identity as well.
-/

import Constellation.Policy.MapState

namespace Constellation.Policy

open Lib List LPMKey

/-! ### Packets -/

/-- The port is the destination port, or the type of an ICMP message. -/
structure Packet where
  direction : TrafficDirection
  identity : NumericIdentity
  proto : BitVec 8
  dport : BitVec 16
  isUntrackedFragment : Bool
  deriving DecidableEq, Repr

/-- The protocol and the port, in the order of the longest prefix match. -/
def l4Bits (proto : BitVec 8) (dport : BitVec 16) : List Bool :=
  (List.range 24).map fun position =>
    if position < 8 then proto.getLsbD (7 - position) else dport.getLsbD (23 - position)

/-- The bits of a packet, in the order of `LPMKey.path`. -/
def Packet.bits (packet : Packet) : List Bool :=
  packet.direction.bit :: l4Bits packet.proto packet.dport

/-! ### The policy map -/

/-- The prefix length counts protocol and port bits; identity and direction are always part of the
prefix. -/
structure PolicyKey where
  prefixlen : Nat
  secLabel : NumericIdentity
  egress : TrafficDirection
  protocol : BitVec 8
  dport : BitVec 16
  deriving DecidableEq, Repr

structure PolicyEntry where
  proxyPort : Nat
  deny : Bool
  lpmPrefixLength : Nat
  authType : Nat
  hasExplicitAuthType : Bool
  precedence : Nat
  cookie : Nat
  deriving DecidableEq, Repr

def newKeyFromPolicyKey (key : Key) : PolicyKey where
  prefixlen :=
    if key.lpmKey.nexthdr ≠ 0#8 ∨ key.lpmKey.destPort ≠ 0#16 then
      8 + if key.lpmKey.destPort ≠ 0#16 then key.lpmKey.portPrefixLen else 0
    else 0
  secLabel := key.identity
  egress := key.lpmKey.trafficDirection
  protocol := key.lpmKey.nexthdr
  dport := key.lpmKey.destPort

def newEntryFromPolicyEntry (key : PolicyKey) (entry : MapStateEntry) : PolicyEntry where
  proxyPort := entry.proxyPort
  deny := entry.isDeny
  lpmPrefixLength := key.prefixlen
  authType := entry.authRequirement.authType
  hasExplicitAuthType := entry.authRequirement.isExplicit
  precedence := entry.precedence
  cookie := entry.cookie

abbrev PolicyMap := List (PolicyKey × PolicyEntry)

def policyMapElem (key : Key) (entry : MapStateEntry) : PolicyKey × PolicyEntry :=
  (newKeyFromPolicyKey key, newEntryFromPolicyEntry (newKeyFromPolicyKey key) entry)

def MapState.policyMapOf (ms : MapState) (accepts : StateEntry → Bool) : PolicyMap :=
  (ms.entries.entries.filter fun stored => accepts stored.2).map fun stored =>
    policyMapElem stored.1 stored.2.toMapStateEntry

/-- Every entry is written to it, also one without a verdict. -/
def MapState.policyMap (ms : MapState) : PolicyMap := ms.policyMapOf fun _ => true

def PolicyKey.matches (key : PolicyKey) (secLabel : NumericIdentity) (packet : Packet) : Bool :=
  decide (key.secLabel = secLabel) && decide (key.egress = packet.direction) &&
    decide ((l4Bits key.protocol key.dport).take key.prefixlen =
      (l4Bits packet.proto packet.dport).take key.prefixlen)

def mapLookupElem (map : PolicyMap) (secLabel : NumericIdentity) (packet : Packet) :
    Option (PolicyKey × PolicyEntry) :=
  (map.filter fun elem => elem.1.matches secLabel packet).argmax fun elem => elem.1.prefixlen

/-! ### The decision -/

/-- How the decision ends. -/
inductive DropReason
  | ctxActOk
  | dropPolicyDeny
  | dropPolicyAuthRequired
  | dropPolicy
  | dropFragNosupport
  deriving DecidableEq, Repr

/-- The authentication type is reported with `DROP_POLICY_AUTH_REQUIRED`. -/
structure PolicyResult where
  code : DropReason
  proxyPort : Nat
  extErr : Nat
  cookie : Nat
  deriving DecidableEq, Repr

/-- The authentication type of a second entry of the same precedence may be propagated. -/
def policyCheck (policy : PolicyEntry) (policy2 : Option PolicyEntry) : PolicyResult :=
  if policy.deny then ⟨.dropPolicyDeny, 0, 0, policy.cookie⟩
  else
    let authType :=
      match policy2 with
      | none => policy.authType
      | some policy2 =>
        if policy2.precedence = policy.precedence ∧ policy.hasExplicitAuthType = false ∧
            policy2.authType > policy.authType then policy2.authType
        else policy.authType
    if authType ≠ 0 then ⟨.dropPolicyAuthRequired, policy.proxyPort, authType, policy.cookie⟩
    else ⟨.ctxActOk, policy.proxyPort, 0, policy.cookie⟩

/-- The chosen element of the policy map and the one that was not chosen, if any. -/
abbrev PolicyChoice := (PolicyKey × PolicyEntry) × Option (PolicyKey × PolicyEntry)

/-- The unknown identity is tried if neither the packet's identity nor its aggregate has a match. -/
def aggregateLookup (cluster : ClusterInfo) (map : PolicyMap) (packet : Packet)
    (policy : Option (PolicyKey × PolicyEntry)) : Option (PolicyKey × PolicyEntry) :=
  let agg := aggregateForIdentity cluster packet.identity
  let aggPolicy := if agg ≠ packet.identity then mapLookupElem map agg packet else none
  if aggPolicy = none ∧ policy = none ∧ agg ≠ 0 then mapLookupElem map 0 packet else aggPolicy

/-- The choice between the match under the packet's identity and the other one. -/
def chooseBetween (policy aggPolicy : Option (PolicyKey × PolicyEntry)) : Option PolicyChoice :=
  match policy, aggPolicy with
  | none, none => none
  | none, some agg => some (agg, none)
  | some policy, none => some (policy, none)
  | some policy, some agg =>
    if agg.2.precedence > policy.2.precedence ∨ (agg.2.precedence = policy.2.precedence ∧
          agg.2.lpmPrefixLength > policy.2.lpmPrefixLength) then some (agg, some policy)
    else some (policy, some agg)

/-- The entries `__policy_can_access` ends up with. -/
def policyChoice (cluster : ClusterInfo) (map : PolicyMap) (packet : Packet) :
    Option PolicyChoice :=
  match mapLookupElem map packet.identity packet with
  | some policy =>
    if policy.2.precedence = maxPrecedence then some (policy, none)
    else chooseBetween (some policy) (aggregateLookup cluster map packet (some policy))
  | none => chooseBetween none (aggregateLookup cluster map packet none)

def policyCanAccess (cluster : ClusterInfo) (map : PolicyMap) (packet : Packet) : PolicyResult :=
  match policyChoice cluster map packet with
  | some (policy, policy2) => policyCheck policy.2 (policy2.map Prod.snd)
  | none =>
    if packet.isUntrackedFragment then ⟨.dropFragNosupport, 0, 0, 0⟩ else ⟨.dropPolicy, 0, 0, 0⟩

variable {secLabel : NumericIdentity} {candidates : Key → Prop} {packet : Packet}

theorem aggregateLookup_some (cluster : ClusterInfo) (map : PolicyMap)
    {policy : PolicyKey × PolicyEntry} :
    aggregateLookup cluster map packet (some policy) =
      if aggregateFor cluster packet.identity ≠ packet.identity then
        mapLookupElem map (aggregateFor cluster packet.identity) packet
      else none := by
  simp only [aggregateLookup, aggregateForIdentity_eq, reduceCtorEq, false_and, and_false, if_false]

/-- The match under the aggregate, or else of the fallback, when there is none under the packet's
identity. -/
theorem aggregateLookup_none (cluster : ClusterInfo) (map : PolicyMap)
    (missing : mapLookupElem map packet.identity packet = none) :
    aggregateLookup cluster map packet none =
      (mapLookupElem map (aggregateFor cluster packet.identity) packet).or
        (mapLookupElem map 0 packet) := by
  have aggregate : (if aggregateFor cluster packet.identity ≠ packet.identity then
      mapLookupElem map (aggregateFor cluster packet.identity) packet else none) =
      mapLookupElem map (aggregateFor cluster packet.identity) packet := by
    split
    · rfl
    case isFalse same =>
      rw [not_not.mp same, missing]
  simp only [aggregateLookup, aggregateForIdentity_eq, true_and]
  rw [aggregate]
  cases found : mapLookupElem map (aggregateFor cluster packet.identity) packet with
  | some elem => simp
  | none =>
    rw [Option.none_or]
    by_cases unknown : aggregateFor cluster packet.identity = 0
    · rw [if_neg (fun both => both.2 unknown), ← unknown, found]
    · rw [if_pos ⟨rfl, unknown⟩]

/-! ### Matching in the policy map is prefix matching of keys -/

@[simp]
theorem l4Bits_length (proto : BitVec 8) (dport : BitVec 16) :
    (l4Bits proto dport).length = 24 := by
  rw [l4Bits, length_map, length_range]

/-- The indexed bits of a key are its first bits in the datapath's order. -/
theorem LPMKey.path_eq_take (key : LPMKey) :
    key.path = (key.trafficDirection.bit :: l4Bits key.nexthdr key.destPort).take
      key.prefixLength := by
  have bound := key.prefixLength_le
  refine ext_getElem? fun position => ?_
  by_cases inside : position < key.prefixLength
  · rw [key.path_getElem? inside, getElem?_take_of_lt inside]
    cases position with
    | zero => rfl
    | succ position =>
      rw [getElem?_cons_succ, l4Bits, getElem?_map, getElem?_range (by omega),
        Option.map_some, bitValueAt, if_neg (Nat.succ_ne_zero position)]
      by_cases proto : position < 8
      · rw [if_pos (by omega), if_pos proto]
        congr 2
        omega
      · rw [if_neg (by omega), if_pos (by omega), if_neg proto]
        congr 2
        omega
  · rw [getElem?_eq_none (by rw [path_length]; omega),
      getElem?_eq_none (by rw [length_take]; omega)]

/-- The direction bit is the one indexed bit that does not count for the datapath. -/
theorem prefixLength_eq_prefixlen (key : Key) :
    key.lpmKey.prefixLength = (newKeyFromPolicyKey key).prefixlen + 1 := by
  unfold prefixLength newKeyFromPolicyKey
  by_cases proto : key.lpmKey.nexthdr = 0#8
  · simp [proto, key.lpmKey.destPort_of_nexthdr_zero proto]
  · by_cases port : key.lpmKey.destPort = 0#16
    · simp [proto, port, key.lpmKey.portPrefixLen_wildcardPort port]
    · simp only [proto, port, ne_eq, not_false_eq_true, or_self, if_true, if_false]
      omega

theorem newKeyFromPolicyKey_injective : Function.Injective newKeyFromPolicyKey := by
  intro first second same
  have lengths : first.lpmKey.prefixLength = second.lpmKey.prefixLength := by
    rw [prefixLength_eq_prefixlen, prefixLength_eq_prefixlen, same]
  have paths : first.lpmKey.path = second.lpmKey.path := by
    rw [path_eq_take, path_eq_take, lengths,
      show first.lpmKey.trafficDirection = second.lpmKey.trafficDirection from
        congrArg PolicyKey.egress same,
      show first.lpmKey.nexthdr = second.lpmKey.nexthdr from congrArg PolicyKey.protocol same,
      show first.lpmKey.destPort = second.lpmKey.destPort from congrArg PolicyKey.dport same]
  have keys : first.lpmKey = second.lpmKey := path_injective paths
  have identities : first.identity = second.identity := congrArg PolicyKey.secLabel same
  exact (Key.mk_eq_iff _ _ _).mpr ⟨keys, identities⟩

/-- A key matches a packet if its indexed bits are a prefix of the packet's. -/
theorem LPMKey.path_prefix_bits_iff (key : LPMKey) (packet : Packet) :
    key.path <+: packet.bits ↔ key.trafficDirection = packet.direction ∧
        (l4Bits key.nexthdr key.destPort).take (key.prefixLength - 1) =
          (l4Bits packet.proto packet.dport).take (key.prefixLength - 1) := by
  have split : key.prefixLength = key.prefixLength - 1 + 1 := by
    have positive := key.prefixLength_pos
    omega
  have bound := key.prefixLength_le
  have bits : key.path = key.trafficDirection.bit ::
      (l4Bits key.nexthdr key.destPort).take (key.prefixLength - 1) := by
    rw [path_eq_take, split, take_succ_cons, ← split]
  rw [bits, Packet.bits, cons_prefix_cons, TrafficDirection.bit_injective.eq_iff]
  refine and_congr_right fun _ => ?_
  rw [prefix_iff_eq_take, length_take, l4Bits_length, Nat.min_eq_left (by omega)]

theorem matches_newKeyFromPolicyKey (key : Key) (secLabel : NumericIdentity) (packet : Packet) :
    (newKeyFromPolicyKey key).matches secLabel packet = true ↔
      key.identity = secLabel ∧ key.lpmKey.path <+: packet.bits := by
  rw [path_prefix_bits_iff, prefixLength_eq_prefixlen, Nat.add_sub_cancel]
  simp only [PolicyKey.matches, Bool.and_eq_true, decide_eq_true_eq, and_assoc]
  rfl

/-! ### The longest match of a packet -/

structure IsLongestMatch (candidates : Key → Prop) (secLabel : NumericIdentity) (packet : Packet)
    (key : Key) : Prop where
  candidate : candidates key
  identity_eq : key.identity = secLabel
  isMatch : key.lpmKey.path <+: packet.bits
  longest : ∀ other, candidates other → other.identity = secLabel →
    other.lpmKey.path <+: packet.bits → other.lpmKey.prefixLength ≤ key.lpmKey.prefixLength

/-- Every other match of the packet under the identity is an ancestor of the longest. -/
theorem IsLongestMatch.isAncestor {key other : Key}
    (chosen : IsLongestMatch candidates secLabel packet key) (candidate : candidates other)
    (identity_eq : other.identity = secLabel) (isMatch : other.lpmKey.path <+: packet.bits) :
    other.lpmKey.IsAncestor key.lpmKey := by
  refine prefix_of_prefix_length_le isMatch chosen.isMatch ?_
  rw [path_length, path_length]
  exact chosen.longest other candidate identity_eq isMatch

theorem IsLongestMatch.unique {first second : Key}
    (left : IsLongestMatch candidates secLabel packet first)
    (right : IsLongestMatch candidates secLabel packet second) : first = second := by
  have keys : first.lpmKey = second.lpmKey :=
    LPMKey.IsAncestor.antisymm (right.isAncestor left.candidate left.identity_eq left.isMatch)
      (left.isAncestor right.candidate right.identity_eq right.isMatch)
  exact (Key.mk_eq_iff _ _ _).mpr ⟨keys, left.identity_eq.trans right.identity_eq.symm⟩

namespace MapState

def Accepted (ms : MapState) (accepts : StateEntry → Bool) (key : Key) : Prop :=
  ∃ entry, ms.get key = some entry ∧ accepts entry = true

variable {ms : MapState} {accepts : StateEntry → Bool} {elem : PolicyKey × PolicyEntry}

theorem mem_policyMapOf :
    elem ∈ ms.policyMapOf accepts ↔ ∃ key entry, ms.get key = some entry ∧
      accepts entry = true ∧ elem = policyMapElem key entry.toMapStateEntry := by
  simp only [policyMapOf, mem_map, mem_filter]
  constructor
  · rintro ⟨⟨key, entry⟩, ⟨member, accepted⟩, rfl⟩
    exact ⟨key, entry, AList.mem_lookup_iff.mpr member, accepted, rfl⟩
  · rintro ⟨key, entry, found, accepted, rfl⟩
    exact ⟨⟨key, entry⟩, ⟨AList.mem_lookup_iff.mp found, accepted⟩, rfl⟩

theorem mapLookupElem_eq_none_iff :
    mapLookupElem (ms.policyMapOf accepts) secLabel packet = none ↔ ∀ key,
      ms.Accepted accepts key → key.identity = secLabel → ¬ key.lpmKey.path <+: packet.bits := by
  rw [mapLookupElem, argmax_eq_none, filter_eq_nil_iff]
  constructor
  · rintro unmatched key ⟨entry, present, accepted⟩ identity_eq isMatch
    exact unmatched _ (mem_policyMapOf.mpr ⟨key, entry, present, accepted, rfl⟩)
      ((matches_newKeyFromPolicyKey key secLabel packet).mpr ⟨identity_eq, isMatch⟩)
  · rintro unmatched elem stored matched
    obtain ⟨key, entry, present, accepted, rfl⟩ := mem_policyMapOf.mp stored
    obtain ⟨identity_eq, isMatch⟩ := (matches_newKeyFromPolicyKey key secLabel packet).mp matched
    exact unmatched key ⟨entry, present, accepted⟩ identity_eq isMatch

/-- A lookup in the policy map that succeeds finds the longest match among the accepted entries. -/
theorem isLongestMatch_of_mapLookupElem
    (found : mapLookupElem (ms.policyMapOf accepts) secLabel packet = some elem) :
    ∃ key entry, ms.get key = some entry ∧ elem = policyMapElem key entry.toMapStateEntry ∧
      IsLongestMatch (ms.Accepted accepts) secLabel packet key := by
  obtain ⟨member, longest, _⟩ := argmax_eq_some_iff.mp found
  obtain ⟨stored, matched⟩ := mem_filter.mp member
  obtain ⟨key, entry, present, accepted, rfl⟩ := mem_policyMapOf.mp stored
  obtain ⟨identity_eq, isMatch⟩ := (matches_newKeyFromPolicyKey key secLabel packet).mp matched
  refine ⟨key, entry, present, rfl, ⟨entry, present, accepted⟩, identity_eq, isMatch, ?_⟩
  rintro other ⟨otherEntry, otherPresent, otherAccepted⟩ otherIdentity otherMatch
  have listed : policyMapElem other otherEntry.toMapStateEntry ∈
      (ms.policyMapOf accepts).filter fun elem => elem.1.matches secLabel packet :=
    mem_filter.mpr ⟨mem_policyMapOf.mpr ⟨other, otherEntry, otherPresent, otherAccepted, rfl⟩,
      (matches_newKeyFromPolicyKey other secLabel packet).mpr ⟨otherIdentity, otherMatch⟩⟩
  have shorter : (newKeyFromPolicyKey other).prefixlen ≤ (newKeyFromPolicyKey key).prefixlen :=
    longest _ listed
  rw [prefixLength_eq_prefixlen, prefixLength_eq_prefixlen]
  omega

/-- The lookup in the policy map finds the longest match whenever there is a match. -/
theorem mapLookupElem_of_isLongestMatch {key : Key} {entry : StateEntry}
    (present : ms.get key = some entry)
    (chosen : IsLongestMatch (ms.Accepted accepts) secLabel packet key) :
    mapLookupElem (ms.policyMapOf accepts) secLabel packet =
      some (policyMapElem key entry.toMapStateEntry) := by
  cases found : mapLookupElem (ms.policyMapOf accepts) secLabel packet with
  | none =>
    exact absurd chosen.isMatch
      (mapLookupElem_eq_none_iff.mp found key chosen.candidate chosen.identity_eq)
  | some elem =>
    obtain ⟨other, otherEntry, otherPresent, rfl, otherChosen⟩ :=
      isLongestMatch_of_mapLookupElem found
    obtain rfl := otherChosen.unique chosen
    obtain rfl : otherEntry = entry := Option.some.inj (otherPresent.symm.trans present)
    rfl

end MapState

end Constellation.Policy
