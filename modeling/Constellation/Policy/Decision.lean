/-
This file reads the datapath's decision off the table of precedences of a map state. If
precedences never decrease from a key to a narrower key of the same identity, the decision has the
highest precedence of all entries that the packet hits, under its identity or its aggregate, and
otherwise of the entries of the unknown identity.
-/

import Constellation.Lib.PrecedenceTable
import Constellation.Policy.Datapath

namespace Constellation.Policy

open Lib

/-! ### Queries -/

structure Query where
  identity : NumericIdentity
  bits : List Bool

def Packet.query (packet : Packet) : Query := ⟨packet.identity, packet.bits⟩

def Packet.fallbackQuery (packet : Packet) : Query := ⟨0, packet.bits⟩

namespace Key

/-- The key's bits are a prefix of the query's bits, and its identity is the query's identity or the
aggregate of that. -/
def Hits (cluster : ClusterInfo) (key : Key) (query : Query) : Prop :=
  key.lpmKey.path <+: query.bits ∧
    (key.identity = query.identity ∨ key.identity = aggregateFor cluster query.identity)
  deriving Decidable

/-- The same identity and a broader or equal port and protocol. -/
def Above (broader narrower : Key) : Prop :=
  broader.identity = narrower.identity ∧ broader.lpmKey.IsAncestor narrower.lpmKey

variable {broader narrower : Key}

theorem Above.covers (above : broader.Above narrower) (cluster : ClusterInfo) :
    broader.Covers cluster narrower :=
  ⟨above.2, .inl above.1⟩

variable {cluster : ClusterInfo}

theorem Covers.hits (covers : broader.Covers cluster narrower) {query : Query}
    (hit : narrower.Hits cluster query) : broader.Hits cluster query := by
  refine ⟨List.IsPrefix.trans covers.1 hit.1, ?_⟩
  rcases covers.2 with same | aggregate
  · rw [same]
    exact hit.2
  · refine .inr ?_
    rcases hit.2 with identity | identity
    · rw [aggregate, identity]
    · rw [aggregate, identity, aggregateFor_aggregateFor]

/-- A query for the unknown identity only hits keys of the unknown identity. -/
theorem hits_unknown_iff (key : Key) (bits : List Bool) :
    key.Hits cluster ⟨0, bits⟩ ↔ key.lpmKey.path <+: bits ∧ key.identity = 0 := by
  refine and_congr_right fun _ => ?_
  rw [show aggregateFor cluster 0 = 0 from rfl, or_self]

end Key

namespace MapState

/-! ### The table of precedences -/

def precedenceAt (ms : MapState) (key : Key) : Option Nat :=
  (ms.get key).map (·.precedence)

variable {ms : MapState} {key : Key} {precedence : Nat} {entry : StateEntry}
  {elem : PolicyKey × PolicyEntry} {packet : Packet}

theorem precedenceAt_eq_some_iff : ms.precedenceAt key = some precedence ↔
    ∃ entry, ms.get key = some entry ∧ entry.precedence = precedence :=
  Option.map_eq_some_iff

theorem precedenceAt_of_get (present : ms.get key = some entry) :
    ms.precedenceAt key = some entry.precedence :=
  precedenceAt_eq_some_iff.mpr ⟨entry, present, rfl⟩

theorem accepted_of_precedenceAt (present : ms.precedenceAt key = some precedence) :
    ms.Accepted (fun _ => true) key := by
  obtain ⟨entry, found, _⟩ := precedenceAt_eq_some_iff.mp present
  exact ⟨entry, found, rfl⟩

/-! ### The decision has the highest precedence -/

/-- A key with an entry that a query hits, of the highest precedence among all such keys. -/
structure IsHighestHit (ms : MapState) (query : Query) (key : Key) (entry : StateEntry) : Prop where
  present : ms.get key = some entry
  hit : key.Hits ms.cluster query
  highest : ∀ other precedence, ms.precedenceAt other = some precedence →
    other.Hits ms.cluster query → precedence ≤ entry.precedence

def NoHit (ms : MapState) (query : Query) : Prop :=
  ∀ key, ms.Accepted (fun _ => true) key → ¬ key.Hits ms.cluster query

structure IsBestUnder (ms : MapState) (secLabel : NumericIdentity) (packet : Packet) (key : Key)
    (entry : StateEntry) : Prop where
  present : ms.get key = some entry
  identity_eq : key.identity = secLabel
  isMatch : key.lpmKey.path <+: packet.bits
  highest : ∀ other precedence, ms.precedenceAt other = some precedence →
    other.identity = secLabel → other.lpmKey.path <+: packet.bits → precedence ≤ entry.precedence

section Highest

variable {secLabel : NumericIdentity}

/-- In a monotone table, what a lookup under one identity finds is the best match under it. -/
theorem isBestUnder_of_mapLookupElem
    (monotone : PrecedenceTable.IsMonotone Key.Above ms.precedenceAt)
    (found : mapLookupElem ms.policyMap secLabel packet = some elem) :
    ∃ key entry, elem = policyMapElem key entry.toMapStateEntry ∧
      ms.IsBestUnder secLabel packet key entry := by
  obtain ⟨key, entry, present, rfl, chosen⟩ := isLongestMatch_of_mapLookupElem found
  refine ⟨key, entry, rfl, present, chosen.identity_eq, chosen.isMatch, ?_⟩
  intro other precedence otherPresent otherIdentity otherMatch
  have above : other.Above key :=
    ⟨otherIdentity.trans chosen.identity_eq.symm,
      chosen.isAncestor (accepted_of_precedenceAt otherPresent) otherIdentity otherMatch⟩
  exact monotone other key above precedence entry.precedence otherPresent
    (precedenceAt_of_get present)

/-- The best match under one of a packet's two identities is the highest hit if no match under the
other is higher. -/
theorem IsBestUnder.isHighestHit (best : ms.IsBestUnder secLabel packet key entry)
    (searched : secLabel = packet.identity ∨ secLabel = aggregateFor ms.cluster packet.identity)
    (others : ∀ other precedence, ms.precedenceAt other = some precedence →
      other.identity = packet.identity ∨ other.identity = aggregateFor ms.cluster packet.identity →
      other.identity ≠ secLabel → other.lpmKey.path <+: packet.bits →
      precedence ≤ entry.precedence) : ms.IsHighestHit packet.query key entry where
  present := best.present
  hit := ⟨best.isMatch, best.identity_eq ▸ searched⟩
  highest other precedence otherPresent hit := by
    by_cases same : other.identity = secLabel
    · exact best.highest other precedence otherPresent same hit.1
    · exact others other precedence otherPresent hit.2 same hit.1

/-- The best match under the unknown identity is the highest hit of the fallback. -/
theorem IsBestUnder.isHighestHit_fallback (best : ms.IsBestUnder 0 packet key entry) :
    ms.IsHighestHit packet.fallbackQuery key entry where
  present := best.present
  hit := (Key.hits_unknown_iff key packet.bits).mpr ⟨best.isMatch, best.identity_eq⟩
  highest other precedence otherPresent hit := by
    obtain ⟨isMatch, unknown⟩ := (Key.hits_unknown_iff other packet.bits).mp hit
    exact best.highest other precedence otherPresent unknown isMatch

theorem noHit_query_iff :
    ms.NoHit packet.query ↔ mapLookupElem ms.policyMap packet.identity packet = none ∧
        mapLookupElem ms.policyMap (aggregateFor ms.cluster packet.identity) packet = none := by
  rw [policyMap, mapLookupElem_eq_none_iff, mapLookupElem_eq_none_iff]
  constructor
  · intro noHit
    exact ⟨fun key stored identity isMatch => noHit key stored ⟨isMatch, .inl identity⟩,
      fun key stored identity isMatch => noHit key stored ⟨isMatch, .inr identity⟩⟩
  · intro ⟨idUnmatched, aggUnmatched⟩ key stored hit
    exact hit.2.elim (fun identity => idUnmatched key stored identity hit.1)
      fun identity => aggUnmatched key stored identity hit.1

theorem noHit_fallbackQuery_iff :
    ms.NoHit packet.fallbackQuery ↔ mapLookupElem ms.policyMap 0 packet = none := by
  rw [policyMap, mapLookupElem_eq_none_iff]
  refine forall_congr' fun key => forall_congr' fun _ => ?_
  rw [Packet.fallbackQuery, Key.hits_unknown_iff]
  tauto

end Highest

/-- The highest hit of the packet, or, if it hits nothing, the highest hit under the unknown
identity. -/
def IsDecided (ms : MapState) (packet : Packet) (key : Key) (entry : StateEntry) : Prop :=
  ms.IsHighestHit packet.query key entry ∨
    ms.NoHit packet.query ∧ ms.IsHighestHit packet.fallbackQuery key entry

/-- What is chosen for a packet is decided, and nothing is chosen only if the packet hits nothing,
not even under the unknown identity. -/
def ChoosesDecided (ms : MapState) (packet : Packet) : Prop :=
  (policyChoice ms.cluster ms.policyMap packet = none ∧ ms.NoHit packet.query ∧
      ms.NoHit packet.fallbackQuery) ∨
    ∃ choice key entry, policyChoice ms.cluster ms.policyMap packet = some choice ∧
      choice.1 = policyMapElem key entry.toMapStateEntry ∧ ms.IsDecided packet key entry ∧
      ∀ elem ∈ choice.2, elem ∈ ms.policyMap

theorem mem_of_mapLookupElem {map : PolicyMap} {secLabel : NumericIdentity}
    (found : mapLookupElem map secLabel packet = some elem) : elem ∈ map :=
  (List.mem_filter.mp (List.argmax_eq_some_iff.mp found).1).1

section Choice

variable {policy : PolicyKey × PolicyEntry}

variable (monotone : PrecedenceTable.IsMonotone Key.Above ms.precedenceAt)
  (inRange : ∀ key precedence, ms.precedenceAt key = some precedence → precedence ≤ maxPrecedence)

include monotone inRange

/-- The choice when there is a match under the packet's identity is the packet's highest hit. -/
theorem choosesDecided_of_policy_found
    (found : mapLookupElem ms.policyMap packet.identity packet = some policy) :
    ms.ChoosesDecided packet := by
  obtain ⟨key, entry, rfl, best⟩ := isBestUnder_of_mapLookupElem monotone found
  unfold ChoosesDecided policyChoice
  rw [found]
  dsimp only
  by_cases highest : (policyMapElem key entry.toMapStateEntry).2.precedence = maxPrecedence
  · rw [if_pos highest]
    refine .inr ⟨_, key, entry, rfl, rfl, .inl (best.isHighestHit (.inl rfl) ?_), by simp⟩
    intro other precedence present _ _ _
    exact (inRange other precedence present).trans_eq highest.symm
  · rw [if_neg highest, aggregateLookup_some]
    split
    case isFalse same =>
      refine .inr ⟨_, key, entry, rfl, rfl, .inl (best.isHighestHit (.inl rfl) ?_), by simp⟩
      intro other precedence _ identity differ _
      rw [not_not.mp same, or_self] at identity
      exact absurd identity differ
    case isTrue specific =>
      cases aggFound : mapLookupElem ms.policyMap (aggregateFor ms.cluster packet.identity)
          packet with
      | none =>
        refine .inr ⟨_, key, entry, rfl, rfl, .inl (best.isHighestHit (.inl rfl) ?_), by simp⟩
        intro other precedence present identity differ isMatch
        exact absurd isMatch (mapLookupElem_eq_none_iff.mp aggFound other
          (accepted_of_precedenceAt present) (identity.resolve_left differ))
      | some agg =>
        obtain ⟨aggKey, aggEntry, rfl, aggBest⟩ := isBestUnder_of_mapLookupElem monotone aggFound
        have bothOf (precedence : Nat) (other : Key)
            (present : ms.precedenceAt other = some precedence)
            (identity : other.identity = packet.identity ∨
              other.identity = aggregateFor ms.cluster packet.identity)
            (isMatch : other.lpmKey.path <+: packet.bits) :
            precedence ≤ entry.precedence ∨ precedence ≤ aggEntry.precedence :=
          identity.imp (fun same => best.highest other precedence present same isMatch)
            fun same => aggBest.highest other precedence present same isMatch
        unfold chooseBetween
        dsimp only
        split
        case isTrue aggWins =>
          refine .inr ⟨_, aggKey, aggEntry, rfl, rfl, .inl (aggBest.isHighestHit (.inr rfl) ?_), ?_⟩
          · intro other precedence present identity differ isMatch
            have le : entry.precedence ≤ aggEntry.precedence :=
              aggWins.elim (fun higher => higher.le) fun tie => tie.1.ge
            exact (bothOf precedence other present identity isMatch).elim
              (fun lower => lower.trans le) id
          · intro elem member
            cases member
            exact mem_of_mapLookupElem found
        case isFalse idWins =>
          refine .inr ⟨_, key, entry, rfl, rfl, .inl (best.isHighestHit (.inl rfl) ?_), ?_⟩
          · intro other precedence present identity differ isMatch
            have le : aggEntry.precedence ≤ entry.precedence :=
              not_lt.mp fun higher => idWins (.inl higher)
            exact (bothOf precedence other present identity isMatch).elim id
              fun lower => lower.trans le
          · intro elem member
            cases member
            exact mem_of_mapLookupElem aggFound

omit inRange in
/-- The choice when there is no match under the packet's identity. -/
theorem choosesDecided_of_policy_missing
    (missing : mapLookupElem ms.policyMap packet.identity packet = none) :
    ms.ChoosesDecided packet := by
  unfold ChoosesDecided policyChoice
  rw [missing]
  rw [aggregateLookup_none ms.cluster ms.policyMap missing]
  cases aggFound : mapLookupElem ms.policyMap (aggregateFor ms.cluster packet.identity) packet with
  | some agg =>
    obtain ⟨aggKey, aggEntry, rfl, aggBest⟩ := isBestUnder_of_mapLookupElem monotone aggFound
    refine .inr ⟨_, aggKey, aggEntry, rfl, rfl, .inl (aggBest.isHighestHit (.inr rfl) ?_), by simp⟩
    intro other precedence present identity differ isMatch
    exact absurd isMatch (mapLookupElem_eq_none_iff.mp missing other
      (accepted_of_precedenceAt present) (identity.resolve_right differ))
  | none =>
    have noHit : ms.NoHit packet.query := noHit_query_iff.mpr ⟨missing, aggFound⟩
    cases fallback : mapLookupElem ms.policyMap 0 packet with
    | none => exact .inl ⟨rfl, noHit, noHit_fallbackQuery_iff.mpr fallback⟩
    | some elem =>
      obtain ⟨key, entry, rfl, best⟩ := isBestUnder_of_mapLookupElem monotone fallback
      exact .inr ⟨_, key, entry, rfl, rfl, .inr ⟨noHit, best.isHighestHit_fallback⟩, by simp⟩

/-- On a monotone table the decision is the highest hit of the packet, or of the fallback if there
is none, and it finds no match exactly if there is neither. -/
theorem policyChoice_spec : ms.ChoosesDecided packet := by
  cases found : mapLookupElem ms.policyMap packet.identity packet with
  | none => exact choosesDecided_of_policy_missing monotone found
  | some policy => exact choosesDecided_of_policy_found monotone inRange found

end Choice

/-- Where no entry requires authentication, the verdict is that of the chosen entry. -/
theorem policyCanAccess_code {choice : PolicyChoice}
    (noAuth : ∀ key entry, ms.get key = some entry → entry.authRequirement.authType = 0)
    (chosen : policyChoice ms.cluster ms.policyMap packet = some choice)
    (elem : choice.1 = policyMapElem key entry.toMapStateEntry)
    (present : ms.get key = some entry) (listed : ∀ elem ∈ choice.2, elem ∈ ms.policyMap) :
    (policyCanAccess ms.cluster ms.policyMap packet).code =
      if entry.isDeny then .dropPolicyDeny else .ctxActOk := by
  obtain ⟨policy, policy2⟩ := choice
  obtain rfl : policy = policyMapElem key entry.toMapStateEntry := elem
  unfold policyCanAccess
  rw [chosen]
  dsimp only
  have own : (policyMapElem key entry.toMapStateEntry).2.authType = 0 := noAuth key entry present
  have deny : (policyMapElem key entry.toMapStateEntry).2.deny = entry.isDeny := rfl
  unfold policyCheck
  rw [deny]
  split
  · rfl
  · cases policy2 with
    | none => simp [own]
    | some other =>
      obtain ⟨otherKey, otherEntry, otherPresent, _, rfl⟩ := mem_policyMapOf.mp (listed other rfl)
      have others : (policyMapElem otherKey otherEntry.toMapStateEntry).2.authType = 0 :=
        noAuth otherKey otherEntry otherPresent
      simp [own, others]

end MapState

end Constellation.Policy
