/-
This file models the agent's own lookup, `mapState.lookup`, which stands in for the datapath where
none is running, and settles when the two agree. The agent skips entries without a verdict, which
the datapath takes for entries like any other. At equal precedence it prefers the match with the
shorter prefix where the datapath prefers the longer one. And only the datapath falls back to the
unknown identity when neither match exists.
-/

import Constellation.Policy.Datapath

namespace Constellation.Policy

open Lib List MapState MapStateEntry

variable {hit : Key × StateEntry}

/-! ### Model -/

/-- The first valid match of an identity other than the aggregate, and the first valid match of the
aggregate. The loop ends once it has both. -/
def lookupScan (agg : NumericIdentity) :
    List (Key × StateEntry) → Option (Key × StateEntry) → Option (Key × StateEntry) →
      Option (Key × StateEntry) × Option (Key × StateEntry)
  | [], idFound, aggFound => (idFound, aggFound)
  | visited :: rest, idFound, aggFound =>
    let idFound :=
      if idFound.isNone && visited.1.identity != agg && visited.2.isValid then some visited
      else idFound
    let aggFound :=
      if aggFound.isNone && visited.1.identity == agg && visited.2.isValid then some visited
      else aggFound
    if idFound.isSome && aggFound.isSome then (idFound, aggFound)
    else lookupScan agg rest idFound aggFound

/-- The other entry has to be higher, and this one must have no type of its own. -/
def authOverride (entry other : StateEntry) : StateEntry :=
  if entry.authRequirement.isExplicit = false ∧
      other.authRequirement.authType > entry.authRequirement.authType ∧
      Precedence.allowPrecedence other.precedence ≥ Precedence.allowPrecedence entry.precedence then
    { entry with authRequirement := other.authRequirement.asDerived }
  else entry

/-- The key of the chosen entry, and the entry that is returned for it. -/
def lookupBetween (idFound aggFound : Option (Key × StateEntry)) : Option (Key × StateEntry) :=
  match idFound, aggFound with
  | none, none => none
  | some idFound, none => some idFound
  | none, some aggFound => some aggFound
  | some (idKey, idEntry), some (aggKey, aggEntry) =>
    if idEntry.precedence > aggEntry.precedence then some (idKey, idEntry)
    else if aggEntry.precedence > idEntry.precedence then some (aggKey, aggEntry)
    else if idEntry.isDeny then some (idKey, idEntry)
    else if idKey.lpmKey.prefixLength > aggKey.lpmKey.prefixLength then
      some (aggKey, authOverride aggEntry idEntry)
    else some (idKey, authOverride idEntry aggEntry)

def nilRuleOrigin : RuleOrigin := some ⟨["[]"], [""]⟩

namespace MapState

def lookupChoice (ms : MapState) (key : Key) : Option (Key × StateEntry) :=
  let found := lookupScan (aggregateFor ms.cluster key.identity) (ms.lpmAncestors key) none none
  lookupBetween found.1 found.2

/-- The entry that applies to a key, and whether there is one. -/
def lookup (ms : MapState) (key : Key) : StateEntry × Bool :=
  match ms.lookupChoice key with
  | some chosen => (chosen.2, true)
  | none => (⟨denyEntry, none, nilRuleOrigin⟩, false)

end MapState

/-- A key that names one protocol and one port. -/
def Key.FullySpecified (key : Key) : Prop :=
  key.lpmKey.nexthdr ≠ 0#8 ∧ key.lpmKey.portPrefixLen = 16
  deriving Decidable

def Key.packet (key : Key) : Packet :=
  ⟨key.lpmKey.trafficDirection, key.identity, key.lpmKey.nexthdr, key.lpmKey.destPort, false⟩

def lookupResult (returned : StateEntry × Bool) (key : Key) : PolicyResult :=
  if returned.2 then
    policyCheck (newEntryFromPolicyEntry (newKeyFromPolicyKey key) returned.1.toMapStateEntry) none
  else ⟨.dropPolicy, 0, 0, 0⟩

/-- The same entry is chosen, with the same verdict, proxy port and effective authentication
type. -/
def MapState.LookupAgrees (ms : MapState) (key : Key) : Prop :=
  (ms.lookupChoice key).map (fun chosen => newKeyFromPolicyKey chosen.1) =
      (policyChoice ms.cluster ms.policyMap key.packet).map (fun choice => choice.1.1) ∧
    lookupResult (ms.lookup key) key = policyCanAccess ms.cluster ms.policyMap key.packet

/-! ### The two matches of the agent's lookup -/

/-- The scan finds the first valid entry of either kind. -/
theorem lookupScan_eq (agg : NumericIdentity) (visited : List (Key × StateEntry))
    (idFound aggFound : Option (Key × StateEntry)) :
    lookupScan agg visited idFound aggFound =
      (idFound.or (visited.find? fun visit => visit.1.identity != agg && visit.2.isValid),
        aggFound.or (visited.find? fun visit => visit.1.identity == agg && visit.2.isValid)) := by
  induction visited generalizing idFound aggFound with
  | nil => simp [lookupScan]
  | cons visit rest inductionHypothesis =>
    rw [lookupScan]
    simp only [inductionHypothesis]
    cases idFound <;> cases aggFound <;>
      cases same : visit.1.identity == agg <;> cases valid : visit.2.isValid <;>
      simp [bne, same, valid]

/-- Along a list of descending prefix lengths, the first hit is one of the longest. -/
theorem find?_longest {visited : List (Key × StateEntry)}
    (sorted : visited.Pairwise fun first second =>
      second.1.lpmKey.prefixLength ≤ first.1.lpmKey.prefixLength)
    {wanted : Key × StateEntry → Bool} (found : visited.find? wanted = some hit) :
    ∀ other ∈ visited, wanted other = true →
      other.1.lpmKey.prefixLength ≤ hit.1.lpmKey.prefixLength := by
  obtain ⟨_, before, after, rfl, missed⟩ := find?_eq_some_iff_append.mp found
  intro other member isWanted
  rcases mem_append.mp member with early | late
  · have refused := missed other early
    rw [isWanted] at refused
    cases refused
  · rcases mem_cons.mp late with rfl | later
    · exact le_refl _
    · exact rel_of_pairwise_cons (pairwise_append.mp sorted).2.1 later

theorem lpmAncestors_sorted (ms : MapState) (key : Key) :
    (ms.lpmAncestors key).Pairwise fun first second =>
      second.1.lpmKey.prefixLength ≤ first.1.lpmKey.prefixLength := by
  have level : ∀ (node : LPMKey × IDSet) (visited : Key × StateEntry),
      visited ∈ ms.forID ⟨node.1, key.identity⟩ node.2 ++
        (if key.identity ≠ aggregateFor ms.cluster key.identity then
          ms.forID ⟨node.1, aggregateFor ms.cluster key.identity⟩ node.2 else []) →
      visited.1.lpmKey = node.1 := by
    intro node visited member
    rw [mem_append, mem_ite_nil_right, mem_forID, mem_forID] at member
    rcases member with ⟨listed, _⟩ | ⟨_, listed, _⟩
    · exact listed.1
    · exact listed.1
  refine pairwise_flatMap.mpr ⟨fun node _ => ?_, ?_⟩
  · refine pairwise_of_forall_mem_list fun first firstMember second secondMember => ?_
    rw [level node first firstMember, level node second secondMember]
  · refine (pairwise_insertionSort _ _).imp_of_mem fun {upper lower} _ _ longer => ?_
    intro first firstMember second secondMember
    rw [level upper first firstMember, level lower second secondMember]
    exact longer

theorem Key.packet_bits {key : Key} (full : key.FullySpecified) :
    key.lpmKey.path = key.packet.bits := by
  rw [LPMKey.path_eq_take, LPMKey.prefixLength, if_neg full.1, full.2]
  exact take_of_length_le (by simp)

/-! ### The two matches of the datapath -/

section Found

variable {ms : MapState} {key : Key} (full : key.FullySpecified) {accepts : StateEntry → Bool}
  (secLabel : NumericIdentity) {wanted : Key × StateEntry → Bool}
  (isWanted : ∀ visited ∈ ms.lpmAncestors key, wanted visited = true ↔
    visited.1.identity = secLabel ∧ accepts visited.2 = true)
  (searched : secLabel = key.identity ∨ secLabel = aggregateFor ms.cluster key.identity)

include full isWanted searched

/-- A search along the ancestors of a key finds what a lookup in the policy map finds. -/
theorem mapLookupElem_eq_find? :
    mapLookupElem (ms.policyMapOf accepts) secLabel key.packet =
      ((ms.lpmAncestors key).find? wanted).map fun hit =>
        policyMapElem hit.1 hit.2.toMapStateEntry := by
  have visited {other : Key} {entry : StateEntry} (present : ms.get other = some entry)
      (identity_eq : other.identity = secLabel) (isMatch : other.lpmKey.path <+: key.packet.bits) :
      (other, entry) ∈ ms.lpmAncestors key := by
    rw [← Key.packet_bits full] at isMatch
    exact mem_lpmAncestors.mpr ⟨present, isMatch, identity_eq ▸ searched⟩
  cases found : (ms.lpmAncestors key).find? wanted with
  | some hit =>
    have member := mem_of_find?_eq_some found
    obtain ⟨present, above, _⟩ := mem_lpmAncestors.mp member
    obtain ⟨identity_eq, accepted⟩ := (isWanted hit member).mp (find?_some found)
    refine mapLookupElem_of_isLongestMatch present ⟨⟨hit.2, present, accepted⟩, identity_eq, ?_, ?_⟩
    · rw [← Key.packet_bits full]
      exact above
    · rintro other ⟨entry, otherPresent, otherAccepted⟩ otherIdentity otherMatch
      have member := visited otherPresent otherIdentity otherMatch
      exact find?_longest (lpmAncestors_sorted ms key) found _ member
        ((isWanted _ member).mpr ⟨otherIdentity, otherAccepted⟩)
  | none =>
    refine mapLookupElem_eq_none_iff.mpr ?_
    rintro other ⟨entry, present, accepted⟩ identity_eq isMatch
    have member := visited present identity_eq isMatch
    exact find?_eq_none.mp found _ member ((isWanted _ member).mpr ⟨identity_eq, accepted⟩)

end Found

section Stored

variable {ms : MapState} {accepts others : StateEntry → Bool} {packet : Packet}
  {first second : NumericIdentity} {elem other : PolicyKey × PolicyEntry}

theorem secLabel_of_mapLookupElem
    (found : mapLookupElem (ms.policyMapOf accepts) first packet = some elem) :
    elem.1.secLabel = first := by
  obtain ⟨key, _, _, rfl, chosen⟩ := isLongestMatch_of_mapLookupElem found
  exact chosen.identity_eq

theorem eq_of_mapLookupElem
    (found : mapLookupElem (ms.policyMapOf accepts) first packet = some elem)
    (otherFound : mapLookupElem (ms.policyMapOf others) second packet = some other)
    (same : elem.1 = other.1) : elem = other := by
  obtain ⟨key, entry, present, rfl, _⟩ := isLongestMatch_of_mapLookupElem found
  obtain ⟨otherKey, otherEntry, otherPresent, rfl, _⟩ := isLongestMatch_of_mapLookupElem otherFound
  obtain rfl : key = otherKey := newKeyFromPolicyKey_injective same
  obtain rfl : entry = otherEntry := Option.some.inj (present.symm.trans otherPresent)
  rfl

theorem mapLookupElem_policyMapOf_eq_none
    (missing : mapLookupElem ms.policyMap first packet = none) :
    mapLookupElem (ms.policyMapOf accepts) first packet = none := by
  rw [policyMap, mapLookupElem_eq_none_iff] at missing
  refine mapLookupElem_eq_none_iff.mpr fun key ⟨entry, present, _⟩ => ?_
  exact missing key ⟨entry, present, rfl⟩

end Stored

/-! ### The two choices -/

/-- The match of the aggregate has the higher precedence, or the same precedence as an allow with a
longer prefix. -/
def AgentPrefers (policy agg : PolicyEntry) : Prop :=
  policy.precedence < agg.precedence ∨ policy.precedence = agg.precedence ∧
    policy.deny = false ∧ agg.lpmPrefixLength < policy.lpmPrefixLength
  deriving Decidable

/-- The match of the aggregate has the higher precedence, or the same one and a longer prefix. The
datapath does not look for it if the other match has the highest precedence. -/
def DatapathPrefers (policy agg : PolicyEntry) : Prop :=
  policy.precedence ≠ maxPrecedence ∧ (policy.precedence < agg.precedence ∨
    policy.precedence = agg.precedence ∧ policy.lpmPrefixLength < agg.lpmPrefixLength)
  deriving Decidable

def chooseWith (prefers : PolicyEntry → PolicyEntry → Prop) [DecidableRel prefers]
    (first second : Option (PolicyKey × PolicyEntry)) : Option PolicyChoice :=
  match first, second with
  | none, none => none
  | some policy, none => some (policy, none)
  | none, some agg => some (agg, none)
  | some policy, some agg =>
    if prefers policy.2 agg.2 then some (agg, some policy) else some (policy, some agg)

/-- What a choice means for a packet that is not a fragment. -/
def choiceResult (choice : Option PolicyChoice) : PolicyResult :=
  match choice with
  | some (policy, policy2) => policyCheck policy.2 (policy2.map Prod.snd)
  | none => ⟨.dropPolicy, 0, 0, 0⟩

/-- Two choices agree on the chosen key and on the result. -/
def ChoicesAgree (agent datapath : Option PolicyChoice) : Prop :=
  agent.map (·.1.1) = datapath.map (·.1.1) ∧ choiceResult agent = choiceResult datapath

/-- A second entry of another precedence does not change the result. -/
theorem policyCheck_of_precedence_ne {policy policy2 : PolicyEntry}
    (differ : policy2.precedence ≠ policy.precedence) :
    policyCheck policy (some policy2) = policyCheck policy none := by
  simp [policyCheck, differ]

theorem policyCheck_of_deny {policy policy2 : PolicyEntry} (deny : policy.deny = true) :
    policyCheck policy (some policy2) = policyCheck policy none := by
  simp [policyCheck, deny]

/-- At equal precedence the agent's override is the datapath's propagation. -/
theorem policyCheck_authOverride (key otherKey : PolicyKey) {entry other : StateEntry}
    (level : entry.precedence = other.precedence) :
    policyCheck (newEntryFromPolicyEntry key (authOverride entry other).toMapStateEntry) none =
      policyCheck (newEntryFromPolicyEntry key entry.toMapStateEntry)
        (some (newEntryFromPolicyEntry otherKey other.toMapStateEntry)) := by
  unfold authOverride
  by_cases propagated : entry.authRequirement.isExplicit = false ∧
      other.authRequirement.authType > entry.authRequirement.authType
  · rw [if_pos ⟨propagated.1, propagated.2, by rw [level]⟩]
    simp [policyCheck, newEntryFromPolicyEntry, level, propagated, AuthRequirement.asDerived,
      isDeny]
  · rw [if_neg fun all => propagated ⟨all.1, all.2.1⟩]
    simp [policyCheck, newEntryFromPolicyEntry, level, propagated]

/-- The agent's choice between two matches, and what is returned for it. -/
theorem lookupBetween_spec (idFound aggFound : Option (Key × StateEntry)) :
    let choice := chooseWith AgentPrefers
      (idFound.map fun hit => policyMapElem hit.1 hit.2.toMapStateEntry)
      (aggFound.map fun hit => policyMapElem hit.1 hit.2.toMapStateEntry)
    (lookupBetween idFound aggFound).map (fun chosen => newKeyFromPolicyKey chosen.1) =
        choice.map (·.1.1) ∧
      ((lookupBetween idFound aggFound).elim ⟨.dropPolicy, 0, 0, 0⟩ fun chosen =>
        policyCheck (policyMapElem chosen.1 chosen.2.toMapStateEntry).2 none) =
          choiceResult choice := by
  match idFound, aggFound with
  | none, none | some _, none | none, some _ => exact ⟨rfl, rfl⟩
  | some (idKey, idEntry), some (aggKey, aggEntry) =>
    have lengths : aggKey.lpmKey.prefixLength < idKey.lpmKey.prefixLength ↔
        (newKeyFromPolicyKey aggKey).prefixlen < (newKeyFromPolicyKey idKey).prefixlen := by
      rw [prefixLength_eq_prefixlen, prefixLength_eq_prefixlen]
      exact Nat.succ_lt_succ_iff
    have prefers : AgentPrefers (policyMapElem idKey idEntry.toMapStateEntry).2
        (policyMapElem aggKey aggEntry.toMapStateEntry).2 ↔
          idEntry.precedence < aggEntry.precedence ∨ idEntry.precedence = aggEntry.precedence ∧
            idEntry.isDeny = false ∧ aggKey.lpmKey.prefixLength < idKey.lpmKey.prefixLength := by
      rw [lengths]
      rfl
    dsimp only [lookupBetween, chooseWith, Option.map_some]
    simp only [prefers]
    rcases Nat.lt_trichotomy idEntry.precedence aggEntry.precedence with lower | level | higher
    · rw [if_neg (by omega), if_pos lower, if_pos (.inl lower)]
      exact ⟨rfl, (policyCheck_of_precedence_ne lower.ne).symm⟩
    · rw [if_neg (by omega), if_neg (by omega)]
      by_cases deny : idEntry.isDeny = true
      · rw [if_pos deny, if_neg (by simp [level, deny])]
        have denied : (policyMapElem idKey idEntry.toMapStateEntry).2.deny = true := deny
        exact ⟨rfl, (policyCheck_of_deny denied).symm⟩
      · rw [if_neg deny]
        split
        case isTrue longer =>
          rw [if_pos (.inr ⟨level, Bool.eq_false_iff.mpr deny, longer⟩)]
          exact ⟨rfl, policyCheck_authOverride _ _ level.symm⟩
        case isFalse shorter =>
          rw [if_neg (by omega)]
          exact ⟨rfl, policyCheck_authOverride _ _ level⟩
    · rw [if_pos higher, if_neg (by omega)]
      exact ⟨rfl, (policyCheck_of_precedence_ne higher.ne).symm⟩

section Between

variable {prefers : PolicyEntry → PolicyEntry → Prop} [DecidableRel prefers]
  {policy agg : PolicyKey × PolicyEntry} {other first second : Option (PolicyKey × PolicyEntry)}

theorem choicesAgree_second_iff (known : ∀ found ∈ second, found.1 = agg.1 → found = agg)
    (differ : ∀ found ∈ first, found.1 ≠ agg.1) :
    ChoicesAgree (chooseWith prefers first second) (some (agg, other)) ↔ second = some agg ∧
      (∀ found ∈ first, prefers found.2 agg.2) ∧
        policyCheck agg.2 (first.map Prod.snd) = policyCheck agg.2 (other.map Prod.snd) := by
  have chosen (preferred : ∀ found ∈ first, prefers found.2 agg.2) :
      chooseWith prefers first (some agg) = some (agg, first) := by
    cases first with
    | none => rfl
    | some found => exact if_pos (preferred found rfl)
  constructor
  · rintro ⟨keys, results⟩
    obtain ⟨rfl, preferred⟩ : second = some agg ∧ ∀ found ∈ first, prefers found.2 agg.2 := by
      match first, second with
      | none, none => cases keys
      | some found, none => exact absurd (Option.some.inj keys) (differ found rfl)
      | none, some found => exact ⟨congrArg some (known found rfl (Option.some.inj keys)), nofun⟩
      | some own, some found =>
        unfold chooseWith at keys
        dsimp only at keys
        split at keys
        case isTrue preferred =>
          obtain rfl := known found rfl (Option.some.inj keys)
          exact ⟨rfl, fun _ same => Option.some.inj same ▸ preferred⟩
        · exact absurd (Option.some.inj keys) (differ own rfl)
    rw [chosen preferred] at results
    exact ⟨rfl, preferred, results⟩
  · rintro ⟨rfl, preferred, results⟩
    rw [chosen preferred]
    exact ⟨rfl, results⟩

theorem choicesAgree_alone_iff (known : ∀ found ∈ second, found.1 = agg.1 → found = agg) :
    ChoicesAgree (chooseWith prefers none second) (some (agg, none)) ↔ second = some agg := by
  simp [choicesAgree_second_iff known]

theorem chooseWith_swap : chooseWith prefers first second =
    chooseWith (fun agg policy => ¬prefers policy agg) second first := by
  match first, second with
  | none, none | some _, none | none, some _ => rfl
  | some policy, some agg => exact (ite_not _ _ _).symm

theorem choicesAgree_first_iff (known : ∀ found ∈ first, found.1 = policy.1 → found = policy)
    (differ : ∀ found ∈ second, found.1 ≠ policy.1) :
    ChoicesAgree (chooseWith prefers first second) (some (policy, other)) ↔ first = some policy ∧
      (∀ found ∈ second, ¬prefers policy.2 found.2) ∧
        policyCheck policy.2 (second.map Prod.snd) = policyCheck policy.2 (other.map Prod.snd) := by
  rw [chooseWith_swap]
  exact choicesAgree_second_iff known differ

end Between

/-! ### When the agent's lookup and the datapath agree -/

namespace MapState

variable (ms : MapState) (key : Key)

def seen (nid : NumericIdentity) : Option (PolicyKey × PolicyEntry) :=
  mapLookupElem ms.policyMap nid key.packet

/-- The longest match of a key under an identity among the entries with a verdict. -/
def found (nid : NumericIdentity) : Option (PolicyKey × PolicyEntry) :=
  mapLookupElem (ms.policyMapOf (·.isValid)) nid key.packet

/-- A single match has a verdict. Without a match there is none under the unknown identity. Of two
matches the one that the datapath prefers has a verdict, the agent prefers it to the longest match
with a verdict under the other identity, and the result is the same with either of the two as the
entry not chosen. -/
def Settled : Prop :=
  let agg := aggregateFor ms.cluster key.identity
  match ms.seen key key.identity, if agg ≠ key.identity then ms.seen key agg else none with
  | none, none => ms.seen key 0 = none
  | some policy, none => ms.found key key.identity = some policy
  | none, some aggPolicy => ms.found key agg = some aggPolicy
  | some policy, some aggPolicy =>
    if DatapathPrefers policy.2 aggPolicy.2 then
      ms.found key agg = some aggPolicy ∧
        (∀ own ∈ ms.found key key.identity, AgentPrefers own.2 aggPolicy.2) ∧
        policyCheck aggPolicy.2 ((ms.found key key.identity).map Prod.snd) =
          policyCheck aggPolicy.2 (some policy.2)
    else
      ms.found key key.identity = some policy ∧
        (∀ other ∈ ms.found key agg, ¬AgentPrefers policy.2 other.2) ∧
        policyCheck policy.2 ((ms.found key agg).map Prod.snd) =
          policyCheck policy.2 (some aggPolicy.2)

instance : Decidable (ms.Settled key) := by
  unfold Settled
  dsimp only
  split <;> infer_instance

section Agreement

variable {ms : MapState} {key : Key} (full : key.FullySpecified)

include full

theorem found_agg : ms.found key (aggregateFor ms.cluster key.identity) =
    ((ms.lpmAncestors key).find? fun visit => visit.1.identity ==
      aggregateFor ms.cluster key.identity && visit.2.isValid).map fun hit =>
        policyMapElem hit.1 hit.2.toMapStateEntry :=
  mapLookupElem_eq_find? full _ (fun _ _ => by simp) (.inr rfl)

/-- The agent searches an identity of its own only if it is not an aggregate. -/
theorem found_id : (if aggregateFor ms.cluster key.identity ≠ key.identity then
      ms.found key key.identity else none) =
    ((ms.lpmAncestors key).find? fun visit => visit.1.identity !=
      aggregateFor ms.cluster key.identity && visit.2.isValid).map fun hit =>
        policyMapElem hit.1 hit.2.toMapStateEntry := by
  split
  case isTrue specific =>
    refine mapLookupElem_eq_find? full _ (fun visited member => ?_) (.inl rfl)
    have identities := (mem_lpmAncestors.mp member).2.2
    rw [Bool.and_eq_true, bne_iff_ne]
    refine and_congr_left fun _ => ⟨identities.resolve_right, fun same => ?_⟩
    rw [same]
    exact specific.symm
  case isFalse aggregate =>
    rw [find?_eq_none.mpr, Option.map_none]
    intro visited member
    have identities := (mem_lpmAncestors.mp member).2.2
    rw [not_not.mp aggregate, or_self] at identities
    simp [identities, not_not.mp aggregate]

theorem lookupAgrees_iff : ms.LookupAgrees key ↔ ChoicesAgree
    (chooseWith AgentPrefers (if aggregateFor ms.cluster key.identity ≠ key.identity then
      ms.found key key.identity else none) (ms.found key (aggregateFor ms.cluster key.identity)))
    (policyChoice ms.cluster ms.policyMap key.packet) := by
  have agent : lookupResult (ms.lookup key) key =
      (ms.lookupChoice key).elim ⟨.dropPolicy, 0, 0, 0⟩ fun chosen =>
        policyCheck (policyMapElem chosen.1 chosen.2.toMapStateEntry).2 none := by
    unfold lookupResult MapState.lookup
    cases ms.lookupChoice key <;> rfl
  have datapath : policyCanAccess ms.cluster ms.policyMap key.packet =
      choiceResult (policyChoice ms.cluster ms.policyMap key.packet) := by
    unfold policyCanAccess choiceResult
    cases policyChoice ms.cluster ms.policyMap key.packet <;> rfl
  obtain ⟨keys, results⟩ := lookupBetween_spec
    ((ms.lpmAncestors key).find? fun visit => visit.1.identity !=
      aggregateFor ms.cluster key.identity && visit.2.isValid)
    ((ms.lpmAncestors key).find? fun visit => visit.1.identity ==
      aggregateFor ms.cluster key.identity && visit.2.isValid)
  rw [LookupAgrees, agent, datapath]
  simp only [lookupChoice, lookupScan_eq, Option.none_or]
  rw [keys, results, ← found_id full, ← found_agg full]
  rfl

omit full

theorem policyChoice_of_seen {policy : PolicyKey × PolicyEntry}
    (own : ms.seen key key.identity = some policy) :
    policyChoice ms.cluster ms.policyMap key.packet =
      if policy.2.precedence = maxPrecedence then some (policy, none)
      else chooseBetween (some policy) (if aggregateFor ms.cluster key.identity ≠ key.identity then
        ms.seen key (aggregateFor ms.cluster key.identity) else none) := by
  have found : mapLookupElem ms.policyMap key.packet.identity key.packet = _ := own
  rw [policyChoice, found]
  dsimp only
  rw [aggregateLookup_some]
  rfl

theorem policyChoice_of_unseen (own : ms.seen key key.identity = none) :
    policyChoice ms.cluster ms.policyMap key.packet = chooseBetween none
      ((ms.seen key (aggregateFor ms.cluster key.identity)).or (ms.seen key 0)) := by
  have missing : mapLookupElem ms.policyMap key.packet.identity key.packet = _ := own
  rw [policyChoice, missing]
  dsimp only
  rw [aggregateLookup_none _ _ missing]
  rfl

theorem choicesAgree_none_iff (policy : Option (PolicyKey × PolicyEntry)) :
    ChoicesAgree none (chooseBetween none policy) ↔ policy = none := by
  cases policy with
  | none => exact iff_of_true ⟨rfl, rfl⟩ rfl
  | some policy =>
    refine iff_of_false (fun agree => ?_) (Option.some_ne_none policy)
    cases agree.1

variable {first second : NumericIdentity} {policy agg : PolicyKey × PolicyEntry}

theorem eq_of_found_of_seen (seen : ms.seen key first = some policy) :
    ∀ found ∈ ms.found key second, found.1 = policy.1 → found = policy :=
  fun _ found same => eq_of_mapLookupElem found seen same

theorem ne_of_found_of_seen (differ : second ≠ first) (seen : ms.seen key first = some policy) :
    ∀ found ∈ ms.found key second, found.1 ≠ policy.1 := by
  intro found isFound same
  rw [← secLabel_of_mapLookupElem isFound, ← secLabel_of_mapLookupElem seen, same] at differ
  exact differ rfl

theorem deny_of_seen (seen : ms.seen key first = some policy)
    (highest : policy.2.precedence = maxPrecedence) : policy.2.deny = true := by
  obtain ⟨_, entry, _, rfl, _⟩ := isLongestMatch_of_mapLookupElem seen
  have same : entry.precedence = maxPrecedence := highest
  show entry.isDeny = true
  rw [isDeny, same]
  rfl

theorem found_eq_none (missing : ms.seen key first = none) : ms.found key first = none :=
  mapLookupElem_policyMapOf_eq_none missing

section Both

variable (apart : aggregateFor ms.cluster key.identity ≠ key.identity)
  (own : ms.seen key key.identity = some policy)
  (other : ms.seen key (aggregateFor ms.cluster key.identity) = some agg)
include apart own other

theorem policyChoice_of_prefers (prefers : DatapathPrefers policy.2 agg.2) :
    policyChoice ms.cluster ms.policyMap key.packet = some (agg, some policy) := by
  rw [policyChoice_of_seen own, if_pos apart, other, if_neg prefers.1]
  exact if_pos (prefers.2.imp_right fun tie => ⟨tie.1.symm, tie.2⟩)

theorem policyChoice_of_not_prefers (refused : ¬DatapathPrefers policy.2 agg.2)
    (lower : policy.2.precedence ≠ maxPrecedence) :
    policyChoice ms.cluster ms.policyMap key.packet = some (policy, some agg) := by
  rw [policyChoice_of_seen own, if_pos apart, other, if_neg lower]
  refine if_neg fun wins => refused ⟨lower, wins.imp_right fun tie => ?_⟩
  exact ⟨tie.1.symm, tie.2⟩

end Both

include full

end Agreement

/-! ### A tie on which they differ -/

/-- Redirects of one precedence and different proxy ports: of TCP port 80 for an identity of the
local cluster, and of all TCP ports for the aggregate of the cluster. -/
def tiedRedirects : MapState :=
  let redirect : Nat → StateEntry := fun proxyPort =>
    .newMapStateEntry 0 0 lowestPriority none proxyPort 0 .allow noAuthRequirement
  ((newMapState ⟨false, false, true, false, false, false⟩ defaultClusterInfo).upsert
      (tcpKey 80#16 1000) (redirect 10001)).upsert (tcpKey 0#16 11) (redirect 10002)

def tcp80 (nid : NumericIdentity) : Key := tcpKey 80#16 nid

end MapState

end Constellation.Policy
