/-
This file shows what the insertion of plain entries amounts to: entries with an allow or deny
verdict, without passes and without authentication. A plain entry is either covered by an entry
that is at least as high, and nothing changes, or it is put into the table of precedences. The
decision of the datapath therefore has the highest precedence of the inserted entries.
-/

import Constellation.Policy.Decision
import Constellation.Policy.Insert

namespace Constellation.Policy

open Lib List Option MapStateEntry MapState Priority

variable {before after : MapState} {cluster : ClusterInfo} {visited : StateEntry} {key : Key}

/-! ### Plain entries -/

/-- The low byte of the precedence of an entry that is no redirect tells an allow or a deny. -/
structure StateEntry.IsPlain (entry : StateEntry) : Prop where
  valid : entry.isValid = true
  passes_eq : entry.passes = none
  authRequirement_eq : entry.authRequirement = noAuthRequirement
  notPass : entry.precedence % 256 ≠ 0
  allow_or_deny : entry.proxyPort = 0 → entry.precedence % 256 = 1 ∨ entry.precedence % 256 = 255
  inRange : entry.precedence ≤ maxPrecedence

namespace StateEntry

theorem IsPlain.passMetas_eq {entry : StateEntry} (plain : entry.IsPlain) :
    entry.passMetas = [] := by
  rw [passMetas, plain.passes_eq, getD_none]

theorem toBasePrecedence_le (priority : Nat) :
    toBasePrecedence priority ≤ maxPrecedence - 255 := by
  unfold toBasePrecedence maxPrecedence lowestPriority
  omega

theorem toBasePrecedence_mod (priority : Nat) : toBasePrecedence priority % 256 = 0 :=
  Nat.mul_mod_left _ _

/-- The entry of a rule with another verdict than pass and without authentication is plain. -/
theorem newMapStateEntry_isPlain (priority tierPriority nextTierPriority : Nat)
    (derivedFrom : RuleOrigin) (proxyPort listenerPriority : Nat) {verdict : Verdict}
    (notPass : verdict ≠ .pass) :
    (newMapStateEntry priority tierPriority nextTierPriority derivedFrom proxyPort
      listenerPriority verdict noAuthRequirement).IsPlain := by
  have bound := toBasePrecedence_le priority
  have level := toBasePrecedence_mod priority
  have positive : 255 ≤ maxPrecedence := by decide
  unfold newMapStateEntry
  cases verdict with
  | pass => exact absurd rfl notPass
  | deny => constructor <;> simp [MapStateEntry.newMapStateEntry, isValid,
      withListenerPriority] <;> omega
  | allow =>
    by_cases redirect : proxyPort = 0
    · constructor <;> simp [MapStateEntry.newMapStateEntry, isValid,
        withListenerPriority, redirect] <;> omega
    · constructor <;> simp [MapStateEntry.newMapStateEntry, isValid,
        withListenerPriority, redirect, Precedence.withListenerPriority,
        maxListenerPriority] <;> split <;> omega

end StateEntry

namespace Tracked

section Merge

variable {oldEntry entry : StateEntry}

variable (oldPlain : oldEntry.IsPlain) (plain : entry.IsPlain)
include oldPlain plain

/-- Merging plain entries of one level that agree on being a deny keeps the higher precedence. -/
theorem merge_isPlain (level : oldEntry.precedence / 256 = entry.precedence / 256)
    (agree : oldEntry.isDeny = entry.isDeny) (origin : RuleOrigin) :
    (StateEntry.mk (oldEntry.toMapStateEntry.merge entry.toMapStateEntry) none origin).IsPlain ∧
      (oldEntry.toMapStateEntry.merge entry.toMapStateEntry).precedence =
        max oldEntry.precedence entry.precedence := by
  have oldNotPass := oldPlain.notPass
  have notPass := plain.notPass
  have auth : mergeAuthRequirement oldEntry.authRequirement entry.authRequirement =
      noAuthRequirement := by
    rw [oldPlain.authRequirement_eq, plain.authRequirement_eq]
    rfl
  have oldIsPlain : (StateEntry.mk { oldEntry.toMapStateEntry with
      authRequirement := noAuthRequirement } none origin).IsPlain :=
    ⟨oldPlain.valid, rfl, rfl, oldPlain.notPass, oldPlain.allow_or_deny, oldPlain.inRange⟩
  unfold isDeny at agree
  unfold MapStateEntry.merge
  by_cases deny : Precedence.isDeny oldEntry.precedence = true
  · have otherDeny : Precedence.isDeny entry.precedence = true := agree ▸ deny
    have bothAllow : (oldEntry.isAllow && entry.isAllow) = false := by
      simp [isAllow, Precedence.isAllow, deny]
    rw [Precedence.isDeny_iff] at deny otherDeny
    rw [if_neg (by rw [bothAllow]; exact Bool.false_ne_true)]
    refine ⟨⟨oldPlain.valid, rfl, oldPlain.authRequirement_eq, oldPlain.notPass,
      oldPlain.allow_or_deny, oldPlain.inRange⟩, ?_⟩
    have same : oldEntry.precedence = entry.precedence := by omega
    rw [← same, max_self]
  · have allow : Precedence.isDeny oldEntry.precedence = false := Bool.eq_false_iff.mpr deny
    have bothAllow : (oldEntry.isAllow && entry.isAllow) = true := by
      simp [isAllow, Precedence.isAllow, Precedence.isPass, allow, ← agree, oldNotPass, notPass]
    rw [if_pos bothAllow]
    rw [auth]
    split
    case isTrue redirects =>
      simp only [isRedirectEntry, Bool.and_eq_true, bne_iff_ne, Bool.or_eq_true,
        decide_eq_true_eq, beq_iff_eq] at redirects
      refine ⟨⟨oldPlain.valid, rfl, rfl, plain.notPass, fun none => absurd none redirects.1,
        plain.inRange⟩, ?_⟩
      show entry.precedence = max oldEntry.precedence entry.precedence
      omega
    case isFalse keeps =>
      refine ⟨oldIsPlain, ?_⟩
      have lower : entry.precedence ≤ oldEntry.precedence := by
        by_contra higher
        simp only [isRedirectEntry, Bool.and_eq_true, bne_iff_ne, Bool.or_eq_true,
          decide_eq_true_eq, beq_iff_eq, not_and_or, not_not] at keeps
        rcases keeps with noRedirect | notHigher
        · rw [agree, ← Bool.not_eq_true, Precedence.isDeny_iff] at allow
          have := plain.allow_or_deny noRedirect
          omega
        · omega
      exact (max_eq_left lower).symm

/-- Adding a plain entry to a plain entry keeps the higher precedence. -/
theorem addedEntry_isPlain :
    (addedEntry (some oldEntry) entry).IsPlain ∧
      (addedEntry (some oldEntry) entry).precedence = max oldEntry.precedence entry.precedence := by
  unfold addedEntry
  dsimp only
  split
  case isTrue equal =>
    obtain rfl := (StateEntry.equal_iff entry oldEntry).mp equal
    exact ⟨plain, (max_self _).symm⟩
  · have merged : PassMetas.mergeClone oldEntry.passes entry.passes = (none, false) := by
      rw [oldPlain.passes_eq, plain.passes_eq]
      rfl
    have kept : ({ entry with passes := none } : StateEntry) = entry := by
      rw [← plain.passes_eq]
    unfold mergeEntries
    rw [merged]
    simp only [oldPlain.valid, plain.valid, Bool.not_true, Bool.false_eq_true, if_false, if_true,
      Bool.not_false]
    split
    case isTrue mayDiffer =>
      simp only [Precedence.proxyPortPrecedenceMayDiffer, Bool.and_eq_true, beq_iff_eq] at mayDiffer
      exact merge_isPlain oldPlain plain mayDiffer.1 mayDiffer.2 _
    · split
      case isTrue lower =>
        rw [getD_some, kept]
        exact ⟨plain, (max_eq_right lower.le).symm⟩
      case isFalse notLower =>
        exact ⟨oldPlain, (max_eq_left (not_lt.mp notLower)).symm⟩

end Merge

/-! ### The two outcomes of inserting a plain entry -/

def AllPlain (ms : MapState) : Prop :=
  ∀ key entry, ms.get key = some entry → entry.IsPlain

/-- An entry that is at least as high covers the key of a new entry. -/
def Outranks (ms : MapState) (key : Key) (entry : StateEntry) : Prop :=
  ∃ broader visited, ms.get broader = some visited ∧ broader.Covers ms.cluster key ∧
    entry.precedence ≤ visited.precedence

/-- Some entries that the new one covers and that are not higher are dropped. -/
structure Replaces (before after : MapState) (key : Key) (entry : StateEntry)
    (dropped : Key → StateEntry → Bool) : Prop where
  cluster_eq : after.cluster = before.cluster
  there : after.get key = some (addedEntry ((before.get key).filter fun visited =>
    !dropped key visited) entry)
  others : ∀ other, other ≠ key →
    after.get other = (before.get other).filter fun visited => !dropped other visited
  covered : ∀ other visited, dropped other visited = true →
    key.Covers before.cluster other ∧ visited.precedence ≤ entry.precedence
  above : ∀ other visited, other.Above key → before.get other = some visited →
    visited.precedence ≤ entry.precedence
  below : ∀ other visited, other ≠ key → key.Above other → before.get other = some visited →
    dropped other visited = false → entry.precedence ≤ visited.precedence

/-- A number at least as high as the new entry's is put under a key that covers the new key. This is
the new entry's own, or one that was there before. -/
structure PlainStep (before after : MapState) (key : Key) (entry : StateEntry) : Prop where
  cluster_eq : after.cluster = before.cluster
  allPlain : AllPlain after
  put : ∃ broader number, PrecedenceTable.Put (Key.Covers before.cluster) Key.Above
      before.precedenceAt after.precedenceAt broader number ∧
    broader.Covers before.cluster key ∧ entry.precedence ≤ number ∧
    (broader = key ∧ number = entry.precedence ∨ before.precedenceAt broader = some number)

namespace Replaces

variable {entry : StateEntry} {dropped : Key → StateEntry → Bool}
  (replaces : Replaces before after key entry dropped) (earlier : AllPlain before)
  (plain : entry.IsPlain)
include replaces earlier plain

theorem written :
    ∃ added, after.get key = some added ∧ added.IsPlain ∧ added.precedence = entry.precedence := by
  refine ⟨_, replaces.there, ?_⟩
  cases kept : (before.get key).filter fun visited => !dropped key visited with
  | none => exact ⟨plain, rfl⟩
  | some visited =>
    have present := (filter_eq_some_iff.mp kept).1
    obtain ⟨addedPlain, precedence⟩ := addedEntry_isPlain (earlier key visited present) plain
    refine ⟨addedPlain, precedence.trans (max_eq_right ?_)⟩
    exact replaces.above key visited ⟨rfl, LPMKey.IsAncestor.refl _⟩ present

theorem allPlain : AllPlain after := by
  intro other visited present
  by_cases same : other = key
  · subst same
    obtain ⟨added, found, addedPlain, _⟩ := replaces.written earlier plain
    rw [found] at present
    exact Option.some.inj present ▸ addedPlain
  · rw [replaces.others other same] at present
    exact earlier other visited (filter_eq_some_iff.mp present).1

theorem put :
    PrecedenceTable.Put (Key.Covers before.cluster) Key.Above before.precedenceAt
      after.precedenceAt key entry.precedence where
  written := by
    obtain ⟨added, found, addedPlain, precedence⟩ := replaces.written earlier plain
    rw [precedenceAt_of_get found, precedence]
  outranks previous present := by
    obtain ⟨visited, found, rfl⟩ := precedenceAt_eq_some_iff.mp present
    exact replaces.above key visited ⟨rfl, LPMKey.IsAncestor.refl _⟩ found
  others other differ := by
    unfold precedenceAt
    rw [replaces.others other differ]
    cases found : before.get other with
    | none => exact .inl rfl
    | some visited =>
      cases drop : dropped other visited with
      | false => simp [filter_some, drop]
      | true =>
        obtain ⟨covers, lower⟩ := replaces.covered other visited drop
        refine .inr ⟨by simp [filter_some, drop], covers, fun value present => ?_⟩
        exact Option.some.inj present ▸ lower
  above other differ above low present := by
    obtain ⟨visited, found, rfl⟩ := precedenceAt_eq_some_iff.mp present
    rw [replaces.others other differ] at found
    exact replaces.above other visited above (filter_eq_some_iff.mp found).1
  below other differ below high present := by
    obtain ⟨visited, found, rfl⟩ := precedenceAt_eq_some_iff.mp present
    rw [replaces.others other differ] at found
    obtain ⟨found, kept⟩ := filter_eq_some_iff.mp found
    exact replaces.below other visited differ below found (Bool.not_eq_true' _ ▸ kept)

theorem plainStep : PlainStep before after key entry where
  cluster_eq := replaces.cluster_eq
  allPlain := replaces.allPlain earlier plain
  put := ⟨key, entry.precedence, replaces.put earlier plain, Key.Covers.refl key, le_rfl,
    .inl ⟨rfl, rfl⟩⟩

end Replaces

/-- The outcome when the new entry is outranked: at most some entries go that the outranking entry
covers and that are not higher either. -/
theorem plainStep_of_outranks {key broader : Key} {entry visited : StateEntry}
    (dropped : Key → StateEntry → Bool) (allPlain : AllPlain before)
    (monotone : PrecedenceTable.IsMonotone Key.Above before.precedenceAt)
    (present : before.get broader = some visited) (covers : broader.Covers before.cluster key)
    (higher : entry.precedence ≤ visited.precedence) (cluster_eq : after.cluster = before.cluster)
    (get_eq : ∀ other, after.get other = (before.get other).filter fun found =>
      !dropped other found) (kept : dropped broader visited = false)
    (covered : ∀ other found, dropped other found = true →
      broader.Covers before.cluster other ∧ found.precedence ≤ visited.precedence) :
    PlainStep before after key entry := by
  have plain := allPlain broader visited present
  -- It is as if the outranking entry were added once more.
  have replaces : Replaces before after broader visited dropped := by
    refine ⟨cluster_eq, ?_, fun other _ => get_eq other, covered, ?_, ?_⟩
    · simp [get_eq, present, filter_some, kept, addedEntry, (StateEntry.equal_iff _ _).mpr]
    · intro other found above otherPresent
      exact monotone other broader above _ _ (precedenceAt_of_get otherPresent)
        (precedenceAt_of_get present)
    · intro other found _ below otherPresent _
      exact monotone broader other below _ _ (precedenceAt_of_get present)
        (precedenceAt_of_get otherPresent)
  exact ⟨cluster_eq, replaces.allPlain allPlain plain, broader, visited.precedence,
    replaces.put allPlain plain, covers, higher, .inr (precedenceAt_of_get present)⟩

theorem plainStep_self {ms : MapState} {entry : StateEntry} (allPlain : AllPlain ms)
    (monotone : PrecedenceTable.IsMonotone Key.Above ms.precedenceAt)
    (outranks : Outranks ms key entry) : PlainStep ms ms key entry := by
  obtain ⟨broader, visited, present, covers, higher⟩ := outranks
  refine plainStep_of_outranks (fun _ _ => false) allPlain monotone present covers higher rfl
    (fun other => ?_) rfl (nofun)
  cases ms.get other <;> rfl

/-! ### The branches of an insertion -/

section Branches

variable {state : Tracked} {newKey : Key} {newEntry : StateEntry}

/-- An equivalent entry of the aggregate outranks the new entry. -/
theorem outranks_of_aggregateIsEquivalent
    (equivalent : state.aggregateIsEquivalent newKey newEntry = true) :
    Outranks state.ms newKey newEntry := by
  unfold aggregateIsEquivalent at equivalent
  dsimp only at equivalent
  split at equivalent
  · cases equivalent
  · split at equivalent
    · cases equivalent
    case h_2 aggEntry found =>
      refine ⟨_, aggEntry, found, ⟨LPMKey.IsAncestor.refl _, .inr rfl⟩, ?_⟩
      rw [((StateEntry.equivalent_iff _ _).mp equivalent).1]

/-- A plain entry takes nothing over from plain entries, and is bailed out by a higher one. -/
theorem deriveFromCovering_plain (visits : List (Key × StateEntry))
    (allPlain : ∀ visit ∈ visits, visit.2.IsPlain) :
    deriveFromCovering newKey false visits newEntry false =
      if visits.any fun visit => decide (visit.2.precedence > newEntry.precedence) then none
      else some newEntry := by
  induction visits with
  | nil => rfl
  | cons visit rest inductionHypothesis =>
    have tail := inductionHypothesis (forall_mem_cons.mp allPlain).2
    have auth : visit.2.authRequirement.isExplicit = false := by
      rw [(allPlain visit (.head _)).authRequirement_eq]
      rfl
    unfold deriveFromCovering
    by_cases higher : visit.2.precedence > newEntry.precedence
    · simp [higher]
    · rw [any_cons, decide_eq_false higher, Bool.false_or, ← tail]
      simp [higher, auth]

/-- Among plain entries, the scan ends the insertion or notes a precedence to bail out by exactly if
a covering entry bails the new entry out. -/
theorem scanBroader_plain {aggregateID : NumericIdentity} {tierMaxPrecedence : Nat}
    (visits : List (Key × StateEntry)) (allPlain : ∀ visit ∈ visits, visit.2.IsPlain)
    (scan : PassScan) (running : scan.returned = false) :
    let result := scanBroader true aggregateID newKey newEntry tierMaxPrecedence visits scan
    result.returned = true ∨ 0 < result.bailPrecedence ↔ 0 < scan.bailPrecedence ∨
      ∃ visit ∈ visits, (newKey.identity != aggregateID || visit.1.identity == aggregateID) =
        true ∧ bailsOut newKey newEntry visit.1 visit.2 = true := by
  induction visits generalizing scan with
  | nil => simp [scanBroader, running]
  | cons visit rest inductionHypothesis =>
    have tail := inductionHypothesis (forall_mem_cons.mp allPlain).2
    have noPasses := (allPlain visit (.head _)).passMetas_eq
    have verdict (covering : Bool) (scan : PassScan) :
        scanVerdict true covering (newKey.withIdentity visit.1.identity) newKey newEntry
          tierMaxPrecedence visit.1 visit.2 scan =
        if bailsOut newKey newEntry visit.1 visit.2 then
          if covering then
            if visit.2.precedence ≤ tierMaxPrecedence then { scan with returned := true }
            else { scan with bailPrecedence := max scan.bailPrecedence visit.2.precedence }
          else if visit.2.precedence ≤ tierMaxPrecedence then
            { scan with
              doneKeys := scan.doneKeys.insert (newKey.withIdentity visit.1.identity) () }
          else scan
        else scan := rfl
    obtain ⟨passes, l34Keys, doneKeys, bailPrecedence, returned⟩ := scan
    obtain rfl : returned = false := running
    simp only [scanBroader, noPasses, scanPasses, Bool.false_eq_true, if_false, verdict,
      mem_cons, exists_eq_or_imp]
    cases bails : bailsOut newKey newEntry visit.1 visit.2 with
    | false =>
      simp only [Bool.false_eq_true, if_false, and_false, false_or]
      exact tail _ rfl
    | true =>
      cases covering : newKey.identity != aggregateID || visit.1.identity == aggregateID with
      | false =>
        simp only [Bool.false_eq_true, if_true, if_false, false_and, false_or]
        split
        · exact tail _ rfl
        · exact tail _ rfl
      | true =>
        simp only [if_true, and_self, true_or, or_true, iff_true]
        split
        · simp
        case isFalse exceeds =>
          refine (tail ⟨passes, l34Keys, doneKeys, max bailPrecedence visit.2.precedence, false⟩
            rfl).mpr (.inl ?_)
          show 0 < max bailPrecedence visit.2.precedence
          omega

theorem prunedEntry_plain (plain : visited.IsPlain) (cluster : ClusterInfo) (other : Key)
    (precedence : Nat) :
    prunedEntry cluster other visited newKey newEntry precedence =
      (some visited).filter fun visited =>
        !prunesVerdict cluster other visited newKey newEntry precedence := by
  have kept : ({ visited with passes := none } : StateEntry) = visited := by
    rw [← plain.passes_eq]
  unfold prunedEntry
  rw [plain.passMetas_eq, filter_some]
  cases prunesVerdict cluster other visited newKey newEntry precedence with
  | true => rfl
  | false =>
    simp only [all_nil, Bool.true_and, Bool.false_eq_true, if_false, if_true, Bool.not_false]
    rw [kept]

/-- A pruned plain entry is not higher than the new entry. -/
theorem le_of_prunesVerdict {other : Key} (valid : visited.isValid = true)
    (prunes : prunesVerdict cluster other visited newKey newEntry newEntry.precedence = true) :
    visited.precedence ≤ newEntry.precedence := by
  simp only [prunesVerdict, valid, Bool.not_true, Bool.false_or, Bool.or_eq_true,
    Bool.and_eq_true, decide_eq_true_eq, beq_iff_eq] at prunes
  rcases prunes with (lower | ⟨⟨_, same⟩, _⟩) | ⟨_, equivalent⟩
  · exact lower.le
  · exact same.le
  · rw [((StateEntry.equivalent_iff _ _).mp equivalent).1]

variable (order : IterationOrder) (allPlain : AllPlain state.ms) (plain : newEntry.IsPlain)
include allPlain plain

/-- Insertion where all entries have one precedence. -/
theorem plainStep_of_level
    (level : ∀ other visited, state.ms.get other = some visited →
      visited.precedence = newEntry.precedence) :
    PlainStep state.ms
      ((state.pruneAggregated order 1 newKey newEntry).addKeyWithChanges newKey newEntry).ms
      newKey newEntry := by
  refine (show Replaces _ _ _ _ (isDuplicate state.ms.cluster newKey newEntry) from ?_).plainStep
    allPlain plain
  constructor
  case cluster_eq =>
    rw [addKeyWithChanges_cluster, pruneAggregated_cluster]
  case there => rw [get_addKeyWithChanges, if_pos rfl, get_pruneAggregated]
  case others =>
    intro other differ
    rw [get_addKeyWithChanges, if_neg differ, get_pruneAggregated]
  case covered => exact fun _ _ => covers_of_isDuplicate
  case above =>
    intro other visited _ present
    exact (level other visited present).le
  case below =>
    intro other visited _ _ present _
    exact (level other visited present).ge

variable (monotone : PrecedenceTable.IsMonotone Key.Above state.ms.precedenceAt)
include monotone

/-- Insertion by precedence among all covering and covered keys. -/
theorem plainStep_of_precedence :
    PlainStep state.ms
      (if (state.ms.coveringBroaderOrEqualKeys newKey).any fun (visitedKey, visited) =>
          bailsOut newKey newEntry visitedKey visited then state
        else
          ((state.deleteVisited (state.ms.coveredNarrowerOrEqualKeys order 0 newKey)
            (outranked newKey newEntry)).pruneAggregated order 1 newKey
              newEntry).addKeyWithChanges newKey newEntry).ms
      newKey newEntry := by
  split
  case isTrue bails =>
    obtain ⟨visit, member, bails⟩ := any_eq_true.mp bails
    obtain ⟨present, covers⟩ := mem_coveringBroaderOrEqualKeys.mp member
    refine plainStep_self allPlain monotone ⟨visit.1, visit.2, present, covers, ?_⟩
    simp only [bailsOut, Bool.and_eq_true, Bool.or_eq_true, decide_eq_true_eq, beq_iff_eq] at bails
    omega
  case isFalse stays =>
    have listed (visit : Key × StateEntry) := @MapState.mem_coveredNarrowerOrEqualKeys state.ms
      order 0 newKey visit
    have deleted := state.get_deleteVisited (newKey.Covers state.ms.cluster ·) listed
      (outranked newKey newEntry)
    have cluster := state.deleteVisited_cluster (fun visit member => ((listed visit).mp member).1)
      (outranked newKey newEntry)
    have pruned (other : Key) :
        ((state.deleteVisited (state.ms.coveredNarrowerOrEqualKeys order 0 newKey)
          (outranked newKey newEntry)).pruneAggregated order 1 newKey newEntry).ms.get other =
          (state.ms.get other).filter fun visited =>
            !(decide (newKey.Covers state.ms.cluster other) &&
              outranked newKey newEntry other visited ||
                isDuplicate state.ms.cluster newKey newEntry other visited) := by
      rw [get_pruneAggregated, deleted, Option.filter_filter, cluster]
      simp only [Bool.not_or]
    refine (show Replaces _ _ _ _ fun other visited =>
      decide (newKey.Covers state.ms.cluster other) && outranked newKey newEntry other visited ||
        isDuplicate state.ms.cluster newKey newEntry other visited from ?_).plainStep allPlain plain
    constructor
    case cluster_eq => rw [addKeyWithChanges_cluster, pruneAggregated_cluster, cluster]
    case there => rw [get_addKeyWithChanges, if_pos rfl, pruned]
    case others =>
      intro other differ
      rw [get_addKeyWithChanges, if_neg differ, pruned]
    case covered =>
      intro other visited drop
      simp only [Bool.or_eq_true, Bool.and_eq_true, decide_eq_true_eq] at drop
      rcases drop with ⟨covers, lower⟩ | duplicate
      · refine ⟨covers, ?_⟩
        simp only [outranked, Bool.or_eq_true, Bool.and_eq_true, decide_eq_true_eq,
          beq_iff_eq] at lower
        omega
      · exact covers_of_isDuplicate duplicate
    case above =>
      intro other visited above present
      by_contra higher
      refine stays (any_eq_true.mpr ⟨(other, visited),
        mem_coveringBroaderOrEqualKeys.mpr ⟨present, above.covers _⟩, ?_⟩)
      simp [bailsOut, (allPlain other visited present).valid, not_le.mp higher]
    case below =>
      intro other visited differ below present kept
      simp only [Bool.or_eq_false_iff, decide_eq_true (below.covers state.ms.cluster),
        Bool.true_and] at kept
      simp only [outranked, Bool.or_eq_false_iff, decide_eq_false_iff_not, not_lt] at kept
      exact kept.1.1

/-- Insertion within the identity, where authentication rules are in use. -/
theorem plainStep_of_auth :
    PlainStep state.ms
      ((state.authPreferredInsert order newKey newEntry).pruneAggregated order 1 newKey newEntry).ms
      newKey newEntry := by
  have listed (visit : Key × StateEntry) := @MapState.mem_subsetKeysWithSameID state.ms order 0
    newKey visit
  have coveringPlain : ∀ visit ∈ state.ms.coveringKeysWithSameID newKey, visit.2.IsPlain :=
    fun visit member => allPlain _ _ (mem_coveringKeysWithSameID.mp member).1
  have subsetAuth : ∀ visit ∈ state.ms.subsetKeysWithSameID order 0 newKey,
      NotOverridden newKey newEntry false visit.1 visit.2 := by
    intro visit member
    unfold NotOverridden
    rw [(allPlain _ _ ((listed visit).mp member).1).authRequirement_eq]
    split
    · rfl
    · nofun
  have auth : newEntry.authRequirement.isExplicit = false := by
    rw [plain.authRequirement_eq]
    rfl
  unfold authPreferredInsert
  dsimp only
  rw [auth, deriveFromCovering_plain _ coveringPlain]
  split
  case h_1 bailed =>
    split at bailed
    case isFalse _ => cases bailed
    case isTrue higher =>
      obtain ⟨visit, member, higher⟩ := any_eq_true.mp higher
      obtain ⟨present, above, identity⟩ := mem_coveringKeysWithSameID.mp member
      have higher := (of_decide_eq_true higher).le
      have covers : visit.1.Covers state.ms.cluster newKey := ⟨above, .inl identity⟩
      refine plainStep_of_outranks (isDuplicate state.ms.cluster newKey newEntry) allPlain monotone
        present covers higher (pruneAggregated_cluster ..) (get_pruneAggregated _ _ _ _ _)
        (not_isDuplicate identity.symm) fun other visited duplicate => ?_
      obtain ⟨below, lower⟩ := covers_of_isDuplicate duplicate
      exact ⟨covers.trans below, lower.trans higher⟩
  case h_2 derived stays =>
    split at stays
    · cases stays
    case isFalse noHigher =>
      cases stays
      rw [foldl_propagateToSubset_fst _ subsetAuth]
      have cluster := state.deleteVisited_cluster (fun visit member => ((listed visit).mp member).1)
        fun _ visited => decide (visited.precedence < newEntry.precedence)
      have deleted := state.get_deleteVisited
        (fun other => newKey.lpmKey.IsAncestor other.lpmKey ∧ other.identity = newKey.identity)
        listed fun _ visited => decide (visited.precedence < newEntry.precedence)
      refine (show Replaces _ _ _ _ fun other visited =>
        (decide (newKey.lpmKey.IsAncestor other.lpmKey ∧ other.identity = newKey.identity) &&
          decide (visited.precedence < newEntry.precedence)) ||
          (decide (other ≠ newKey) &&
            isDuplicate state.ms.cluster newKey newEntry other visited) from ?_).plainStep allPlain
        plain
      constructor
      case cluster_eq =>
        rw [pruneAggregated_cluster, addKeyWithChanges_cluster, cluster]
      case there =>
        rw [get_pruneAggregated, get_addKeyWithChanges, if_pos rfl, deleted, filter_some,
          not_isDuplicate rfl]
        simp
      case others =>
        intro other differ
        rw [get_pruneAggregated, get_addKeyWithChanges, if_neg differ, deleted,
          Option.filter_filter, addKeyWithChanges_cluster, cluster]
        simp only [Bool.not_or, decide_eq_true differ, Bool.true_and]
      case covered =>
        intro other visited drop
        simp only [Bool.or_eq_true, Bool.and_eq_true, decide_eq_true_eq] at drop
        rcases drop with ⟨⟨above, identity⟩, lower⟩ | ⟨_, duplicate⟩
        · exact ⟨⟨above, .inl identity.symm⟩, lower.le⟩
        · exact covers_of_isDuplicate duplicate
      case above =>
        intro other visited above present
        by_contra higher
        exact noHigher (any_eq_true.mpr ⟨(other, visited),
          mem_coveringKeysWithSameID.mpr ⟨present, above.2, above.1⟩,
          decide_eq_true (not_le.mp higher)⟩)
      case below =>
        intro other visited differ below present kept
        simp only [Bool.or_eq_false_iff, Bool.and_eq_false_iff, decide_eq_false_iff_not,
          not_and] at kept
        exact not_lt.mp (kept.1.resolve_left fun outside => outside below.2 below.1.symm)

/-- Insertion where pass rules are in use but no pass was inserted. -/
theorem plainStep_of_passes {tierMaxPrecedence : Nat} (deny : tierMaxPrecedence % 256 = 255)
    (inTier : newEntry.precedence ≤ tierMaxPrecedence) :
    PlainStep state.ms (state.insertWithPasses order tierMaxPrecedence newKey newEntry).ms newKey
      newEntry := by
  unfold insertWithPasses
  rw [if_neg (by simp [deny, inTier]), plain.passes_eq]
  dsimp only
  have noPasses {key : Key} {entry : StateEntry} (present : state.ms.get key = some entry)
      (bound : Prop) : ∀ pass ∈ entry.passMetas, bound := by
    rw [(allPlain key entry present).passMetas_eq]
    exact forall_mem_nil _
  rw [insertVerdict_of_no_passes
    (fun visit member pass => noPasses (mem_broaderOrEqualKeys.mp member).1 _ pass)
    fun visit member pass => noPasses (mem_narrowerOrEqualKeys.mp member).1 _ pass]
  have ends := @scanBroader_plain newKey newEntry (aggregateFor state.ms.cluster newKey.identity)
    tierMaxPrecedence (state.ms.broaderOrEqualKeys order 0 newKey)
    (fun visit member => allPlain _ _ (mem_broaderOrEqualKeys.mp member).1)
    ⟨[], ∅, ∅, 0, false⟩ rfl
  split
  case isTrue bails =>
    refine plainStep_self allPlain monotone ?_
    obtain ⟨visit, member, covering, bails⟩ := (ends.mp bails).resolve_left (Nat.lt_irrefl 0)
    obtain ⟨present, covers⟩ := isCoveringKey_iff.mp ⟨member, covering⟩
    refine ⟨visit.1, visit.2, present, covers, ?_⟩
    simp only [bailsOut, Bool.and_eq_true, Bool.or_eq_true, decide_eq_true_eq, beq_iff_eq] at bails
    omega
  case isFalse notBailed =>
    have listed (visit : Key × StateEntry) := @mem_filter_narrowerOrEqualKeys state order 2 newKey
      visit
    have pruned := state.get_pruneCovered newKey listed newEntry newEntry.precedence
    have cluster := state.pruneCovered_cluster (fun visit member => ((listed visit).mp member).1)
      newKey newEntry newEntry.precedence
    have filtered (other : Key) :
        (state.pruneCovered ((state.ms.narrowerOrEqualKeys order 2 newKey).filter fun visit =>
          newKey.identity == aggregateFor state.ms.cluster newKey.identity ||
            visit.1.identity == newKey.identity) newKey newEntry newEntry.precedence).ms.get
          other =
        (state.ms.get other).filter fun visited => !(visited.isValid &&
          decide (newKey.Covers state.ms.cluster other) && prunesVerdict state.ms.cluster other
            visited newKey newEntry newEntry.precedence) := by
      rw [pruned]
      cases found : state.ms.get other with
      | none => simp
      | some visited =>
        have visitedPlain := allPlain other visited found
        rw [bind_some, prunedEntry_plain visitedPlain, filter_some, filter_some, visitedPlain.valid]
        by_cases covers : newKey.Covers state.ms.cluster other
        · simp [covers]
        · simp [covers]
    refine (show Replaces _ _ _ _ fun other visited => visited.isValid &&
      decide (newKey.Covers state.ms.cluster other) && prunesVerdict state.ms.cluster other
        visited newKey newEntry newEntry.precedence from ?_).plainStep allPlain plain
    constructor
    case cluster_eq => rw [addKeyWithChanges_cluster, cluster]
    case there => rw [get_addKeyWithChanges, if_pos rfl, filtered]
    case others =>
      intro other differ
      rw [get_addKeyWithChanges, if_neg differ, filtered]
    case covered =>
      intro other visited drop
      simp only [Bool.and_eq_true, decide_eq_true_eq] at drop
      exact ⟨drop.1.2, le_of_prunesVerdict drop.1.1 drop.2⟩
    case above =>
      intro other visited above present
      by_contra higher
      obtain ⟨member, covering⟩ := (@isCoveringKey_iff state order 0 newKey (other, visited)).mpr
        ⟨present, above.covers _⟩
      refine notBailed (ends.mpr (.inr ⟨(other, visited), member, covering, ?_⟩))
      simp [bailsOut, (allPlain other visited present).valid, not_le.mp higher]
    case below =>
      intro other visited _ below present kept
      simp only [(allPlain other visited present).valid, below.covers state.ms.cluster,
        decide_true, Bool.true_and] at kept
      simp only [prunesVerdict, Bool.or_eq_false_iff, decide_eq_false_iff_not, not_lt] at kept
      exact kept.1.2.1

end Branches

end Tracked

/-! ### Filling a map state -/

/-- A rule with an allow or deny verdict and without authentication, for one key. -/
structure PlainRule where
  key : Key
  priority : Nat
  tierPriority : Nat
  nextTierPriority : Nat
  deny : Bool
  proxyPort : Nat
  listenerPriority : Nat
  derivedFrom : RuleOrigin

namespace PlainRule

variable (rule : PlainRule)

def entry : StateEntry :=
  .newMapStateEntry rule.priority rule.tierPriority rule.nextTierPriority rule.derivedFrom
    rule.proxyPort rule.listenerPriority (if rule.deny then .deny else .allow) noAuthRequirement

def tierMaxPrecedence : Nat := toDenyPrecedence rule.tierPriority

theorem entry_isPlain : rule.entry.IsPlain := by
  refine StateEntry.newMapStateEntry_isPlain _ _ _ _ _ _ ?_
  cases rule.deny <;> exact Verdict.noConfusion

/-- The precedence of a rule by its kind: a deny, a plain allow, or a redirect. -/
theorem entry_precedence : rule.entry.precedence = toBasePrecedence rule.priority +
      if rule.deny then 255
      else if rule.proxyPort = 0 then 1
      else if rule.listenerPriority > 0 then 255 - min rule.listenerPriority maxListenerPriority
      else 2 := by
  have level := StateEntry.toBasePrecedence_mod rule.priority
  unfold entry StateEntry.newMapStateEntry
  cases rule.deny with
  | true => rfl
  | false =>
    by_cases redirect : rule.proxyPort = 0
    · simp [newMapStateEntry, withListenerPriority, redirect]
    · simp only [newMapStateEntry, withListenerPriority, redirect,
        Precedence.withListenerPriority, Bool.false_eq_true, if_false, reduceCtorEq, ne_eq,
        not_false_eq_true, if_true, beq_iff_eq]
      split
      · unfold maxListenerPriority
        omega
      · omega

theorem entry_isDeny : rule.entry.isDeny = rule.deny := by
  have level := StateEntry.toBasePrecedence_mod rule.priority
  have shape := rule.entry_precedence
  rw [Bool.eq_iff_iff, isDeny, Precedence.isDeny_iff]
  unfold maxListenerPriority at shape
  cases deny : rule.deny with
  | true =>
    rw [deny, if_pos rfl] at shape
    simp only [iff_true]
    omega
  | false =>
    rw [deny, if_neg Bool.false_ne_true] at shape
    simp only [Bool.false_eq_true, iff_false]
    split at shape
    · omega
    · split at shape <;> omega

theorem entry_precedence_le (ordered : rule.tierPriority ≤ rule.priority) :
    rule.entry.precedence ≤ rule.tierMaxPrecedence := by
  have shape := rule.entry_precedence
  have bound : rule.entry.precedence ≤ toBasePrecedence rule.priority + 255 := by
    rw [shape]
    split
    · omega
    · split
      · omega
      · split <;> omega
  refine bound.trans ?_
  unfold tierMaxPrecedence toDenyPrecedence toBasePrecedence lowestPriority
  omega

end PlainRule

/-- With pass rules, the priority of a rule must be within its tier. -/
structure PolicyFeatures.Contains (features : PolicyFeatures) (rules : List PlainRule) : Prop where
  denyRules : ∀ rule ∈ rules, rule.deny = true → features.denyRules = true
  redirectRules : ∀ rule ∈ rules, rule.deny = false → rule.proxyPort ≠ 0 →
    features.redirectRules = true
  orderedRules : ∀ rule ∈ rules, ∀ other ∈ rules, rule.priority ≠ other.priority →
    features.orderedRules = true
  tierPriority_le : features.passRules = true → ∀ rule ∈ rules, rule.tierPriority ≤ rule.priority

variable {features : PolicyFeatures} {rules : List PlainRule} {rule : PlainRule}

/-- Without precedence features all rules have the same precedence. -/
theorem PolicyFeatures.Contains.precedence_eq (contains : features.Contains rules)
    (none : features.precedenceFeatures = false) {other : PlainRule} (member : rule ∈ rules)
    (otherMember : other ∈ rules) : rule.entry.precedence = other.entry.precedence := by
  simp only [precedenceFeatures, Bool.or_eq_false_iff] at none
  have allow {rule : PlainRule} (member : rule ∈ rules) : rule.deny = false := by
    by_contra deny
    have := contains.denyRules rule member (Bool.not_eq_false _ ▸ deny)
    simp [none.1.1] at this
  have direct {rule : PlainRule} (member : rule ∈ rules) : rule.proxyPort = 0 := by
    by_contra redirect
    have := contains.redirectRules rule member (allow member) redirect
    simp [none.1.2] at this
  have level : rule.priority = other.priority := by
    by_contra differ
    have := contains.orderedRules rule member other otherMember differ
    simp [none.2] at this
  rw [rule.entry_precedence, other.entry_precedence, allow member, allow otherMember,
    direct member, direct otherMember, level]
  rfl

theorem PolicyFeatures.Contains.mono {fewer : List PlainRule}
    (contains : features.Contains rules) (subset : fewer ⊆ rules) : features.Contains fewer where
  denyRules rule member := contains.denyRules rule (subset member)
  redirectRules rule member := contains.redirectRules rule (subset member)
  orderedRules rule member other otherMember :=
    contains.orderedRules rule (subset member) other (subset otherMember)
  tierPriority_le passRules rule member :=
    contains.tierPriority_le passRules rule (subset member)

namespace Tracked

/-- Each insertion has its own order of map iteration. -/
def insertRules (features : PolicyFeatures) (orders : Nat → IterationOrder) (state : Tracked) :
    List PlainRule → Tracked
  | [] => state
  | rule :: rest =>
    insertRules features (fun insertion => orders (insertion + 1))
      (state.insertWithChanges (orders 0) rule.tierMaxPrecedence rule.key rule.entry features) rest

/-- The map state is monotone, each of its precedences is that of a rule for the same key, and
whatever hits the key of a rule reaches its precedence. -/
structure Represents (cluster : ClusterInfo) (ms : MapState) (rules : List PlainRule) : Prop where
  cluster_eq : ms.cluster = cluster
  allPlain : AllPlain ms
  monotone : PrecedenceTable.IsMonotone Key.Above ms.precedenceAt
  fromRule : ∀ key number, ms.precedenceAt key = some number →
    ∃ rule ∈ rules, rule.key = key ∧ rule.entry.precedence = number
  reached : ∀ rule ∈ rules, ∀ query, rule.key.Hits cluster query →
    PrecedenceTable.Reaches (Key.Hits cluster) ms.precedenceAt query rule.entry.precedence

theorem represents_newMapState (features : PolicyFeatures) (cluster : ClusterInfo) :
    Represents cluster (newMapState features cluster) [] where
  cluster_eq := rfl
  allPlain key entry present := by
    rw [get_newMapState] at present
    cases present
  monotone := nofun
  fromRule := nofun
  reached := nofun

/-- An insertion of a plain rule is a plain step. -/
theorem insertWithChanges_plainStep (order : IterationOrder) {state : Tracked}
    (represents : Represents cluster state.ms rules)
    (contains : features.Contains (rules ++ [rule])) :
    PlainStep state.ms
      (state.insertWithChanges order rule.tierMaxPrecedence rule.key rule.entry features).ms
      rule.key rule.entry := by
  have allPlain := represents.allPlain
  have monotone := represents.monotone
  have plain := rule.entry_isPlain
  have member : rule ∈ rules ++ [rule] := mem_append_right _ (mem_singleton_self rule)
  unfold insertWithChanges
  split
  case isTrue equivalent =>
    exact plainStep_self allPlain monotone (outranks_of_aggregateIsEquivalent equivalent)
  · split
    case isTrue passRules =>
      refine plainStep_of_passes order allPlain plain monotone ?_
        (rule.entry_precedence_le (contains.tierPriority_le passRules rule member))
      have level := StateEntry.toBasePrecedence_mod rule.tierPriority
      unfold PlainRule.tierMaxPrecedence toDenyPrecedence
      omega
    · split
      · exact plainStep_of_auth order allPlain plain monotone
      · split
        · exact plainStep_of_precedence order allPlain plain monotone
        case isFalse flat =>
          simp only [Bool.or_eq_true, not_or, Bool.not_eq_true] at flat
          refine plainStep_of_level order allPlain plain fun other visited present => ?_
          obtain ⟨earlier, earlierMember, _, same⟩ := represents.fromRule other visited.precedence
            (precedenceAt_of_get present)
          rw [← same]
          exact contains.precedence_eq flat.2 (mem_append_left _ earlierMember) member

/-- A plain step adds a rule to the represented rules. -/
theorem Represents.step (represents : Represents cluster before rules)
    (step : PlainStep before after rule.key rule.entry) :
    Represents cluster after (rules ++ [rule]) := by
  obtain ⟨broader, number, put, covers, higher, origin⟩ := step.put
  rw [represents.cluster_eq] at put covers
  have coveredHits (other : Key) (query : Query) (covered : broader.Covers cluster other)
      (hit : other.Hits cluster query) : broader.Hits cluster query :=
    covered.hits hit
  constructor
  case cluster_eq => exact step.cluster_eq.trans represents.cluster_eq
  case allPlain => exact step.allPlain
  case monotone => exact put.isMonotone represents.monotone
  case fromRule =>
    have earlier {key : Key} {value : Nat} (present : before.precedenceAt key = some value) :
        ∃ source ∈ rules ++ [rule], source.key = key ∧ source.entry.precedence = value := by
      obtain ⟨source, member, same⟩ := represents.fromRule key value present
      exact ⟨source, mem_append_left _ member, same⟩
    intro key value present
    by_cases same : key = broader
    · subst same
      obtain rfl : value = number := Option.some.inj (present.symm.trans put.written)
      rcases origin with ⟨ownKey, own⟩ | previous
      · exact ⟨rule, mem_append_right _ (mem_singleton_self rule), ownKey.symm, own.symm⟩
      · exact earlier previous
    · exact earlier (put.eq_before same present)
  case reached =>
    intro other member query hit
    rcases mem_append.mp member with earlier | new
    · exact put.reaches coveredHits (represents.reached other earlier query hit)
    · obtain rfl := mem_singleton.mp new
      exact (put.reaches_written (covers.hits hit)).mono higher

theorem insertRules_represents (rest : List PlainRule) (orders : Nat → IterationOrder)
    (state : Tracked) (rules : List PlainRule) (represents : Represents cluster state.ms rules)
    (contains : features.Contains (rules ++ rest)) :
    Represents cluster (state.insertRules features orders rest).ms (rules ++ rest) := by
  induction rest generalizing orders state rules with
  | nil =>
    rw [append_nil]
    exact represents
  | cons rule rest inductionHypothesis =>
    rw [append_cons] at contains ⊢
    have step := insertWithChanges_plainStep (orders 0) represents
      (contains.mono (subset_append_left _ _))
    exact inductionHypothesis _ _ _ (represents.step step) contains

/-! ### The decision on a filled map state -/

def IsHighestRule (cluster : ClusterInfo) (rules : List PlainRule) (query : Query)
    (rule : PlainRule) : Prop :=
  rule ∈ rules ∧ rule.key.Hits cluster query ∧
    ∀ other ∈ rules, other.key.Hits cluster query → other.entry.precedence ≤ rule.entry.precedence

def NoRule (cluster : ClusterInfo) (rules : List PlainRule) (query : Query) : Prop :=
  ∀ rule ∈ rules, ¬ rule.key.Hits cluster query

/-- A rule of the highest precedence among the rules the packet hits, or, if it hits none, among the
rules of the unknown identity that match its port and protocol; and there is no match exactly if
there is no such rule either. -/
def DecidesByRules (ms : MapState) (rules : List PlainRule) (packet : Packet) : Prop :=
  (∃ rule choice, (IsHighestRule ms.cluster rules packet.query rule ∨
      NoRule ms.cluster rules packet.query ∧
        IsHighestRule ms.cluster rules packet.fallbackQuery rule) ∧
    policyChoice ms.cluster ms.policyMap packet = some choice ∧
    choice.1.2.precedence = rule.entry.precedence ∧
    (policyCanAccess ms.cluster ms.policyMap packet).code =
      if rule.deny then .dropPolicyDeny else .ctxActOk) ∨
  NoRule ms.cluster rules packet.query ∧ NoRule ms.cluster rules packet.fallbackQuery ∧
    policyChoice ms.cluster ms.policyMap packet = none

namespace Represents

variable {ms : MapState} {query : Query}

/-- The highest hit of a map state is the entry of the highest rule. -/
theorem isHighestRule (represents : Represents ms.cluster ms rules) {entry : StateEntry}
    (highest : ms.IsHighestHit query key entry) :
    ∃ rule, IsHighestRule ms.cluster rules query rule ∧
      rule.entry.precedence = entry.precedence := by
  obtain ⟨rule, member, rfl, same⟩ := represents.fromRule key entry.precedence
    (precedenceAt_of_get highest.present)
  refine ⟨rule, ⟨member, highest.hit, fun other otherMember hit => ?_⟩, same⟩
  obtain ⟨otherKey, number, present, otherHit, bound⟩ :=
    represents.reached other otherMember query hit
  rw [same]
  exact bound.trans (highest.highest otherKey number present otherHit)

theorem noRule (represents : Represents ms.cluster ms rules) (noHit : ms.NoHit query) :
    NoRule ms.cluster rules query := by
  intro rule member hit
  obtain ⟨key, number, present, keyHit, _⟩ := represents.reached rule member query hit
  exact noHit key (accepted_of_precedenceAt present) keyHit

/-- The decision on a map state that represents rules is by those rules. -/
theorem decidesByRules (represents : Represents cluster ms rules) (packet : Packet) :
    DecidesByRules ms rules packet := by
  obtain rfl := represents.cluster_eq
  have inRange (key : Key) (number : Nat) (present : ms.precedenceAt key = some number) :
      number ≤ maxPrecedence := by
    obtain ⟨rule, _, _, rfl⟩ := represents.fromRule key number present
    exact rule.entry_isPlain.inRange
  have noAuth (key : Key) (entry : StateEntry) (present : ms.get key = some entry) :
      entry.authRequirement.authType = 0 := by
    rw [(represents.allPlain key entry present).authRequirement_eq]
    rfl
  rcases @MapState.policyChoice_spec ms packet represents.monotone inRange with
    ⟨missing, noHit, noFallback⟩ | ⟨choice, key, entry, chosen, elem, decided, listed⟩
  · exact .inr ⟨represents.noRule noHit, represents.noRule noFallback, missing⟩
  · have present : ms.get key = some entry := decided.elim (·.present) (·.2.present)
    have decisive : ∃ rule, (IsHighestRule ms.cluster rules packet.query rule ∨
        NoRule ms.cluster rules packet.query ∧
          IsHighestRule ms.cluster rules packet.fallbackQuery rule) ∧
        rule.entry.precedence = entry.precedence := by
      rcases decided with highest | ⟨noHit, highest⟩
      · obtain ⟨rule, isHighest, same⟩ := represents.isHighestRule highest
        exact ⟨rule, .inl isHighest, same⟩
      · obtain ⟨rule, isHighest, same⟩ := represents.isHighestRule highest
        exact ⟨rule, .inr ⟨represents.noRule noHit, isHighest⟩, same⟩
    obtain ⟨rule, isHighest, same⟩ := decisive
    refine .inl ⟨rule, choice, isHighest, chosen, ?_, ?_⟩
    · rw [elem, same]
      rfl
    · rw [policyCanAccess_code noAuth chosen elem present listed, ← rule.entry_isDeny,
        isDeny, isDeny, same]

end Represents

/-- A deny of TCP for an identity, below a redirect of TCP port 80 for its aggregate. -/
def mixedRules : List PlainRule :=
  [⟨tcpKey 0#16 1000, 1, 0, lowestPriority, true, 0, 0, none⟩,
    ⟨tcpKey 80#16 11, 0, 0, lowestPriority, false, 10001, 0, none⟩]

def tcpPacket : Packet := ⟨.ingress, 1000, 6#8, 80#16, false⟩

theorem mixedRules_contains :
    PolicyFeatures.Contains ⟨false, true, true, true, true, false⟩ mixedRules :=
  ⟨fun _ _ _ => rfl, fun _ _ _ _ => rfl, fun _ _ _ _ _ => rfl, fun _ => by decide⟩

/-- An allow for the unknown identity. -/
def unknownRules : List PlainRule :=
  [⟨keyForDirection .ingress, 0, 0, lowestPriority, false, 0, 0, none⟩]

def unknownRulesState : MapState :=
  (insertRules ⟨false, false, false, false, false, false⟩ (fun _ => IterationOrder.listed)
    ⟨newMapState ⟨false, false, false, false, false, false⟩ defaultClusterInfo,
      ChangeState.disabled⟩ unknownRules).ms

end Tracked

end Constellation.Policy
