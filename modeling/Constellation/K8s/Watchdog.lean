/-
This file models the pod-endpoint watchdog, which deletes pods that run without a local endpoint,
and proves when its grace period is kept. A pod is forgotten at the end of a scan that no longer
finds it missing. A scan that stands down, or that refuses to act because too many pods are due,
ends before that. The grace period is continuous along the runs in which no such scan would have
had to forget a pod.
-/

import Constellation.Ipam.Range
import Constellation.Lib.GoMap
import Constellation.Lib.Run

namespace Constellation.K8s

open Lib List Option AList
open Ipam (Addr)

/-! ### Pods and scans -/

abbrev UID := String

inductive PodPhase
  | pending
  | running
  | succeeded
  | failed
  | unknown
  deriving DecidableEq, Repr

/-- As the text reads: none, no address, or an address. -/
inductive PodIP
  | unset
  | malformed
  | parsed (addr : Addr)
  deriving DecidableEq, Repr

structure LocalPod where
  uid : UID
  «namespace» : String
  name : String
  hostNetwork : Bool
  deletionTimestamp : Option Int
  phase : PodPhase
  podIP : PodIP
  deriving DecidableEq, Repr

/-- Whether the pods of the node are owned, the time, the pods in the order of the table, and the
addresses that have a local endpoint. -/
structure Scan where
  cniOwned : Bool
  now : Int
  pods : List LocalPod
  endpoints : List Addr
  deriving Repr

/-- A pod that is passed over has none. -/
def LocalPod.eligibleAddr (pod : LocalPod) : Option Addr :=
  if pod.hostNetwork then none
  else if pod.deletionTimestamp.isSome then none
  else if pod.phase ≠ .running then none
  else
    match pod.podIP with
    | .unset => none
    | .malformed => none
    | .parsed addr => some addr

def Scan.isMissing (scan : Scan) (pod : LocalPod) : Bool :=
  pod.eligibleAddr.any fun addr => decide (addr ∉ scan.endpoints)

def Scan.Missing (scan : Scan) (uid : UID) : Prop :=
  ∃ pod ∈ scan.pods, pod.uid = uid ∧ scan.isMissing pod = true
  deriving Decidable

/-! ### The watchdog -/

/-- With the time at which each missing pod was first found. -/
structure Watchdog where
  gracePeriod : Int
  pending : GoMap UID Int

/-- The source multiplies by 0.2 in floating point. -/
def blastRadiusLimit (eligible : Nat) : Nat := max 3 (eligible / 5)

structure Progress where
  pending : GoMap UID Int
  seen : GoSet UID
  eligible : Nat
  due : List LocalPod

def visitPod (gracePeriod : Int) (scan : Scan) (progress : Progress) (pod : LocalPod) :
    Progress :=
  match pod.eligibleAddr with
  | none => progress
  | some addr =>
    if addr ∈ scan.endpoints then { progress with eligible := progress.eligible + 1 }
    else
      let noted :=
        { progress with
          eligible := progress.eligible + 1
          seen := progress.seen.insert pod.uid () }
      match progress.pending.lookup pod.uid with
      | none => { noted with pending := progress.pending.insert pod.uid scan.now }
      | some firstSeen =>
        if scan.now - firstSeen ≥ gracePeriod then { noted with due := progress.due ++ [pod] }
        else noted

def forget (seen : GoSet UID) (pending : GoMap UID Int) : GoMap UID Int :=
  pending.keys.foldl (fun pending uid => if uid ∈ seen then pending else pending.erase uid) pending

namespace Watchdog

def progress (watchdog : Watchdog) (scan : Scan) : Progress :=
  scan.pods.foldl (visitPod watchdog.gracePeriod scan) ⟨watchdog.pending, ∅, 0, []⟩

/-- Returns the pods that it deletes. -/
def check (watchdog : Watchdog) (scan : Scan) : Watchdog × List LocalPod :=
  if !scan.cniOwned then (watchdog, [])
  else
    let progress := watchdog.progress scan
    if progress.due.length > blastRadiusLimit progress.eligible then
      ({ watchdog with pending := progress.pending }, [])
    else ({ watchdog with pending := forget progress.seen progress.pending }, progress.due)

def start (gracePeriod : Int) : Watchdog := ⟨gracePeriod, ∅⟩

end Watchdog

theorem lookup_forget (seen : GoSet UID) (pending : GoMap UID Int) (uid : UID) :
    (forget seen pending).lookup uid = if uid ∈ seen then pending.lookup uid else none := by
  rw [forget, GoMap.lookup_foldl_erase]
  simp only [← AList.mem_keys]
  by_cases kept : uid ∈ seen
  · simp [kept]
  · by_cases present : uid ∈ pending
    · simp [kept, present]
    · simp [kept, present, lookup_eq_none.mpr present]

/-! ### What a scan gathers -/

/-- It is missing, and was first found missing at least the grace period ago. A table that lists an
identifier twice can have a pod due at once, if the grace period is not positive. -/
def Watchdog.mayBeDue (watchdog : Watchdog) (scan : Scan) (pod : LocalPod) : Bool :=
  scan.isMissing pod && decide (watchdog.gracePeriod ≤
    scan.now - (watchdog.pending.lookup pod.uid).getD scan.now)

variable {pod : LocalPod} {scan : Scan} {watchdog : Watchdog} {gracePeriod : Int}

theorem visitPod_of_not_missing {progress : Progress} (present : scan.isMissing pod = false) :
    visitPod gracePeriod scan progress pod = { progress with
        eligible := progress.eligible + if pod.eligibleAddr.isSome then 1 else 0 } := by
  unfold Scan.isMissing at present
  unfold visitPod
  cases eligible : pod.eligibleAddr with
  | none => rfl
  | some addr =>
    rw [eligible, any_some, decide_eq_false_iff_not, not_not] at present
    exact if_pos present

theorem visitPod_of_missing {progress : Progress} (missing : scan.isMissing pod = true) :
    visitPod gracePeriod scan progress pod =
      let noted : Progress :=
        { progress with
          eligible := progress.eligible + 1
          seen := progress.seen.insert pod.uid () }
      match progress.pending.lookup pod.uid with
      | none => { noted with pending := progress.pending.insert pod.uid scan.now }
      | some firstSeen =>
        if scan.now - firstSeen ≥ gracePeriod then { noted with due := progress.due ++ [pod] }
        else noted := by
  obtain ⟨addr, eligible, absent⟩ := (any_eq_true _ _).mp missing
  rw [visitPod, eligible]
  exact if_neg (of_decide_eq_true absent)

structure Gathered (watchdog : Watchdog) (scan : Scan) (visited : List LocalPod)
    (progress : Progress) : Prop where
  pending_new : ∀ uid first, progress.pending.lookup uid = some first →
    watchdog.pending.lookup uid = some first ∨
      watchdog.pending.lookup uid = none ∧ first = scan.now ∧ uid ∈ progress.seen
  pending_kept : ∀ uid first, watchdog.pending.lookup uid = some first →
    progress.pending.lookup uid = some first
  seen_iff : ∀ uid, uid ∈ progress.seen ↔ ∃ pod ∈ visited, pod.uid = uid ∧ scan.isMissing pod = true
  eligible_eq : progress.eligible = visited.countP fun pod => pod.eligibleAddr.isSome
  due_mem : ∀ pod ∈ progress.due, pod ∈ visited ∧ watchdog.mayBeDue scan pod = true
  due_length : progress.due.length ≤ visited.countP (watchdog.mayBeDue scan)

namespace Gathered

variable {visited : List LocalPod} {progress : Progress}

theorem start (watchdog : Watchdog) (scan : Scan) :
    Gathered watchdog scan [] ⟨watchdog.pending, ∅, 0, []⟩ where
  pending_new _ _ found := .inl found
  pending_kept _ _ found := found
  seen_iff uid := by simp
  eligible_eq := rfl
  due_mem _ member := nomatch member
  due_length := Nat.le_refl 0

theorem visitPod (gathered : Gathered watchdog scan visited progress) (pod : LocalPod) :
    Gathered watchdog scan (visited ++ [pod])
      (visitPod watchdog.gracePeriod scan progress pod) := by
  have seenIff (uid : UID) : (∃ other ∈ visited ++ [pod], other.uid = uid ∧
      scan.isMissing other = true) ↔
        uid ∈ progress.seen ∨ pod.uid = uid ∧ scan.isMissing pod = true := by
    simp only [gathered.seen_iff, mem_append, mem_singleton, or_and_right, exists_or,
      exists_eq_left]
  have count : progress.eligible + (if pod.eligibleAddr.isSome then 1 else 0) =
      (visited ++ [pod]).countP fun pod => pod.eligibleAddr.isSome := by
    rw [countP_append, countP_singleton, gathered.eligible_eq]
  have earlierDue : ∀ other ∈ progress.due, other ∈ visited ++ [pod] ∧
      watchdog.mayBeDue scan other = true := by
    intro other member
    obtain ⟨earlier, due⟩ := gathered.due_mem other member
    exact ⟨mem_append_left _ earlier, due⟩
  have fewDue : progress.due.length ≤ (visited ++ [pod]).countP (watchdog.mayBeDue scan) := by
    rw [countP_append]
    exact gathered.due_length.trans (Nat.le_add_right _ _)
  cases missing : scan.isMissing pod with
  | false =>
    rw [visitPod_of_not_missing missing]
    refine ⟨gathered.pending_new, gathered.pending_kept, fun uid => ?_, count, earlierDue, fewDue⟩
    rw [seenIff, missing]
    simp
  | true =>
    have isSeen (uid : UID) : uid ∈ progress.seen.insert pod.uid () ↔
        ∃ other ∈ visited ++ [pod], other.uid = uid ∧ scan.isMissing other = true := by
      rw [seenIff, missing, mem_insert, or_comm, eq_comm, and_iff_left rfl]
    have eligible : pod.eligibleAddr.isSome := ((any_eq_true_iff_get _ _).mp missing).1
    rw [eligible, if_pos rfl] at count
    have pendingNew : ∀ uid first, progress.pending.lookup uid = some first →
        watchdog.pending.lookup uid = some first ∨ watchdog.pending.lookup uid = none ∧
          first = scan.now ∧ uid ∈ progress.seen.insert pod.uid () := by
      intro uid first pending
      refine (gathered.pending_new uid first pending).imp_right fun ⟨absent, now, seen⟩ => ?_
      exact ⟨absent, now, (mem_insert _).mpr (.inr seen)⟩
    rw [visitPod_of_missing missing]
    cases found : progress.pending.lookup pod.uid with
    | none =>
      have fresh : watchdog.pending.lookup pod.uid = none := by
        by_contra pending
        obtain ⟨first, pending⟩ := ne_none_iff_exists'.mp pending
        rw [gathered.pending_kept _ first pending] at found
        cases found
      refine ⟨fun uid first pending => ?_, fun uid first pending => ?_, isSeen, count, earlierDue,
        fewDue⟩
      · rw [GoMap.lookup_insert_if] at pending
        split at pending
        case isTrue same =>
          cases pending
          exact .inr ⟨same ▸ fresh, rfl, (mem_insert _).mpr (.inl same)⟩
        · exact pendingNew uid first pending
      · rw [GoMap.lookup_insert_if, if_neg]
        · exact gathered.pending_kept uid first pending
        · rintro rfl
          rw [fresh] at pending
          cases pending
    | some firstSeen =>
      dsimp only
      split
      case isFalse _ =>
        exact ⟨pendingNew, gathered.pending_kept, isSeen, count, earlierDue, fewDue⟩
      case isTrue passed =>
        have due : watchdog.mayBeDue scan pod = true := by
          rw [Watchdog.mayBeDue, missing, Bool.true_and, decide_eq_true_eq]
          rcases gathered.pending_new _ _ found with earlier | ⟨absent, now, _⟩
          · rw [earlier]
            exact passed
          · rw [absent, getD_none]
            rw [now] at passed
            exact passed
        refine ⟨pendingNew, gathered.pending_kept, isSeen, count,
          forall_mem_append.mpr ⟨earlierDue, forall_mem_singleton.mpr ⟨?_, due⟩⟩, ?_⟩
        · exact mem_append_right _ (mem_singleton_self pod)
        · rw [length_append, countP_append, countP_singleton, due]
          exact Nat.add_le_add_right gathered.due_length 1

end Gathered

namespace Watchdog

theorem gathered_progress (watchdog : Watchdog) (scan : Scan) :
    Gathered watchdog scan scan.pods (watchdog.progress scan) := by
  have loop (rest : List LocalPod) {visited : List LocalPod} {progress : Progress}
      (gathered : Gathered watchdog scan visited progress) :
      Gathered watchdog scan (visited ++ rest)
        (rest.foldl (K8s.visitPod watchdog.gracePeriod scan) progress) := by
    induction rest generalizing visited progress with
    | nil =>
      rw [append_nil]
      exact gathered
    | cons pod rest inductionHypothesis =>
      rw [append_cons]
      exact inductionHypothesis (gathered.visitPod pod)
  exact loop scan.pods (Gathered.start watchdog scan)

/-- The deleted pods are missing, and were first found missing at least the grace period ago. -/
theorem check_deleted (deleted : pod ∈ (watchdog.check scan).2) :
    scan.Missing pod.uid ∧ watchdog.gracePeriod ≤
      scan.now - (watchdog.pending.lookup pod.uid).getD scan.now := by
  have due : pod ∈ (watchdog.progress scan).due := by
    unfold check at deleted
    split at deleted
    · exact nomatch deleted
    · dsimp only at deleted
      split at deleted
      · exact nomatch deleted
      · exact deleted
  obtain ⟨member, mayBeDue⟩ := (watchdog.gathered_progress scan).due_mem pod due
  obtain ⟨missing, passed⟩ := Bool.and_eq_true_iff.mp mayBeDue
  exact ⟨⟨pod, member, rfl, missing⟩, of_decide_eq_true passed⟩

/-! ### The grace period -/

/-- The pods are owned, and not too many of them may be due. -/
def Completes (watchdog : Watchdog) (scan : Scan) : Prop :=
  scan.cniOwned = true ∧ scan.pods.countP (watchdog.mayBeDue scan) ≤
    blastRadiusLimit (scan.pods.countP fun pod => pod.eligibleAddr.isSome)

/-- A scan runs to its end, or it has no pod to forget. -/
def Forgets (watchdog : Watchdog) (scan : Scan) : Prop :=
  watchdog.Completes scan ∨ ∀ uid ∈ watchdog.pending.keys, scan.Missing uid

instance (watchdog : Watchdog) (scan : Scan) : Decidable (watchdog.Forgets scan) :=
  inferInstanceAs (Decidable ((_ ∧ _) ∨ ∀ _ ∈ _, _))

/-- What is pending after a scan is missing at the scan, and it was pending before or was first
found at the scan. -/
theorem check_pending (forgets : watchdog.Forgets scan) {uid : UID} {first : Int}
    (pending : (watchdog.check scan).1.pending.lookup uid = some first) :
    scan.Missing uid ∧ (watchdog.pending.lookup uid = some first ∨ first = scan.now) := by
  have gathered := watchdog.gathered_progress scan
  have origin (found : (watchdog.progress scan).pending.lookup uid = some first) :
      watchdog.pending.lookup uid = some first ∨ first = scan.now ∧ scan.Missing uid := by
    refine (gathered.pending_new uid first found).imp_right fun ⟨_, now, seen⟩ => ?_
    exact ⟨now, (gathered.seen_iff uid).mp seen⟩
  have incomplete (early : ¬watchdog.Completes scan)
      (found : watchdog.pending.lookup uid = some first ∨ first = scan.now ∧ scan.Missing uid) :
      scan.Missing uid ∧ (watchdog.pending.lookup uid = some first ∨ first = scan.now) := by
    rcases found with earlier | ⟨now, missing⟩
    · exact ⟨forgets.resolve_left early uid (GoMap.mem_of_lookup earlier), .inl earlier⟩
    · exact ⟨missing, .inr now⟩
  unfold check at pending
  split at pending
  case isTrue notOwned =>
    refine incomplete (fun completes => ?_) (.inl pending)
    rw [completes.1] at notOwned
    cases notOwned
  · dsimp only at pending
    split at pending
    case isTrue tooMany =>
      refine incomplete (fun completes => ?_) (origin pending)
      rw [gathered.eligible_eq] at tooMany
      exact absurd (gathered.due_length.trans completes.2) (Nat.not_le.mpr tooMany)
    · rw [lookup_forget] at pending
      split at pending
      case isTrue seen =>
        exact ⟨(gathered.seen_iff uid).mp seen, (origin pending).imp_right And.left⟩
      · cases pending

@[simp]
theorem check_gracePeriod (watchdog : Watchdog) (scan : Scan) :
    (watchdog.check scan).1.gracePeriod = watchdog.gracePeriod := by
  unfold check
  split
  · rfl
  · dsimp only
    split <;> rfl

end Watchdog

/-- From a scan taken at the given time on, a pod was missing at every scan. -/
def MissingSince (scans : List Scan) (uid : UID) (time : Int) : Prop :=
  ∃ before first rest, scans = before ++ first :: rest ∧ first.now = time ∧
    ∀ scan ∈ first :: rest, scan.Missing uid

/-- A pod was missing at every scan of an interval that ends with the given scan and lasts at least
the given time. -/
def MissingFor (length : Int) (scans : List Scan) (scan : Scan) (uid : UID) : Prop :=
  ∃ time, length ≤ scan.now - time ∧ MissingSince (scans ++ [scan]) uid time

namespace MissingSince

variable {scans : List Scan} {uid : UID} {time : Int}

theorem extend (since : MissingSince scans uid time) (missing : scan.Missing uid) :
    MissingSince (scans ++ [scan]) uid time := by
  obtain ⟨before, first, rest, rfl, same, throughout⟩ := since
  refine ⟨before, first, rest ++ [scan], by simp, same, ?_⟩
  rw [← cons_append]
  exact forall_mem_append.mpr ⟨throughout, forall_mem_singleton.mpr missing⟩

theorem begin (missing : scan.Missing uid) : MissingSince (scans ++ [scan]) uid scan.now :=
  ⟨scans, scan, [], rfl, rfl, forall_mem_singleton.mpr missing⟩

end MissingSince

namespace Watchdog

/-- Every pending pod has been missing since it was first found. -/
def Continuous (watchdog : Watchdog) (scans : List Scan) : Prop :=
  ∀ uid first, watchdog.pending.lookup uid = some first → MissingSince scans uid first

theorem Continuous.check {scans : List Scan} (continuous : watchdog.Continuous scans)
    (forgets : watchdog.Forgets scan) : (watchdog.check scan).1.Continuous (scans ++ [scan]) := by
  intro uid first pending
  obtain ⟨missing, earlier | rfl⟩ := check_pending forgets pending
  · exact (continuous uid first earlier).extend missing
  · exact MissingSince.begin missing

/-- A run of scans keeps the times of the pending pods continuous. -/
theorem Continuous.run {history : List Scan} (scans : List Scan)
    (continuous : watchdog.Continuous history)
    (meets : Meets (fun watchdog scan => (watchdog.check scan).1) Forgets watchdog scans) :
    (Lib.run (fun watchdog scan => (watchdog.check scan).1) watchdog scans).Continuous
      (history ++ scans) := by
  induction scans generalizing watchdog history with
  | nil =>
    rw [append_nil]
    exact continuous
  | cons scan rest inductionHypothesis =>
    rw [append_cons]
    exact inductionHypothesis (continuous.check meets.1) meets.2

theorem run_gracePeriod (watchdog : Watchdog) (scans : List Scan) :
    (Lib.run (fun watchdog scan => (watchdog.check scan).1) watchdog scans).gracePeriod =
      watchdog.gracePeriod := by
  induction scans generalizing watchdog with
  | nil => rfl
  | cons scan rest inductionHypothesis =>
    exact (inductionHypothesis _).trans (check_gracePeriod watchdog scan)

/-- Along every run in which each scan runs to its end or has no pod to forget, a pod that a further
scan deletes was missing at every scan of an interval that ends there and lasts at least the grace
period. -/
theorem run_deletes_missing_throughout (gracePeriod : Int) (scans : List Scan)
    (meets : Meets (fun watchdog scan => (watchdog.check scan).1) Forgets (start gracePeriod) scans)
    (scan : Scan) (pod : LocalPod)
    (deleted : pod ∈ ((Lib.run (fun watchdog scan => (watchdog.check scan).1) (start gracePeriod)
      scans).check scan).2) :
    MissingFor gracePeriod scans scan pod.uid := by
  have initial : (start gracePeriod).Continuous [] := by
    intro uid first pending
    cases pending
  have continuous := initial.run scans meets
  obtain ⟨missing, passed⟩ := check_deleted deleted
  rw [run_gracePeriod] at passed
  cases found : (Lib.run (fun watchdog scan => (watchdog.check scan).1) (start gracePeriod)
      scans).pending.lookup pod.uid with
  | none =>
    rw [found] at passed
    exact ⟨scan.now, passed, MissingSince.begin missing⟩
  | some first =>
    rw [found] at passed
    exact ⟨first, passed, (continuous pod.uid first found).extend missing⟩

def runningPod : LocalPod :=
  ⟨"d8a1", "default", "web-0", false, none, .running, .parsed ⟨.ipv4, 0x0a000005, by decide⟩⟩

def scanRunning (cniOwned : Bool) (now : Int) (endpoint : Bool) : Scan :=
  ⟨cniOwned, now, [runningPod], if endpoint then [⟨.ipv4, 0x0a000005, by decide⟩] else []⟩

/-- The pod is missing, gets its endpoint back, and is missing again for as long as the grace
period. -/
theorem runningPod_deleted_after_grace :
    Meets (fun watchdog scan => (watchdog.check scan).1) Forgets (start 90)
        [scanRunning true 0 false, scanRunning true 60 true, scanRunning true 120 false] ∧
      runningPod ∈ ((Lib.run (fun watchdog scan => (watchdog.check scan).1) (start 90)
        [scanRunning true 0 false, scanRunning true 60 true, scanRunning true 120 false]).check
          (scanRunning true 210 false)).2 ∧
      MissingFor 90 [scanRunning true 0 false, scanRunning true 60 true, scanRunning true 120 false]
        (scanRunning true 210 false) runningPod.uid :=
  have meets : Meets (fun watchdog scan => (watchdog.check scan).1) Forgets (start 90)
      [scanRunning true 0 false, scanRunning true 60 true, scanRunning true 120 false] := by
    decide +kernel
  have deleted : runningPod ∈ ((Lib.run (fun watchdog scan => (watchdog.check scan).1) (start 90)
      [scanRunning true 0 false, scanRunning true 60 true, scanRunning true 120 false]).check
        (scanRunning true 210 false)).2 := by
    decide +kernel
  ⟨meets, deleted, run_deletes_missing_throughout 90 _ meets _ runningPod deleted⟩

/-- A scan that stands down does not forget the pod that has its endpoint back: the pod is deleted
although it was not missing for as long as the grace period. -/
theorem runningPod_deleted_early :
    runningPod ∈ ((Lib.run (fun watchdog scan => (watchdog.check scan).1) (start 90)
        [scanRunning true 0 false, scanRunning false 60 true]).check
          (scanRunning true 120 false)).2 ∧
      ¬MissingFor 90 [scanRunning true 0 false, scanRunning false 60 true]
        (scanRunning true 120 false) runningPod.uid := by
  refine ⟨by decide +kernel, ?_⟩
  rintro ⟨_, long, before, first, rest, parts, rfl, throughout⟩
  have healthy : ¬(scanRunning false 60 true).Missing runningPod.uid := by decide +kernel
  match before, parts with
  | [], parts =>
    obtain ⟨rfl, rfl⟩ := List.cons.inj parts
    exact healthy (throughout _ (by simp))
  | [_], parts =>
    obtain ⟨rfl, _⟩ := List.cons.inj (List.cons.inj parts).2
    exact healthy (throughout _ (.head _))
  | [_, _], parts =>
    obtain ⟨rfl, _⟩ := List.cons.inj (List.cons.inj (List.cons.inj parts).2).2
    exact absurd long (by decide)
  | _ :: _ :: _ :: before, parts =>
    exact absurd (List.cons.inj (List.cons.inj (List.cons.inj parts).2).2).2 (by simp)

end Watchdog

end Constellation.K8s
