/-
This file models the queue of prefixes whose metadata has changed, the controller that injects
labels for them, and the revisions by which callers wait for an injection. Taking the queue closes
a revision; what fails goes back into the queue, and only a run that has nothing left to retry
publishes its revision. Whoever sees a revision published can rely on the injection of all
prefixes enqueued up to it, until the 64-bit revisions wrap around.
-/
import Constellation.Lib.GoMap
import Constellation.Lib.Run

namespace Constellation.Ipcache

open Lib List IterationOrder

variable {Prefix : Type} [DecidableEq Prefix]

/-! ### The queue -/

/-- The queued prefixes, the revision that they will be injected at, and the last revision that has
been injected, in 64 bits. -/
structure MetadataQueue (Prefix : Type) where
  queuedPrefixes : GoSet Prefix
  queuedRevision : Nat
  injectedRevision : Nat

namespace MetadataQueue

def newMetadata : MetadataQueue Prefix where
  queuedPrefixes := ∅
  queuedRevision := 1
  injectedRevision := 0

def dequeuePrefixUpdates (order : IterationOrder) (m : MetadataQueue Prefix) :
    MetadataQueue Prefix × List Prefix × Nat :=
  ({ m with
      queuedPrefixes := ∅
      queuedRevision := (m.queuedRevision + 1) % 2 ^ 64 },
    order.visit 0 m.queuedPrefixes.keys, m.queuedRevision)

variable (m : MetadataQueue Prefix)

/-- Returns the revision that the prefixes will be injected at. -/
def enqueuePrefixUpdates (prefixes : List Prefix) : MetadataQueue Prefix × Nat :=
  ({ m with
      queuedPrefixes := prefixes.foldl (fun queued visit => queued.insert visit ())
        m.queuedPrefixes },
    m.queuedRevision)

def setInjectedRevision (rev : Nat) : MetadataQueue Prefix :=
  { m with injectedRevision := rev }

/-- A caller that waits for the revision returns without an error. -/
def waitForRevision (rev : Nat) : Bool :=
  decide ¬m.injectedRevision < rev

end MetadataQueue

/-! ### The controller -/

/-- While labels are being injected, the length that the history had when the injection began is
kept as well. -/
inductive Controller (Prefix : Type)
  | idle
  | looping (rev cs : Nat) (idsToModify retry : List Prefix)
  | injecting (since rev cs : Nat) (chunk idsToModify retry : List Prefix)
  | requeuing (rev : Nat) (idsToModify retry : List Prefix)
  | requeuingRest (rev : Nat) (idsToModify : List Prefix) (ok : Bool)
  | publishing (rev : Nat) (ok : Bool)

/-- The calls that enqueue prefixes with the revisions they return, and the injections that have
returned, with the moment they began and the prefixes they handed back. -/
inductive QueueRecord (Prefix : Type)
  | enqueued (revision : Nat) (prefixes : List Prefix)
  | injected (since : Nat) (chunk remaining : List Prefix)

structure Injection (Prefix : Type) where
  queue : MetadataQueue Prefix
  controller : Controller Prefix
  history : List (QueueRecord Prefix)

inductive InjectionEvent (Prefix : Type)
  | enqueue (prefixes : List Prefix)
  | start (order : IterationOrder)
  | advance
  | inject (remaining : List Prefix) (failed : Bool)

namespace Injection

def newInjection : Injection Prefix where
  queue := MetadataQueue.newMetadata
  controller := .idle
  history := []

def enqueue (s : Injection Prefix) (prefixes : List Prefix) : Injection Prefix :=
  let (queue, revision) := s.queue.enqueuePrefixUpdates prefixes
  { s with
    queue := queue
    history := s.history ++ [.enqueued revision prefixes] }

def advance (s : Injection Prefix) : Injection Prefix :=
  match s.controller with
  | .looping rev cs idsToModify retry =>
    if idsToModify.length > 0 then
      let idx := min idsToModify.length cs
      { s with
        controller := .injecting s.history.length rev cs (idsToModify.take idx)
          (idsToModify.drop idx) retry }
    else { s with controller := .requeuing rev idsToModify retry }
  | .requeuing rev idsToModify retry =>
    if retry.length > 0 then
      { s.enqueue retry with controller := .requeuingRest rev idsToModify false }
    else { s with controller := .requeuingRest rev idsToModify true }
  | .requeuingRest rev idsToModify ok =>
    if idsToModify.length > 0 then
      { s.enqueue idsToModify with controller := .publishing rev false }
    else { s with controller := .publishing rev ok }
  | .publishing rev ok =>
    { s with
      queue := if ok then s.queue.setInjectedRevision rev else s.queue
      controller := .idle }
  | .idle | .injecting .. => s

/-- An event that cannot happen changes nothing. -/
def step (chunkSize : Nat) (s : Injection Prefix) : InjectionEvent Prefix → Injection Prefix
  | .enqueue prefixes => s.enqueue prefixes
  | .start order =>
    match s.controller with
    | .idle =>
      let (queue, idsToModify, rev) := s.queue.dequeuePrefixUpdates order
      { s with
        queue := queue
        controller := .looping rev (if rev = 1 then idsToModify.length else chunkSize)
          idsToModify [] }
    | _ => s
  | .advance => s.advance
  | .inject remaining failed =>
    match s.controller with
    | .injecting since rev cs chunk idsToModify retry =>
      { s with
        controller :=
          if failed then .requeuing rev idsToModify (retry ++ remaining)
          else .looping rev cs idsToModify (retry ++ remaining)
        history := s.history ++ [.injected since chunk remaining] }
    | _ => s

/-! ### What is still to be injected -/

/-- The controller still holds a prefix that was enqueued at a place of the history. An injection
that has begun counts only for what was enqueued before. -/
def Held (controller : Controller Prefix) (place : Nat) (queued : Prefix) : Prop :=
  match controller with
  | .idle | .publishing .. => False
  | .looping _ _ idsToModify retry | .requeuing _ idsToModify retry =>
    queued ∈ idsToModify ∨ queued ∈ retry
  | .injecting since _ _ chunk idsToModify retry =>
    queued ∈ chunk ∧ place < since ∨ queued ∈ idsToModify ∨ queued ∈ retry
  | .requeuingRest _ idsToModify _ => queued ∈ idsToModify

/-- The revision that the controller may still publish. -/
def claimed : Controller Prefix → Option Nat
  | .idle => none
  | .looping rev _ _ _ | .injecting _ rev _ _ _ _ | .requeuing rev _ _ => some rev
  | .requeuingRest rev _ ok | .publishing rev ok => if ok then some rev else none

/-- A prefix that was enqueued at a place of the history has been part of an injection that began
later and did not hand it back. -/
def Done (history : List (QueueRecord Prefix)) (place : Nat) (queued : Prefix) : Prop :=
  ∃ since chunk remaining, .injected since chunk remaining ∈ history ∧ place < since ∧
    queued ∈ chunk ∧ queued ∉ remaining

/-- The revision has not been published, and the controller holds the prefix, or it is in the queue
and the revision is not one that the controller may publish. -/
structure Pending (s : Injection Prefix) (place revision : Nat) (queued : Prefix) : Prop where
  unpublished : s.queue.injectedRevision < revision
  somewhere : Held s.controller place queued ∨
    queued ∈ s.queue.queuedPrefixes ∧ ∀ rev ∈ claimed s.controller, rev < revision

/-- Revisions that are published or may be published are older than the queue, and every prefix that
has been enqueued has been injected or is still to be. -/
structure Accounted (s : Injection Prefix) : Prop where
  published : s.queue.injectedRevision < s.queue.queuedRevision
  open_ : ∀ rev ∈ claimed s.controller, rev < s.queue.queuedRevision
  entered : ∀ place revision prefixes, s.history[place]? = some (.enqueued revision prefixes) →
    ∀ queued ∈ prefixes, Done s.history place queued ∨ Pending s place revision queued

variable {s : Injection Prefix}

section

omit [DecidableEq Prefix]

theorem Done.append {history : List (QueueRecord Prefix)} {place : Nat} {queued : Prefix}
    (done : Done history place queued) (rest : List (QueueRecord Prefix)) :
    Done (history ++ rest) place queued := by
  obtain ⟨since, chunk, remaining, member, later, inChunk, notBack⟩ := done
  exact ⟨since, chunk, remaining, mem_append_left rest member, later, inChunk, notBack⟩

theorem accounted_newInjection : Accounted (newInjection : Injection Prefix) :=
  ⟨Nat.zero_lt_one, fun _ claim => (nomatch claim), fun _ _ _ found => (nomatch found)⟩

/-- The controller may move on as long as it claims nothing new and what it lets go of is in the
queue. -/
theorem Accounted.move (accounted : Accounted s) {old controller : Controller Prefix}
    (isController : s.controller = old) (claims : ∀ rev ∈ claimed controller, rev ∈ claimed old)
    (keeps : ∀ place queued, place < s.history.length → Held old place queued →
      Held controller place queued ∨ queued ∈ s.queue.queuedPrefixes ∧ claimed controller = none) :
    Accounted { s with controller := controller } := by
  subst isController
  refine ⟨accounted.published, fun rev claim => accounted.open_ rev (claims rev claim),
    fun place revision prefixes found queued member => ?_⟩
  rcases accounted.entered place revision prefixes found queued member with done | pending
  · exact .inl done
  · refine .inr ⟨pending.unpublished, ?_⟩
    rcases pending.somewhere with held | ⟨inQueue, newer⟩
    · have known := (List.getElem?_eq_some_iff.mp found).1
      rcases keeps place queued known held with still | ⟨inQueue, nothing⟩
      · exact .inl still
      · refine .inr ⟨inQueue, fun rev claim => ?_⟩
        rw [nothing] at claim
        cases claim
    · exact .inr ⟨inQueue, fun rev claim => newer rev (claims rev claim)⟩

/-- When a revision is published, nothing that was enqueued for it is left. -/
theorem Accounted.publish (accounted : Accounted s) {rev : Nat} {ok : Bool}
    (isController : s.controller = .publishing rev ok) :
    Accounted { s with
      queue := if ok then s.queue.setInjectedRevision rev else s.queue
      controller := .idle } := by
  cases ok with
  | false =>
    exact accounted.move isController (fun rev claim => nomatch claim)
      fun place queued _ held => nomatch held
  | true =>
    have isClaimed : rev ∈ claimed s.controller := by
      rw [isController]
      rfl
    refine ⟨accounted.open_ rev isClaimed, fun rev claim => (nomatch claim),
      fun place revision prefixes found queued member => ?_⟩
    rcases accounted.entered place revision prefixes found queued member with done | pending
    · exact .inl done
    · rcases pending.somewhere with held | ⟨inQueue, newer⟩
      · rw [isController] at held
        cases held
      · exact .inr ⟨newer rev isClaimed, .inr ⟨inQueue, fun rev claim => nomatch claim⟩⟩

/-- A run takes over what is in the queue. -/
theorem Accounted.start (accounted : Accounted s) (isIdle : s.controller = .idle)
    (room : s.queue.queuedRevision + 1 < 2 ^ 64) (order : IterationOrder) (cs : Nat) :
    Accounted { s with
      queue := (s.queue.dequeuePrefixUpdates order).1
      controller := .looping s.queue.queuedRevision cs
        (s.queue.dequeuePrefixUpdates order).2.1 [] } := by
  have next : (s.queue.dequeuePrefixUpdates order).1.queuedRevision = s.queue.queuedRevision + 1 :=
    Nat.mod_eq_of_lt room
  refine ⟨?_, fun rev claim => ?_, fun place revision prefixes found queued member => ?_⟩
  · rw [next]
    exact Nat.lt_succ_of_lt accounted.published
  · rw [next]
    cases claim
    exact Nat.lt_succ_self _
  · rcases accounted.entered place revision prefixes found queued member with done | pending
    · exact .inl done
    · refine .inr ⟨pending.unpublished, .inl (.inl ?_)⟩
      rcases pending.somewhere with held | ⟨inQueue, -⟩
      · rw [isIdle] at held
        cases held
      · exact (order.mem_visit 0 _ queued).mpr inQueue

/-- An injection settles the prefixes that it does not hand back, if they were enqueued before it
began. -/
theorem Accounted.inject (accounted : Accounted s) {since rev cs : Nat}
    {chunk idsToModify retry : List Prefix}
    (isController : s.controller = .injecting since rev cs chunk idsToModify retry)
    (remaining : List Prefix) (failed : Bool) :
    Accounted { s with
      controller :=
        if failed then .requeuing rev idsToModify (retry ++ remaining)
        else .looping rev cs idsToModify (retry ++ remaining)
      history := s.history ++ [.injected since chunk remaining] } := by
  have claims : claimed (if failed then .requeuing rev idsToModify (retry ++ remaining)
      else .looping rev cs idsToModify (retry ++ remaining)) = claimed s.controller := by
    rw [isController]
    cases failed
    · rfl
    · rfl
  have holds : ∀ place queued, Held (if failed then .requeuing rev idsToModify (retry ++ remaining)
      else .looping rev cs idsToModify (retry ++ remaining)) place queued ↔
        queued ∈ idsToModify ∨ queued ∈ retry ++ remaining := by
    intro place queued
    cases failed
    · rfl
    · rfl
  refine ⟨accounted.published, fun rev claim => accounted.open_ rev (claims ▸ claim),
    fun place revision prefixes found queued member => ?_⟩
  have earlier : s.history[place]? = some (.enqueued revision prefixes) := by
    rw [getElem?_append] at found
    split at found
    · exact found
    · cases mem_singleton.mp (mem_of_getElem? found)
  rcases accounted.entered place revision prefixes earlier queued member with done | pending
  · exact .inl (done.append _)
  · rcases pending.somewhere with held | ⟨inQueue, newer⟩
    · rw [isController] at held
      rcases held with ⟨inChunk, before⟩ | inIds | inRetry
      · by_cases back : queued ∈ remaining
        · exact .inr ⟨pending.unpublished, .inl ((holds place queued).mpr
            (.inr (mem_append_right retry back)))⟩
        · exact .inl ⟨since, chunk, remaining,
            mem_append_right _ (mem_singleton.mpr rfl), before, inChunk, back⟩
      · exact .inr ⟨pending.unpublished, .inl ((holds place queued).mpr (.inl inIds))⟩
      · exact .inr ⟨pending.unpublished, .inl ((holds place queued).mpr
          (.inr (mem_append_left remaining inRetry)))⟩
    · exact .inr ⟨pending.unpublished, .inr ⟨inQueue, fun rev claim =>
        newer rev (claims ▸ claim)⟩⟩

/-! ### Runs -/

end

theorem Accounted.enqueue (accounted : Accounted s) (prefixes : List Prefix) :
    Accounted (s.enqueue prefixes) := by
  refine ⟨accounted.published, accounted.open_,
    fun place revision entered found queued member => ?_⟩
  have grown := GoMap.mem_foldl_insert prefixes s.queue.queuedPrefixes
  replace found : (s.history ++ [.enqueued s.queue.queuedRevision prefixes])[place]? =
    some (.enqueued revision entered) := found
  rw [getElem?_append] at found
  split at found
  case isTrue earlier =>
    rcases accounted.entered place revision entered found queued member with done | pending
    · exact .inl (done.append _)
    · refine .inr ⟨pending.unpublished, pending.somewhere.imp_right fun inQueue => ?_⟩
      exact ⟨(grown queued).mpr (.inr inQueue.1), inQueue.2⟩
  · have isLast := mem_of_getElem? found
    obtain ⟨rfl, rfl⟩ := QueueRecord.enqueued.inj (mem_singleton.mp isLast)
    exact .inr ⟨accounted.published, .inr ⟨(grown queued).mpr (.inl member), accounted.open_⟩⟩

theorem mem_queuedPrefixes_enqueue (s : Injection Prefix) {prefixes : List Prefix} {queued : Prefix}
    (member : queued ∈ prefixes) : queued ∈ (s.enqueue prefixes).queue.queuedPrefixes :=
  (GoMap.mem_foldl_insert prefixes s.queue.queuedPrefixes queued).mpr (.inl member)

/-- The steps of the controller between two injections keep the account. -/
theorem Accounted.advance (accounted : Accounted s) : Accounted s.advance := by
  unfold Injection.advance
  split
  case h_1 rev cs idsToModify retry isController =>
    split
    · refine accounted.move isController (fun rev claim => claim)
        fun place queued known held => .inl ?_
      rcases held with inIds | inRetry
      · rw [← take_append_drop (min idsToModify.length cs) idsToModify] at inIds
        rcases mem_append.mp inIds with inChunk | inRest
        · exact .inl ⟨inChunk, known⟩
        · exact .inr (.inl inRest)
      · exact .inr (.inr inRetry)
    · exact accounted.move isController (fun rev claim => claim)
        fun place queued _ held => .inl held
  case h_2 rev idsToModify retry isController =>
    split
    · refine (accounted.enqueue retry).move isController (fun rev claim => nomatch claim)
        fun place queued _ held => ?_
      exact held.imp id fun inRetry => ⟨mem_queuedPrefixes_enqueue s inRetry, rfl⟩
    case isFalse empty =>
      refine accounted.move isController (fun rev claim => claim)
        fun place queued _ held => .inl ?_
      rw [length_eq_zero_iff.mp (Nat.eq_zero_of_not_pos empty)] at held
      exact held.resolve_right not_mem_nil
  case h_3 rev idsToModify ok isController =>
    split
    · exact (accounted.enqueue idsToModify).move isController (fun rev claim => nomatch claim)
        fun place queued _ held => .inr ⟨mem_queuedPrefixes_enqueue s held, rfl⟩
    case isFalse empty =>
      refine accounted.move isController (fun rev claim => claim) fun place queued _ held => ?_
      rw [Held, length_eq_zero_iff.mp (Nat.eq_zero_of_not_pos empty)] at held
      cases held
  case h_4 rev ok isController => exact accounted.publish isController
  · exact accounted
  · exact accounted

def starts : InjectionEvent Prefix → Bool
  | .start _ => true
  | _ => false

theorem queuedRevision_advance (s : Injection Prefix) :
    s.advance.queue.queuedRevision = s.queue.queuedRevision := by
  unfold Injection.advance
  split
  case h_4 rev ok _ =>
    cases ok
    · rfl
    · rfl
  case h_5 => rfl
  case h_6 => rfl
  all_goals
    split
    · rfl
    · rfl

/-- One event keeps the account; only a start may take a new revision. -/
theorem Accounted.step (accounted : Accounted s) (chunkSize : Nat) (event : InjectionEvent Prefix)
    (room : starts event = true → s.queue.queuedRevision + 1 < 2 ^ 64) :
    Accounted (s.step chunkSize event) ∧ (s.step chunkSize event).queue.queuedRevision ≤
      s.queue.queuedRevision + if starts event then 1 else 0 := by
  cases event with
  | enqueue prefixes => exact ⟨accounted.enqueue prefixes, le_rfl⟩
  | start order =>
    simp only [Injection.step]
    split
    case h_1 isIdle => exact ⟨accounted.start isIdle (room rfl) order _, Nat.mod_le _ _⟩
    · exact ⟨accounted, Nat.le_succ _⟩
  | advance => exact ⟨accounted.advance, (queuedRevision_advance s).le⟩
  | inject remaining failed =>
    simp only [Injection.step]
    split
    case h_1 isController => exact ⟨accounted.inject isController remaining failed, le_rfl⟩
    · exact ⟨accounted, le_rfl⟩

/-- The account is kept until the revisions are used up: a start takes at most one. -/
theorem accounted_run (chunkSize : Nat) (events : List (InjectionEvent Prefix))
    (few : events.countP starts < 2 ^ 64 - 1) :
    Accounted (run (step chunkSize) newInjection events) ∧
      (run (step chunkSize) newInjection events).queue.queuedRevision ≤
        events.countP starts + 1 := by
  induction events using List.reverseRecOn with
  | nil => exact ⟨accounted_newInjection, le_rfl⟩
  | append_singleton events event inductionHypothesis =>
    rw [countP_append, countP_singleton] at few ⊢
    obtain ⟨accounted, bound⟩ := inductionHypothesis (by omega)
    obtain ⟨kept, next⟩ := accounted.step chunkSize event fun isStart => by
      rw [if_pos isStart] at few
      omega
    rw [run_append]
    exact ⟨kept, next.trans (by omega)⟩

/-- **A revision that a caller has waited for has been injected.** In every state in which a wait
for a revision returns, each prefix of each call that returned this revision or an earlier one has
been part of an injection that began after the call and did not hand the prefix back. This holds for
any interleaving and any outcome of the injections, as long as fewer runs have started than there
are revisions. -/
theorem waitForRevision_injected (chunkSize : Nat) (events : List (InjectionEvent Prefix))
    (few : events.countP starts < 2 ^ 64 - 1) (rev : Nat)
    (returns : (run (step chunkSize) newInjection events).queue.waitForRevision rev = true)
    (place revision : Nat) (prefixes : List Prefix)
    (entered : (run (step chunkSize) newInjection events).history[place]? =
      some (.enqueued revision prefixes))
    (covered : revision ≤ rev) (queued : Prefix) (member : queued ∈ prefixes) :
    ∃ since chunk remaining,
      .injected since chunk remaining ∈ (run (step chunkSize) newInjection events).history ∧
        place < since ∧ queued ∈ chunk ∧ queued ∉ remaining := by
  obtain ⟨accounted, -⟩ := accounted_run chunkSize events few
  have published : ¬(run (step chunkSize) newInjection events).queue.injectedRevision < rev :=
    of_decide_eq_true returns
  rcases accounted.entered place revision prefixes entered queued member with done | pending
  · exact done
  · exact absurd (pending.unpublished.trans_le covered) published

/-- Two prefixes are enqueued and one of them fails at first; a third one is enqueued meanwhile. -/
def retriedEvents : List (InjectionEvent Nat) :=
  [.enqueue [1, 2], .start listed, .advance, .enqueue [3], .inject [2] true,
    .advance, .advance, .advance, .start listed, .advance, .inject [] false,
    .advance, .advance, .advance, .advance]

theorem retriedEvents_injected :
    (run (step 512) newInjection retriedEvents).queue.waitForRevision 2 = true ∧
    ∃ since chunk remaining,
      .injected since chunk remaining ∈ (run (step 512) newInjection retriedEvents).history ∧
        0 < since ∧ 2 ∈ chunk ∧ 2 ∉ remaining :=
  ⟨by decide, waitForRevision_injected 512 retriedEvents (by decide) 2 (by decide) 0 1 [1, 2] rfl
    (by decide) 2 (by decide)⟩

/-! ### Revisions that wrap around -/

def emptyRun : List (InjectionEvent Prefix) :=
  [.start listed, .advance, .advance, .advance, .advance]

theorem run_emptyRun (chunkSize revision injected : Nat) :
    run (step chunkSize) { queue := ⟨∅, revision, injected⟩, controller := .idle, history := [] }
        (emptyRun : List (InjectionEvent Prefix)) =
      { queue := ⟨∅, (revision + 1) % 2 ^ 64, revision⟩, controller := .idle, history := [] } :=
  rfl

/-- Runs that find nothing queued use up the revisions. -/
theorem run_emptyRuns (chunkSize count : Nat) :
    run (step chunkSize) (newInjection : Injection Prefix)
        (List.replicate (count + 1) emptyRun).flatten =
      { queue := ⟨∅, (count + 2) % 2 ^ 64, (count + 1) % 2 ^ 64⟩
        controller := .idle
        history := [] } := by
  induction count with
  | zero => rfl
  | succ count inductionHypothesis =>
    have next : ((count + 2) % 2 ^ 64 + 1) % 2 ^ 64 = (count + 1 + 2) % 2 ^ 64 := by omega
    rw [replicate_succ', flatten_append, flatten_singleton, run_append,
      inductionHypothesis, run_emptyRun, next]

/-- After one run less than there are revisions, a prefix is enqueued. -/
def wornEvents : List (InjectionEvent Nat) :=
  (List.replicate (2 ^ 64 - 2 + 1) emptyRun).flatten ++ [.enqueue [1]]

/-- The call returns the revision 0, for which nobody has to wait, and nothing has been injected. -/
theorem wornEvents_not_injected :
    (run (step 512) newInjection wornEvents).queue.waitForRevision 0 = true ∧
    (run (step 512) newInjection wornEvents).history = [.enqueued 0 [1]] := by
  have worn : run (step 512) newInjection wornEvents =
      Injection.enqueue { queue := ⟨∅, (2 ^ 64 - 2 + 2) % 2 ^ 64, (2 ^ 64 - 2 + 1) % 2 ^ 64⟩
                          controller := .idle
                          history := [] } [1] := by
    rw [wornEvents, run_append, run_emptyRuns]
    rfl
  rw [worn]
  exact ⟨by decide, rfl⟩

end Injection

end Constellation.Ipcache
