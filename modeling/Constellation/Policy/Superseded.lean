/-
This file models the lifetime of a computed policy: the endpoints that use it, the holds that keep
it attached until an endpoint registers, and its replacement by a newer policy. All operations
take the lock of the policy, so that a history is a sequence of them. When the policy is
superseded, its users are asked to regenerate; one that registers later is asked only if the
policy has been detached by then. The decision to detach is taken under the lock and carried out
after the lock is released, exactly once however the operations interleave.
-/
import Constellation.Lib.GoMap
import Constellation.Lib.Run

namespace Constellation.Policy

open Lib List IterationOrder

/-! ### The policy and its users -/

/-- A policy of an endpoint, known by its pointer. -/
structure EndpointPolicy (Owner : Type) where
  pointer : Nat
  policyOwner : Owner
  deriving DecidableEq

/-- There are no users, not even an empty set, once the policy is detached. -/
structure L4Policy (Owner : Type) where
  users : Option (GoSet (EndpointPolicy Owner))
  holdCount : Int
  superseded : Bool

/-- With the owners that have been asked to regenerate, in order. -/
structure PolicyHistory (Owner : Type) where
  policy : L4Policy Owner
  regenerations : List Owner

namespace L4Policy

variable {Owner : Type}

def newL4Policy : L4Policy Owner where
  users := some ∅
  holdCount := 0
  superseded := false

/-- No hold is taken if the policy is superseded or detached. The counter wraps around. -/
def addHold (l4 : L4Policy Owner) : L4Policy Owner × Bool :=
  if l4.users.isNone || l4.superseded then (l4, false)
  else ({ l4 with holdCount := (l4.holdCount + 1).bmod (2 ^ 64) }, true)

/-- Detaches a superseded policy that has no users and no holds. -/
def shouldDetachLocked (l4 : L4Policy Owner) : L4Policy Owner × Bool :=
  match l4.users with
  | none => (l4, false)
  | some users =>
    if l4.holdCount = 0 ∧ users.entries.length = 0 ∧ l4.superseded then
      ({ l4 with users := none }, true)
    else (l4, false)

def dropHold (l4 : L4Policy Owner) : L4Policy Owner :=
  { l4 with holdCount := if 0 < l4.holdCount then l4.holdCount - 1 else l4.holdCount }

def releaseHold (l4 : L4Policy Owner) : L4Policy Owner :=
  l4.dropHold.shouldDetachLocked.1

variable [DecidableEq Owner]

/-- Tells whether the owner has to be asked to regenerate. -/
def insertUser (l4 : L4Policy Owner) (user : EndpointPolicy Owner) : L4Policy Owner × Bool :=
  match l4.users with
  | some users => ({ l4 with users := some (users.insert user ()) }, false)
  | none => (l4, true)

def removeUser (l4 : L4Policy Owner) (user : EndpointPolicy Owner) : L4Policy Owner :=
  (shouldDetachLocked { l4 with users := l4.users.map (·.erase user) }).1

/-- The owners of the users are asked to regenerate, except for the endpoint that started the
update. -/
def supersede (getID : Owner → Nat) (order : IterationOrder) (l4 : L4Policy Owner)
    (endpointID : Nat) : L4Policy Owner × List Owner :=
  let owners := (order.visit 0 ((l4.users.map (·.keys)).getD [])).map (·.policyOwner)
  ((shouldDetachLocked { l4 with superseded := true }).1,
    owners.filter fun owner => endpointID ≠ getID owner)

end L4Policy

/-! ### Histories -/

inductive PolicyCall (Owner : Type)
  | addHold
  | releaseHold
  | insertUser (user : EndpointPolicy Owner)
  | removeUser (user : EndpointPolicy Owner)
  | supersede (order : IterationOrder) (endpointID : Nat)

namespace PolicyHistory

variable {Owner : Type} [DecidableEq Owner] (getID : Owner → Nat)

def start : PolicyHistory Owner where
  policy := L4Policy.newL4Policy
  regenerations := []

def step (getID : Owner → Nat) (history : PolicyHistory Owner) :
    PolicyCall Owner → PolicyHistory Owner
  | .addHold => { history with policy := history.policy.addHold.1 }
  | .releaseHold => { history with policy := history.policy.releaseHold }
  | .insertUser user =>
    let (policy, stale) := history.policy.insertUser user
    { policy := policy
      regenerations := history.regenerations ++ if stale then [user.policyOwner] else [] }
  | .removeUser user => { history with policy := history.policy.removeUser user }
  | .supersede order endpointID =>
    let (policy, owners) := history.policy.supersede getID order endpointID
    { policy := policy
      regenerations := history.regenerations ++ owners }

variable (history : PolicyHistory Owner)

def Registered (user : EndpointPolicy Owner) : Prop :=
  ∃ users, history.policy.users = some users ∧ user ∈ users

/-- Nobody registers while the policy is superseded and still attached. -/
def InTime : PolicyCall Owner → Prop
  | .insertUser _ => history.policy.superseded = true → history.policy.users = none
  | _ => True

instance (call : PolicyCall Owner) : Decidable (InTime history call) := by
  cases call <;> delta InTime <;> infer_instance

/-! ### Requests are never withdrawn -/

/-- The owners that a later history has been asked in addition. -/
structure Continues (history later : PolicyHistory Owner) : Prop where
  regenerations : history.regenerations <+: later.regenerations
  superseded : history.policy.superseded = true → later.policy.superseded = true

variable {history later : PolicyHistory Owner}

omit [DecidableEq Owner] in
theorem Continues.trans {last : PolicyHistory Owner} (first : Continues history later)
    (second : Continues later last) : Continues history last :=
  ⟨first.regenerations.trans second.regenerations, second.superseded ∘ first.superseded⟩

omit [DecidableEq Owner] in
theorem Continues.asked (continues : Continues history later) {count : Nat} {owner : Owner}
    (asked : owner ∈ history.regenerations.drop count) :
    owner ∈ later.regenerations.drop count := by
  obtain ⟨rest, grown⟩ := continues.regenerations
  rw [← grown, drop_append]
  exact mem_append_left _ asked

omit [DecidableEq Owner] in
theorem shouldDetachLocked_superseded (l4 : L4Policy Owner) :
    l4.shouldDetachLocked.1.superseded = l4.superseded := by
  unfold L4Policy.shouldDetachLocked
  split
  · rfl
  · split
    · rfl
    · rfl

variable (history : PolicyHistory Owner)

theorem continues_step (call : PolicyCall Owner) : Continues history (history.step getID call) := by
  cases call with
  | addHold =>
    refine ⟨prefix_refl _, fun superseded => ?_⟩
    show history.policy.addHold.1.superseded = true
    unfold L4Policy.addHold
    split
    · exact superseded
    · exact superseded
  | releaseHold =>
    exact ⟨prefix_refl _, fun superseded => (shouldDetachLocked_superseded _).trans superseded⟩
  | insertUser user =>
    refine ⟨prefix_append _ _, fun superseded => ?_⟩
    show (history.policy.insertUser user).1.superseded = true
    unfold L4Policy.insertUser
    split
    · exact superseded
    · exact superseded
  | removeUser user =>
    exact ⟨prefix_refl _, fun superseded => (shouldDetachLocked_superseded _).trans superseded⟩
  | supersede order endpointID =>
    exact ⟨prefix_append _ _, fun _ => shouldDetachLocked_superseded _⟩

theorem continues_run (calls : List (PolicyCall Owner)) :
    Continues history (run (step getID) history calls) :=
  run_invariant (Continues history ·)
    (fun later call before => before.trans (continues_step getID later call))
    ⟨prefix_refl _, id⟩ calls

/-! ### Nobody is left behind -/

/-- The users of a policy that is being superseded are asked, all but the one that started it. -/
theorem supersede_asks (order : IterationOrder) (endpointID : Nat)
    {user : EndpointPolicy Owner} (registered : Registered history user)
    (other : getID user.policyOwner ≠ endpointID) :
    user.policyOwner ∈ (history.step getID (.supersede order endpointID)).regenerations.drop
      history.regenerations.length := by
  obtain ⟨users, isUsers, member⟩ := registered
  show user.policyOwner ∈ (history.regenerations ++
    (history.policy.supersede getID order endpointID).2).drop history.regenerations.length
  rw [drop_left]
  refine mem_filter.mpr ⟨mem_map.mpr ⟨user, ?_, rfl⟩, decide_eq_true other.symm⟩
  rw [isUsers]
  exact (order.mem_visit 0 _ user).mpr member

/-- Who registers with a detached policy is asked. -/
theorem insertUser_asks (user : EndpointPolicy Owner) (detached : history.policy.users = none) :
    (history.step getID (.insertUser user)).regenerations =
      history.regenerations ++ [user.policyOwner] := by
  show history.regenerations ++ (if (history.policy.insertUser user).2 then [user.policyOwner]
    else []) = _
  unfold L4Policy.insertUser
  rw [detached]
  rfl

/-- **Nobody stays on a superseded policy unasked.** If in a run nobody registers while the policy
is superseded and still attached, then from the moment the policy is superseded on all its users but
the one that started it, and all that register afterwards, are asked to regenerate. -/
theorem run_regenerates (getID : Owner → Nat) (calls : List (PolicyCall Owner))
    (inTime : Meets (step getID) InTime start calls) (before after : List (PolicyCall Owner))
    (order : IterationOrder) (endpointID : Nat)
    (isCalls : calls = before ++ .supersede order endpointID :: after) :
    (∀ user, Registered (run (step getID) start before) user → getID user.policyOwner ≠ endpointID →
      user.policyOwner ∈ (run (step getID) start calls).regenerations.drop
        (run (step getID) start before).regenerations.length) ∧
    ∀ middle user rest, after = middle ++ .insertUser user :: rest →
      user.policyOwner ∈ (run (step getID) start calls).regenerations.drop
        (run (step getID) start before).regenerations.length := by
  subst isCalls
  have whole : run (step getID) start (before ++ .supersede order endpointID :: after) =
      run (step getID)
        ((run (step getID) start before).step getID (.supersede order endpointID)) after :=
    run_append start before _
  rw [whole]
  have superseded := continues_step getID (run (step getID) start before)
    (.supersede order endpointID)
  refine ⟨fun user registered other => ?_, fun middle user rest isAfter => ?_⟩
  · exact (continues_run getID _ after).asked
      (supersede_asks getID (run (step getID) start before) order endpointID registered other)
  · subst isAfter
    -- The policy is superseded when the user registers, so that it is detached by then.
    have later := continues_run getID
      ((run (step getID) start before).step getID (.supersede order endpointID)) middle
    have detached := inTime.after.2.after.1 (later.superseded (shouldDetachLocked_superseded _))
    rw [run_append]
    refine (continues_run getID _ rest).asked ?_
    rw [insertUser_asks getID _ user detached,
      drop_append_of_le_length (superseded.trans later).regenerations.length_le]
    exact mem_append_right _ (mem_singleton.mpr rfl)

/-! ### The window -/

/-- A policy is held, and its users register and are removed before it is superseded. -/
def settledCalls : List (PolicyCall Nat) :=
  [.addHold, .insertUser ⟨0, 7⟩, .releaseHold, .supersede listed 0,
    .removeUser ⟨0, 7⟩, .insertUser ⟨1, 8⟩]

theorem settledCalls_regenerate :
    Registered (run (step id) start (settledCalls.take 3)) ⟨0, 7⟩ ∧
    7 ∈ (run (step id) start settledCalls).regenerations ∧
    8 ∈ (run (step id) start settledCalls).regenerations := by
  have asked := run_regenerates id settledCalls (by decide) (settledCalls.take 3)
    (settledCalls.drop 4) listed 0 rfl
  have registered : Registered (run (step id) start (settledCalls.take 3)) ⟨0, 7⟩ :=
    ⟨_, rfl, by decide⟩
  exact ⟨registered, mem_of_mem_drop (asked.1 ⟨0, 7⟩ registered (by decide)),
    mem_of_mem_drop (asked.2 [.removeUser ⟨0, 7⟩] ⟨1, 8⟩ [] rfl)⟩

/-- A hold is taken, the policy is superseded, and only then the endpoint registers. -/
def lateCalls : List (PolicyCall Nat) :=
  [.addHold, .supersede listed 0, .insertUser ⟨0, 7⟩, .releaseHold]

/-- The endpoint is a user of the superseded policy and has not been asked to leave it. -/
theorem lateCalls_unasked :
    (run (step id) start lateCalls).policy.superseded = true ∧
    Registered (run (step id) start lateCalls) ⟨0, 7⟩ ∧
    (run (step id) start lateCalls).regenerations = [] :=
  ⟨rfl, ⟨_, rfl, by decide⟩, rfl⟩

end PolicyHistory

/-! ### Detaching -/

section

variable {Owner : Type}

/-- The policy is superseded and has neither users nor holds. -/
def L4Policy.Unused (l4 : L4Policy Owner) : Prop :=
  l4.superseded = true ∧ l4.holdCount = 0 ∧ ∀ users ∈ l4.users, users.keys = []

/-- A detached policy is unused and has been detached once, another one is in use and has not. -/
def L4Policy.DetachedOnce (l4 : L4Policy Owner) (detachments : Nat) : Prop :=
  l4.users = none ∧ l4.Unused ∧ detachments = 1 ∨ l4.users ≠ none ∧ ¬l4.Unused ∧ detachments = 0

/-- The decision under the lock on a policy that is attached. -/
theorem L4Policy.detachedOnce_shouldDetachLocked {l4 : L4Policy Owner}
    (attached : l4.users ≠ none) :
    l4.shouldDetachLocked.1.DetachedOnce (0 + if l4.shouldDetachLocked.2 then 1 else 0) := by
  obtain ⟨users, isUsers⟩ := Option.ne_none_iff_exists'.mp attached
  unfold shouldDetachLocked
  rw [isUsers]
  dsimp only
  split
  case isTrue idle => exact .inl ⟨rfl, ⟨idle.2.2, idle.1, nofun⟩, rfl⟩
  case isFalse busy =>
    refine .inr ⟨attached, fun unused => busy ⟨unused.2.1, ?_, unused.1⟩, rfl⟩
    exact length_eq_zero_iff.mpr (map_eq_nil_iff.mp (unused.2.2 users isUsers))

/-- With the holds that were granted and not released since, the users that were inserted and not
removed since, and the numbers of operations that have yet to detach the policy and of those that
have done so. -/
structure DetachHistory (Owner : Type) extends PolicyHistory Owner where
  holds : Nat
  inserted : Finset (EndpointPolicy Owner)
  pending : Nat
  finished : Nat

/-- The part under the lock, and the removal of the policy's selectors. -/
inductive PolicyEvent (Owner : Type)
  | locked (call : PolicyCall Owner)
  | finishDetach

variable [DecidableEq Owner]

def L4Policy.needsDetach (l4 : L4Policy Owner) : PolicyCall Owner → Bool
  | .addHold | .insertUser _ => false
  | .releaseHold => l4.dropHold.shouldDetachLocked.2
  | .removeUser user => (shouldDetachLocked { l4 with users := l4.users.map (·.erase user) }).2
  | .supersede _ _ => (shouldDetachLocked { l4 with superseded := true }).2

namespace DetachHistory

variable (getID : Owner → Nat)

def start : DetachHistory Owner :=
  { PolicyHistory.start with holds := 0, inserted := ∅, pending := 0, finished := 0 }

/-- Only an operation that has found that it must do so detaches the policy. -/
def step (state : DetachHistory Owner) : PolicyEvent Owner → DetachHistory Owner
  | .locked call =>
    { state.toPolicyHistory.step getID call with
      holds := match call with
        | .addHold => state.holds + if state.policy.addHold.2 then 1 else 0
        | .releaseHold => state.holds - 1
        | _ => state.holds
      inserted := match call with
        | .insertUser user => insert user state.inserted
        | .removeUser user => state.inserted.erase user
        | _ => state.inserted
      pending := state.pending + if state.policy.needsDetach call then 1 else 0
      finished := state.finished }
  | .finishDetach =>
    { state with pending := state.pending - 1, finished := state.finished + min state.pending 1 }

/-- Holds are released once each, users are inserted by those that hold the policy, and there are
never more holds than a limit. -/
def Disciplined (limit : Nat) (state : DetachHistory Owner) : PolicyEvent Owner → Prop
  | .locked .addHold => state.holds < limit
  | .locked .releaseHold | .locked (.insertUser _) => 0 < state.holds
  | _ => True

instance (limit : Nat) (state : DetachHistory Owner) (event : PolicyEvent Owner) :
    Decidable (state.Disciplined limit event) := by
  unfold Disciplined
  split <;> infer_instance

/-- The policy is superseded, all its holds are released and all its users removed. -/
def Unused (state : DetachHistory Owner) : Prop :=
  state.policy.superseded = true ∧ state.holds = 0 ∧ state.inserted = ∅

instance (state : DetachHistory Owner) : Decidable state.Unused :=
  inferInstanceAs (Decidable (_ ∧ _ ∧ _))

theorem detachedOnce_locked {history : PolicyHistory Owner} {detachments : Nat}
    (once : history.policy.DetachedOnce detachments) (call : PolicyCall Owner) :
    (history.step getID call).policy.DetachedOnce
      (detachments + if history.policy.needsDetach call then 1 else 0) := by
  obtain ⟨⟨users, holdCount, superseded⟩, regenerations⟩ := history
  rcases once with ⟨rfl, ⟨rfl, rfl, _⟩, rfl⟩ | ⟨attached, inUse, rfl⟩
  · cases call with
    | addHold | insertUser user | releaseHold | removeUser user | supersede order endpointID =>
      exact .inl ⟨rfl, ⟨rfl, rfl, nofun⟩, rfl⟩
  · obtain ⟨users, rfl⟩ := Option.ne_none_iff_exists'.mp attached
    cases call with
    | addHold =>
      cases superseded with
      | false => exact .inr ⟨attached, nofun, rfl⟩
      | true => exact .inr ⟨attached, inUse, rfl⟩
    | insertUser user =>
      refine .inr ⟨nofun, fun unused => ?_, rfl⟩
      have member : user ∈ (users.insert user ()).keys := by
        rw [← AList.mem_keys, AList.mem_insert]
        exact .inl rfl
      rw [unused.2.2 _ rfl] at member
      cases member
    | releaseHold | removeUser user | supersede order endpointID =>
      exact L4Policy.detachedOnce_shouldDetachLocked nofun

theorem detachedOnce_step {state : DetachHistory Owner}
    (once : state.policy.DetachedOnce (state.pending + state.finished))
    (event : PolicyEvent Owner) : (state.step getID event).policy.DetachedOnce
      ((state.step getID event).pending + (state.step getID event).finished) := by
  cases event with
  | locked call =>
    have later := detachedOnce_locked getID once call
    rw [Nat.add_right_comm] at later
    exact later
  | finishDetach =>
    show state.policy.DetachedOnce (state.pending - 1 + (state.finished + min state.pending 1))
    rw [show state.pending - 1 + (state.finished + min state.pending 1) =
      state.pending + state.finished by omega]
    exact once

/-- The policy's own records tell the holds and the users. -/
structure Tied (state : DetachHistory Owner) : Prop where
  holds : state.policy.holdCount = state.holds
  bounded : state.holds < 2 ^ 63
  inserted : ∀ user, user ∈ state.inserted ↔ state.Registered user

omit [DecidableEq Owner] in
theorem Tied.unused_iff {state : DetachHistory Owner} (tied : state.Tied) :
    state.policy.Unused ↔ state.Unused := by
  have holds := tied.holds
  refine and_congr_right fun _ => and_congr (by omega) ?_
  rw [Finset.eq_empty_iff_forall_notMem]
  constructor
  · rintro empty user member
    obtain ⟨users, isUsers, member⟩ := (tied.inserted user).mp member
    rw [AList.mem_keys, empty users isUsers] at member
    cases member
  · intro empty users isUsers
    refine eq_nil_iff_forall_not_mem.mpr fun user member => empty user ?_
    exact (tied.inserted user).mpr ⟨users, isUsers, AList.mem_keys.mpr member⟩

theorem bmod_succ {count : Nat} (small : count + 1 < 2 ^ 63) :
    ((count : Int) + 1).bmod (2 ^ 64) = (count + 1 : Nat) := by
  rw [Int.bmod_eq_of_le (by omega) (by omega), Int.natCast_succ]

omit [DecidableEq Owner] in
/-- The decision under the lock leaves the holds as they are, and removes no user. -/
theorem shouldDetachLocked_tied (l4 : L4Policy Owner) :
    l4.shouldDetachLocked.1.holdCount = l4.holdCount ∧ ∀ user,
      (∃ users, l4.shouldDetachLocked.1.users = some users ∧ user ∈ users) ↔
        ∃ users, l4.users = some users ∧ user ∈ users := by
  unfold L4Policy.shouldDetachLocked
  split
  · exact ⟨rfl, fun _ => .rfl⟩
  case h_2 users isUsers =>
    split
    case isTrue idle =>
      refine ⟨rfl, fun user => ⟨nofun, ?_⟩⟩
      rintro ⟨_, same, member⟩
      cases isUsers.symm.trans same
      rw [AList.mem_keys, AList.keys, length_eq_zero_iff.mp idle.2.1] at member
      cases member
    · exact ⟨rfl, fun _ => .rfl⟩

section Tied

variable {state : DetachHistory Owner} (tied : state.Tied)
include tied

theorem Tied.addHold (small : state.holds + 1 < 2 ^ 63) :
    (state.step getID (.locked .addHold)).Tied := by
  obtain ⟨holds, bounded, inserted⟩ := tied
  by_cases refused : (state.policy.users.isNone || state.policy.superseded) = true
  · have same : state.policy.addHold = (state.policy, false) := if_pos refused
    refine ⟨?_, ?_, ?_⟩ <;> dsimp only [DetachHistory.step, PolicyHistory.step] <;> rw [same]
    · exact holds
    · exact bounded
    · exact inserted
  · have granted : state.policy.addHold = ({ state.policy with
        holdCount := (state.policy.holdCount + 1).bmod (2 ^ 64) }, true) := if_neg refused
    refine ⟨?_, ?_, ?_⟩ <;> dsimp only [DetachHistory.step, PolicyHistory.step] <;>
      rw [granted]
    · dsimp only
      rw [holds, if_pos rfl]
      exact bmod_succ small
    · rw [if_pos rfl]
      exact small
    · exact inserted

variable (once : state.policy.DetachedOnce (state.pending + state.finished))
include once

/-- A policy that is held is attached, so that the user is registered. -/
theorem Tied.insertUser (held : 0 < state.holds) (user : EndpointPolicy Owner) :
    (state.step getID (.locked (.insertUser user))).Tied := by
  obtain ⟨holds, bounded, inserted⟩ := tied
  obtain ⟨users, isUsers⟩ : ∃ users, state.policy.users = some users := by
    rcases once with ⟨-, unused, -⟩ | ⟨attached, -, -⟩
    · exact absurd unused.2.1 (by omega)
    · exact Option.ne_none_iff_exists'.mp attached
  have registered : state.policy.insertUser user =
      ({ state.policy with users := some (users.insert user ()) }, false) := by
    unfold L4Policy.insertUser
    rw [isUsers]
  refine ⟨?_, bounded, fun other => ?_⟩ <;> dsimp only [DetachHistory.step, PolicyHistory.step]
  · rw [registered]
    exact holds
  · have before : other ∈ state.inserted ↔ other ∈ users := by
      rw [inserted other]
      unfold PolicyHistory.Registered
      simp [isUsers]
    rw [PolicyHistory.Registered, registered, Finset.mem_insert, before]
    simp [AList.mem_insert]

theorem Tied.step {event : PolicyEvent Owner}
    (disciplined : state.Disciplined (2 ^ 63 - 1) event) : (state.step getID event).Tied := by
  have ⟨holds, bounded, inserted⟩ := tied
  match event with
  | .finishDetach => exact ⟨holds, bounded, inserted⟩
  | .locked .addHold => exact tied.addHold getID (Nat.add_lt_of_lt_sub disciplined)
  | .locked .releaseHold =>
    have held : 0 < state.holds := disciplined
    obtain ⟨counted, users⟩ := shouldDetachLocked_tied state.policy.dropHold
    refine ⟨counted.trans ?_, Nat.lt_of_le_of_lt (Nat.sub_le _ _) bounded, fun user => ?_⟩
    · show (if 0 < state.policy.holdCount then _ else _) = ((state.holds - 1 : Nat) : Int)
      rw [if_pos (by omega)]
      omega
    · exact (inserted user).trans (users user).symm
  | .locked (.insertUser user) => exact tied.insertUser getID once disciplined user
  | .locked (.removeUser user) =>
    obtain ⟨counted, users⟩ := shouldDetachLocked_tied
      { state.policy with users := state.policy.users.map (·.erase user) }
    refine ⟨counted.trans holds, bounded, fun other => Iff.trans ?_ (users other).symm⟩
    dsimp only [DetachHistory.step]
    rw [Finset.mem_erase, inserted other]
    cases isUsers : state.policy.users with
    | none => simp [PolicyHistory.Registered, isUsers]
    | some users => simp [PolicyHistory.Registered, isUsers, AList.mem_erase]
  | .locked (.supersede order endpointID) =>
    obtain ⟨counted, users⟩ := shouldDetachLocked_tied { state.policy with superseded := true }
    exact ⟨counted.trans holds, bounded, fun user => (inserted user).trans (users user).symm⟩

end Tied

/-- **A policy is detached exactly once.** However the parts of the operations interleave, with at
most as many holds at a time as can be counted, the policy is detached at most once, only while it
is superseded, all holds are released and all users removed, and has been detached whenever this is
the case and no operation is about to do so. No hold is taken once the policy is superseded. -/
theorem run_detaches_once (events : List (PolicyEvent Owner))
    (disciplined : Meets (step getID) (Disciplined (2 ^ 63 - 1)) start events) :
    let state := run (step getID) start events
    state.finished ≤ 1 ∧ (0 < state.pending → state.Unused) ∧
    (state.Unused → state.pending = 0 → state.finished = 1) ∧
    ∀ before order endpointID after,
      events = before ++ .locked (.supersede order endpointID) :: after →
        state.policy.addHold.2 = false := by
  intro state
  obtain ⟨once, tied⟩ : state.policy.DetachedOnce (state.pending + state.finished) ∧
      state.Tied := by
    refine disciplined.invariant (fun state => state.policy.DetachedOnce
      (state.pending + state.finished) ∧ state.Tied) (fun state event kept disciplined =>
        ⟨detachedOnce_step getID kept.1 event, kept.2.step getID kept.1 disciplined⟩) ?_
    refine ⟨.inr ⟨nofun, nofun, rfl⟩, rfl, Nat.two_pow_pos _, fun user => ⟨nofun, ?_⟩⟩
    rintro ⟨_, isUsers, member⟩
    cases isUsers
    exact absurd member (AList.notMem_empty user)
  rw [← tied.unused_iff]
  refine ⟨?_, ?_, ?_, fun before order endpointID after isEvents => ?_⟩
  · rcases once with ⟨_, _, one⟩ | ⟨_, _, none⟩ <;> omega
  · intro some
    rcases once with ⟨_, unused, _⟩ | ⟨_, _, none⟩
    · exact unused
    · omega
  · intro unused none
    rcases once with ⟨_, _, one⟩ | ⟨_, inUse, _⟩
    · omega
    · exact absurd unused inUse
  · have superseded : state.policy.superseded = true := by
      subst isEvents
      rw [show state = _ from run_append start before _]
      refine run_invariant (fun state : DetachHistory Owner => state.policy.superseded = true)
        (fun state event superseded => ?_) (PolicyHistory.shouldDetachLocked_superseded _) after
      cases event with
      | locked call => exact (state.continues_step getID call).superseded superseded
      | finishDetach => exact superseded
    unfold L4Policy.addHold
    rw [superseded, Bool.or_true, if_pos rfl]

def leftEvents : List (PolicyEvent Nat) :=
  [.locked .addHold, .locked (.insertUser ⟨0, 7⟩), .locked .releaseHold,
    .locked (.supersede listed 0), .locked (.removeUser ⟨0, 7⟩), .finishDetach]

theorem leftEvents_detached_once :
    Meets (step id) (Disciplined (2 ^ 63 - 1)) start leftEvents ∧
      (run (step id) start leftEvents).finished = 1 :=
  ⟨by decide, (run_detaches_once id leftEvents (by decide)).2.2.1 (by decide) rfl⟩

def heldBy (holdCount : Int) (holds : Nat) : DetachHistory Nat :=
  { start with policy := { L4Policy.newL4Policy with holdCount }, holds }

/-- One hold more than can be counted is taken, all are released, and the policy is superseded. -/
def wornEvents : List (PolicyEvent Nat) :=
  replicate (2 ^ 63) (.locked .addHold) ++
    (replicate (2 ^ 63) (.locked .releaseHold) ++ [.locked (.supersede listed 0)])

theorem heldBy_addHold (holdCount : Int) (holds : Nat) :
    step id (heldBy holdCount holds) (.locked .addHold) =
      heldBy ((holdCount + 1).bmod (2 ^ 64)) (holds + 1) := rfl

theorem heldBy_addHolds {limit : Nat} (count holds : Nat) (few : holds + count ≤ limit) :
    Meets (step id) (Disciplined limit) (heldBy ((holds : Int).bmod (2 ^ 64)) holds)
        (replicate count (.locked .addHold)) ∧
      run (step id) (heldBy ((holds : Int).bmod (2 ^ 64)) holds)
        (replicate count (.locked .addHold)) =
          heldBy (((holds + count : Nat) : Int).bmod (2 ^ 64)) (holds + count) := by
  induction count generalizing holds with
  | zero => exact ⟨trivial, rfl⟩
  | succ count inductionHypothesis =>
    have next : step id (heldBy ((holds : Int).bmod (2 ^ 64)) holds) (.locked .addHold) =
        heldBy (((holds + 1 : Nat) : Int).bmod (2 ^ 64)) (holds + 1) := by
      rw [heldBy_addHold, Int.bmod_add_bmod, Nat.cast_add_one]
    obtain ⟨meets, last⟩ := inductionHypothesis (holds + 1) (by omega)
    rw [← next] at meets
    refine ⟨⟨show holds < limit by omega, meets⟩, ?_⟩
    rw [replicate_succ, run, foldl_cons, next, Nat.add_comm count 1, ← Nat.add_assoc]
    exact last

/-- The counter is negative and stays so. -/
theorem heldBy_releaseHolds (holds : Nat) :
    Meets (step id) (Disciplined (2 ^ 63)) (heldBy (-2 ^ 63) holds)
        (replicate holds (.locked .releaseHold)) ∧
      run (step id) (heldBy (-2 ^ 63) holds) (replicate holds (.locked .releaseHold)) =
        heldBy (-2 ^ 63) 0 := by
  induction holds with
  | zero => exact ⟨trivial, rfl⟩
  | succ holds inductionHypothesis =>
    have next : step id (heldBy (-2 ^ 63) (holds + 1)) (.locked .releaseHold) =
        heldBy (-2 ^ 63) holds := rfl
    rw [← next] at inductionHypothesis
    exact ⟨⟨Nat.succ_pos holds, inductionHypothesis.1⟩, inductionHypothesis.2⟩

/-- The policy is unused and is never detached. -/
theorem wornEvents_not_detached :
    Meets (step id) (Disciplined (2 ^ 63)) start wornEvents ∧
      (run (step id) start wornEvents).Unused ∧ (run (step id) start wornEvents).pending = 0 ∧
      (run (step id) start wornEvents).finished = 0 := by
  have fresh : heldBy (((0 : Nat) : Int).bmod (2 ^ 64)) 0 = start := rfl
  have wrapped : ((0 + 2 ^ 63 : Nat) : Int).bmod (2 ^ 64) = -2 ^ 63 := by decide
  obtain ⟨taken, held⟩ := heldBy_addHolds (2 ^ 63) 0 (Nat.le_of_eq (Nat.zero_add (2 ^ 63)))
  rw [fresh] at taken
  rw [fresh, wrapped, Nat.zero_add] at held
  obtain ⟨dropped, left⟩ := heldBy_releaseHolds (2 ^ 63)
  have dropsAll : Meets (step id) (Disciplined (2 ^ 63)) (heldBy (-2 ^ 63) (2 ^ 63))
      (replicate (2 ^ 63) (.locked .releaseHold) ++ [.locked (.supersede listed 0)]) :=
    dropped.append ⟨trivial, trivial⟩
  have last : run (step id) start wornEvents =
      step id (heldBy (-2 ^ 63) 0) (.locked (.supersede listed 0)) := by
    rw [wornEvents, run_append, held, run_append, left]
    rfl
  rw [last]
  rw [← held] at dropsAll
  exact ⟨taken.append dropsAll, by decide, rfl, rfl⟩

end DetachHistory

end

end Constellation.Policy
