/-
This file proves that the count of a local key of the kvstore allocator is the number of its
users, and of the call that holds the mutex if it has taken a reference. This holds in every
interleaving in which no call recreates a lost master key for a key that is in use locally: such a
call returns the identity without taking a reference.
-/

import Constellation.Kvstore.Allocate

namespace Constellation.Kvstore

open Lib GoMap List AList Function LocalKeys

/-! ### References -/

def Section.taken : Section → List ID
  | .checking id | .creating id | .acquiring id => [id]
  | .recreating _ | .selecting => []

namespace Allocator

def taken (a : Allocator) (key : String) : List ID :=
  match a.holder with
  | some h => if h.key = key then h.stage.taken else []
  | none => []

/-- Those of its users, and that of the holder of the mutex. -/
def references (a : Allocator) (key : String) : List ID := a.users key ++ a.taken key

def refcnt (a : Allocator) (key : String) : Nat :=
  ((a.localKeys.lookup key).map LocalKey.refcnt).getD 0

/-- A count is the number of the references, all users of a key have the same identity, and the node
gives its reference on a key up only for the last user. -/
structure Counted (a : Allocator) : Prop where
  count : ∀ key, a.refcnt key = (a.references key).length
  same : ∀ key, ∀ first ∈ a.users key, ∀ second ∈ a.users key, first = second
  last : ∀ key keys, a.localKeys.release key = some (keys, true) → (a.references key).length = 1

end Allocator

/-! ### One key -/

def Counts (entry : Option LocalKey) (references : List ID) : Prop :=
  match entry with
  | none => references = []
  | some localKey => localKey.refcnt = references.length ∧ references ≠ [] ∧ localKey.val ≠ 0 ∧
    references.length < 2 ^ 64 ∧ ∀ id ∈ references, id = localKey.val

namespace Counts

variable {entry : Option LocalKey} {localKey : LocalKey} {references : List ID} {id : ID}

section

variable (counts : Counts entry references)
include counts

theorem perm {others : List ID} (same : others.Perm references) : Counts entry others := by
  cases entry with
  | none => exact perm_nil.mp (Eq.subst (motive := others.Perm) counts same)
  | some localKey =>
    obtain ⟨count, some, val, room, all⟩ := counts
    refine ⟨count.trans same.length_eq.symm, fun none => some ?_, val, same.length_eq ▸ room,
      fun id member => all id (same.mem_iff.mp member)⟩
    rw [none] at same
    exact nil_perm.mp same

theorem length_eq : (entry.map LocalKey.refcnt).getD 0 = references.length := by
  cases entry with
  | none => exact (congrArg List.length counts).symm
  | some localKey => exact counts.1

theorem eq_of_mem {first second : ID} (isFirst : first ∈ references)
    (isSecond : second ∈ references) : first = second := by
  cases entry with
  | none => exact absurd isFirst (counts ▸ not_mem_nil)
  | some localKey =>
    obtain ⟨-, -, -, -, all⟩ := counts
    exact (all first isFirst).trans (all second isSecond).symm

end

theorem increment (counts : Counts (some localKey) references)
    (room : references.length + 1 < 2 ^ 64) :
    Counts (some localKey.increment) (localKey.val :: references) := by
  obtain ⟨count, -, val, -, all⟩ := counts
  refine ⟨?_, cons_ne_nil _ _, val, room, forall_mem_cons.mpr ⟨rfl, all⟩⟩
  rw [length_cons, ← count]
  exact Nat.mod_eq_of_lt (count ▸ room)

theorem first (counts : Counts none references) (given : id ≠ 0) :
    Counts (some { val := id, refcnt := 1 }) (id :: references) := by
  obtain rfl : references = [] := counts
  exact ⟨rfl, cons_ne_nil _ _, given, Nat.one_lt_two_pow (by decide),
    fun other member => mem_singleton.mp member⟩

variable (counts : Counts (some localKey) (id :: references))
include counts

theorem decrement_refcnt : localKey.decrement.refcnt = references.length := by
  obtain ⟨count, -, -, room, -⟩ := counts
  rw [length_cons] at count
  show (if localKey.refcnt = 0 then _ else _) = _
  rw [if_neg (by omega), count, Nat.add_sub_cancel]

theorem decrement :
    Counts (if localKey.decrement.refcnt = 0 then none else some localKey.decrement)
      references := by
  have count := counts.decrement_refcnt
  obtain ⟨-, -, val, room, all⟩ := counts
  rw [length_cons] at room
  by_cases none : localKey.decrement.refcnt = 0
  · rw [if_pos none]
    exact length_eq_zero_iff.mp (count.symm.trans none)
  · rw [if_neg none]
    exact ⟨count, fun empty => none (count.trans (by rw [empty]; rfl)), val, by omega,
      (forall_mem_cons.mp all).2⟩

end Counts

/-! ### The operations on local keys -/

namespace LocalKeys

variable {keys later : LocalKeys} {key : String} {references : List ID} {id : ID}

def Only (key : String) (keys later : LocalKeys) : Prop :=
  ∀ other, other ≠ key → later.lookup other = keys.lookup other

theorem insert_counts {localKey : LocalKey} (counts : Counts (some localKey) references) :
    Only key keys (keys.insert key localKey) ∧
      Counts ((keys.insert key localKey).lookup key) references := by
  rw [lookup_insert]
  exact ⟨fun _ differs => lookup_insert_ne differs, counts⟩

theorem allocate_counts (counts : Counts (keys.lookup key) references) (given : id ≠ 0)
    (room : references.length + 1 < 2 ^ 64) {oldID : ID}
    (result : keys.allocate key id = some (later, oldID)) :
    oldID = id ∧ Only key keys later ∧ Counts (later.lookup key) (id :: references) := by
  unfold allocate at result
  split at result
  case h_1 localKey found =>
    split at result
    · cases result
    case isFalse same =>
      cases result
      obtain rfl := not_not.mp same
      rw [found] at counts
      exact ⟨rfl, insert_counts (counts.increment room)⟩
  case h_2 missing =>
    cases result
    rw [missing] at counts
    exact ⟨rfl, insert_counts (counts.first given)⟩

theorem use_counts (counts : Counts (keys.lookup key) references)
    (room : references.length + 1 < 2 ^ 64) :
    (keys.use key).2 = 0 ∧ (keys.use key).1 = keys ∨
      (keys.use key).2 ≠ 0 ∧ Only key keys (keys.use key).1 ∧
        Counts ((keys.use key).1.lookup key) ((keys.use key).2 :: references) := by
  unfold use
  split
  case h_1 localKey found =>
    rw [found] at counts
    split
    · exact .inl ⟨rfl, rfl⟩
    · exact .inr ⟨counts.2.2.1, insert_counts (counts.increment room)⟩
  · exact .inl ⟨rfl, rfl⟩

theorem release_counts (counts : Counts (keys.lookup key) (id :: references)) :
    ∃ later lastUse, keys.release key = some (later, lastUse) ∧ Only key keys later ∧
      Counts (later.lookup key) references ∧ (lastUse = true → references = []) := by
  unfold release
  generalize keys.lookup key = found at counts
  cases found with
  | none => cases counts
  | some localKey =>
    have less := counts.decrement
    simp only
    by_cases none : localKey.decrement.refcnt = 0
    · rw [if_pos none] at less ⊢
      exact ⟨_, true, rfl, fun _ differs => lookup_erase_ne differs,
        by rw [lookup_erase]; exact less, fun _ => less⟩
    · rw [if_neg none] at less ⊢
      obtain ⟨only, counts⟩ := insert_counts less
      exact ⟨_, false, rfl, only, counts, fun last => (nomatch last)⟩

theorem release_of_nil (counts : Counts (keys.lookup key) []) : keys.release key = none := by
  unfold release
  generalize keys.lookup key = found at counts
  cases found with
  | none => rfl
  | some localKey => exact absurd rfl counts.2.1

theorem verify_counts (counts : Counts (keys.lookup key) references) :
    Only key keys (keys.verify key) ∧ Counts ((keys.verify key).lookup key) references := by
  unfold verify
  cases found : keys.lookup key with
  | none =>
    rw [found] at counts
    exact ⟨fun _ _ => rfl, by rw [found]; exact counts⟩
  | some localKey =>
    rw [found] at counts
    exact insert_counts counts

end LocalKeys

/-! ### Steps -/

namespace Allocator

variable {a later : Allocator} {key : String} {h : Holder}

def Sound (a : Allocator) : Prop :=
  ∀ key, Counts (a.localKeys.lookup key) (a.references key)

/-- A step that changes the entry of one key, and the references on no other. -/
theorem Sound.change (sound : a.Sound) (only : LocalKeys.Only key a.localKeys later.localKeys)
    (others : ∀ other, other ≠ key → later.references other = a.references other)
    (counts : Counts (later.localKeys.lookup key) (later.references key)) : later.Sound := by
  intro other
  by_cases same : other = key
  · rw [same]
    exact counts
  · rw [only other same, others other same]
    exact sound other

theorem references_of_holder (holds : a.holder = some h) (key : String) :
    a.references key = a.users key ++ if h.key = key then h.stage.taken else [] := by
  unfold references taken
  rw [holds]

theorem references_of_free (free : a.holder = none) (key : String) :
    a.references key = a.users key := by
  unfold references taken
  rw [free, append_nil]

theorem Sound.fail (sound : a.Sound) (none : ∀ key, a.references key = a.users key)
    (h : Holder) : (a.fail h).Sound := by
  intro key
  have users : (a.fail h).references key = a.users key := references_of_free rfl key
  rw [users, ← none]
  exact sound key

theorem users_of_taken_nil (holds : a.holder = some h) (nothing : h.stage.taken = [])
    (key : String) : a.references key = a.users key := by
  rw [references_of_holder holds, nothing, ite_self, append_nil]

variable {id : ID}

section

variable (sound : a.Sound)
include sound

theorem Sound.failReleasing (holds : a.holder = some h)
    (took : h.stage.taken = [id]) : (a.failReleasing h).Sound := by
  have before := references_of_holder holds
  have here : Counts (a.localKeys.lookup h.key) (id :: a.users h.key) := by
    refine (sound h.key).perm ?_
    rw [before, if_pos rfl, took]
    exact perm_append_singleton id (a.users h.key) |>.symm
  obtain ⟨keys, lastUse, result, only, counts, -⟩ := release_counts here
  unfold Allocator.failReleasing
  simp only [result]
  refine sound.change only (fun other differs => ?_) ?_
  · rw [before, if_neg differs.symm, append_nil]
    exact references_of_free rfl other
  · rw [references_of_free rfl]
    exact counts

theorem Sound.take (none : ∀ key, a.references key = a.users key) (given : id ≠ 0)
    (room : (a.references h.key).length + 1 < 2 ^ 64) {keys : LocalKeys} {oldID : ID}
    (result : a.localKeys.allocate h.key id = some (keys, oldID))
    (sameKeys : later.localKeys = keys) (sameUsers : later.users = a.users)
    (holds : later.holder = some h) (took : h.stage.taken = [id]) : later.Sound := by
  obtain ⟨-, only, counts⟩ := allocate_counts (sound h.key) given room result
  have after := references_of_holder holds
  rw [← sameKeys] at only counts
  refine sound.change only (fun other differs => ?_) (counts.perm ?_)
  · rw [after, if_neg differs.symm, append_nil, sameUsers, none]
  · rw [after, if_pos rfl, took, sameUsers, none]
    exact perm_append_singleton id (a.users h.key)

/-- The holder goes on with the reference it has. -/
theorem Sound.proceedTo (holds : a.holder = some h) {stage : Section}
    (same : stage.taken = h.stage.taken) : (a.proceedTo h stage).Sound := by
  intro key
  have after : (a.proceedTo h stage).references key = a.references key := by
    rw [references_of_holder holds, references_of_holder rfl]
    exact congrArg (a.users key ++ ·) (by rw [same])
  rw [after]
  exact sound key

theorem Sound.acquired (holds : a.holder = some h) (took : h.stage.taken = [id])
    (c : Call) (isKey : c.key = h.key) :
    (succeed { a with localKeys := a.localKeys.verify h.key, holder := none } h.call c
      id).Sound := by
  have before := references_of_holder holds
  obtain ⟨only, counts⟩ := verify_counts (sound h.key)
  refine sound.change only (fun other differs => ?_) (counts.perm ?_)
  · rw [references_of_free rfl, before, if_neg differs.symm, append_nil]
    exact update_of_ne (isKey ▸ differs) _ _
  · rw [references_of_free rfl, before, if_pos rfl, took, ← isKey]
    show (Function.update a.users c.key (id :: a.users c.key) c.key).Perm _
    rw [update_self]
    exact (perm_append_singleton id (a.users c.key)).symm

theorem Sound.use (call left : Nat) (room : (a.references key).length + 1 < 2 ^ 64)
    (reply : Option ID) : (a.resume call ⟨key, left, .attempt⟩ reply).Sound := by
  simp only [resume]
  rcases use_counts (sound key) room with ⟨none, same⟩ | ⟨some, only, counts⟩
  · rw [if_neg (not_not.mpr none), same]
    exact sound
  · rw [if_pos some]
    refine sound.change only (fun other differs => ?_) (counts.perm ?_)
    · exact congrArg (· ++ a.taken other) (update_of_ne differs _ _)
    · refine List.Perm.of_eq ?_
      show Function.update a.users key _ key ++ a.taken key = _
      rw [update_self]
      rfl

theorem Sound.enter (free : a.holder = none) (call : Nat) (c : Call)
    (room : (a.references c.key).length + 1 < 2 ^ 64) (value : ID) :
    (a.enter call c value).Sound := by
  have none := references_of_free free
  have started : ∀ stage : Section, stage.taken = [] →
      ((a.goto call c .inside).proceedTo ⟨call, c.key, c.left, .selecting⟩ stage).Sound := by
    intro stage nothing key
    rw [users_of_taken_nil rfl nothing]
    exact none key ▸ sound key
  unfold Allocator.enter
  split
  · split
    · exact started _ rfl
    · exact started _ rfl
  case isFalse given =>
    cases result : a.localKeys.allocate c.key value with
    | none => exact sound.fail none _
    | some allocated => exact sound.take none given room result rfl rfl rfl rfl

theorem Sound.resume (call : Nat) (c : Call)
    (room : (a.references c.key).length + 1 < 2 ^ 64) (reply : Option ID) :
    (a.resume call c reply).Sound := by
  obtain ⟨key, left, stage⟩ := c
  cases stage with
  | attempt => exact sound.use call left room reply
  | locked value =>
    simp only [Allocator.resume]
    split
    · exact sound
    case isFalse free => exact sound.enter (Option.not_isSome_iff_eq_none.mp free) call _ room value
  | locking | failed =>
    simp only [Allocator.resume]
    split <;> exact sound
  | inside | returned id => exact sound

theorem Sound.proceed (holds : a.holder = some h)
    (room : (a.references h.key).length + 1 < 2 ^ 64) (reply : Option ID)
    (known : reply.isSome → ∀ value, h.stage ≠ .recreating value) :
    (a.proceed h reply).Sound := by
  obtain ⟨call, key, left, stage⟩ := h
  simp only [Allocator.proceed]
  cases stage with
  | recreating value =>
    cases reply with
    | none => exact sound.fail (users_of_taken_nil holds rfl) _
    | some id => exact absurd rfl (known rfl value)
  | selecting =>
    have none := users_of_taken_nil holds rfl
    match reply with
    | .none | some 0 => exact sound.fail none _
    | some (id + 1) =>
      simp only
      cases result : a.localKeys.allocate key (id + 1) with
      | none => exact sound.fail none _
      | some allocated =>
        obtain ⟨same, -, -⟩ := allocate_counts (sound key) (Nat.succ_ne_zero id) room result
        simp only
        rw [if_neg (not_not.mpr same.symm)]
        exact sound.take (h := ⟨call, key, left, .checking (id + 1)⟩) none (Nat.succ_ne_zero id)
          room result rfl rfl rfl rfl
  | checking id =>
    simp only
    split
    · exact sound.proceedTo holds rfl
    · exact sound.failReleasing holds rfl
  | creating id =>
    cases reply with
    | none => exact sound.failReleasing holds rfl
    | some _ => exact sound.proceedTo holds rfl
  | acquiring id =>
    cases reply with
    | none => exact sound.failReleasing holds rfl
    | some _ => exact sound.acquired holds rfl _ rfl

theorem Sound.release (free : a.holder = none) (key : String) :
    (a.release key).Sound := by
  have none := references_of_free free
  cases users : a.users key with
  | nil =>
    have counts := sound key
    rw [none, users] at counts
    unfold Allocator.release
    rw [release_of_nil counts]
    exact sound
  | cons id rest =>
    have here : Counts (a.localKeys.lookup key) (id :: rest) := by
      rw [← users, ← none]
      exact sound key
    obtain ⟨keys, lastUse, result, only, counts, -⟩ := release_counts here
    unfold Allocator.release
    simp only [result]
    refine sound.change only (fun other differs => ?_) ?_
    · exact congrArg₂ (· ++ ·) (update_of_ne differs _ _) rfl
    · have after : Function.update a.users key (a.users key).tail key = rest := by
        rw [update_self, users]
        rfl
      rw [references_of_free (by exact free)]
      show Counts _ (Function.update a.users key (a.users key).tail key)
      rw [after]
      exact counts

end

end Allocator

/-! ### Runs -/

def Section.isRecreating : Section → Bool
  | .recreating _ => true
  | _ => false

/-- No call recreates the master key of a key that is known locally, and no reference count is
full. -/
def Event.Allowed (a : Allocator) : Event → Prop
  | .resume call _ => ∀ c ∈ a.calls call, (a.references c.key).length + 1 < 2 ^ 64
  | .proceed reply => ∀ h ∈ a.holder, (a.references h.key).length + 1 < 2 ^ 64 ∧
    (reply.isSome → h.stage.isRecreating = false)
  | .allocate _ _ _ | .release _ => True

instance (a : Allocator) (event : Event) : Decidable (event.Allowed a) :=
  match event with
  | .resume _ _ | .proceed _ => inferInstanceAs (Decidable (∀ _ ∈ _, _))
  | .allocate _ _ _ | .release _ => isTrue trivial

namespace Allocator

variable {a : Allocator}

theorem Sound.step (sound : a.Sound) {event : Event} (allowed : event.Allowed a) :
    (a.step event).Sound := by
  cases event with
  | allocate call key left =>
    simp only [Allocator.step]
    split
    · exact sound
    · exact sound
  | resume call reply =>
    simp only [Allocator.step]
    split
    case h_1 c found => exact sound.resume call c (allowed c found) reply
    · exact sound
  | proceed reply =>
    simp only [Allocator.step]
    split
    case h_1 h holds =>
      obtain ⟨room, known⟩ := allowed h holds
      refine sound.proceed holds room reply fun isSome value recreating => ?_
      have isFalse := known isSome
      rw [recreating] at isFalse
      cases isFalse
    · exact sound
  | release key =>
    simp only [Allocator.step]
    split
    · exact sound
    case isFalse free => exact sound.release (Option.not_isSome_iff_eq_none.mp free) key

/-- A state whose entries count their references is counted right. -/
theorem Sound.counted (sound : a.Sound) : a.Counted := by
  refine ⟨fun key => (sound key).length_eq, fun key first isFirst second isSecond =>
    (sound key).eq_of_mem (mem_append_left _ isFirst) (mem_append_left _ isSecond),
    fun key keys result => ?_⟩
  have counts := sound key
  generalize a.references key = references at counts
  cases references with
  | nil => cases (release_of_nil counts).symm.trans result
  | cons id rest =>
    obtain ⟨_, lastUse, released, -, -, last⟩ := release_counts counts
    obtain ⟨-, rfl⟩ := Prod.mk.inj (Option.some.inj (released.symm.trans result))
    rw [last rfl]
    rfl

/-- In every interleaving in which no call recreates a lost master key for a key that is known
locally, the keys are counted right in every state. -/
theorem run_counted (events : List Event)
    (allowed : Meets step (fun a e => e.Allowed a) {} events) : (run step {} events).Counted := by
  refine (Meets.invariant Sound (fun _ _ sound meets => sound.step meets) ?_ allowed).counted
  exact fun key => (rfl : references {} key = [])

/-- Two calls allocate one key, the first a new identity for it and the second the one it finds, and
the first user releases it. -/
def twoUsers : List Event :=
  [.allocate 0 "k" 0, .allocate 1 "k" 0, .resume 0 none, .resume 1 none, .resume 0 (some 0),
    .resume 0 none, .proceed (some 7), .proceed (some 0), .proceed (some 0), .proceed (some 0),
    .resume 1 (some 7), .resume 1 none, .proceed (some 0), .release "k"]

theorem twoUsers_counted :
    Meets step (fun a e => e.Allowed a) {} twoUsers ∧ (run step {} twoUsers).Counted :=
  have allowed : Meets step (fun a e => e.Allowed a) {} twoUsers := by decide +kernel
  ⟨allowed, run_counted twoUsers allowed⟩

/-- As before, but the kvstore has lost the master key when the second call reads it. -/
def lostMasterKey : List Event :=
  [.allocate 0 "k" 0, .allocate 1 "k" 0, .resume 0 none, .resume 1 none, .resume 0 (some 0),
    .resume 0 none, .proceed (some 7), .proceed (some 0), .proceed (some 0), .proceed (some 0),
    .resume 1 (some 0), .resume 1 none, .proceed (some 0), .proceed (some 0)]

/-- Both calls return the identity, the count is one, and the first `Release` is taken for the
last. -/
theorem lostMasterKey_miscounted :
    (run step {} lostMasterKey).users "k" = [7, 7] ∧ (run step {} lostMasterKey).holder = none ∧
      (run step {} lostMasterKey).refcnt "k" = 1 ∧
      ((run step {} lostMasterKey).localKeys.release "k").map Prod.snd = some true ∧
      ¬ (run step {} lostMasterKey).Counted := by
  refine ⟨by decide +kernel, by decide +kernel, by decide +kernel, by decide +kernel,
    fun counted => ?_⟩
  have count := counted.count "k"
  revert count
  decide +kernel

end Allocator

end Constellation.Kvstore
