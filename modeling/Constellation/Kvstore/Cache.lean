/-
This file models the cache of the kvstore allocator, `pkg/allocator/cache.go`, after the initial
list. Several identities may have one key, and an update or the deletion of any of them takes the
key out of the index. Events that a validator rejects do not reach the cache.
-/

import Constellation.Kvstore.Allocate

namespace Constellation.Kvstore

open Lib GoMap

/-- The key of an entry may be absent. -/
structure Cache where
  nextCache : GoMap ID (Option String) := ∅
  nextKeyCache : GoMap String ID := ∅

/-- An identity that is in use locally may be created again instead of being deleted. -/
inductive CacheEvent
  | onUpsert (id : ID) (key : Option String)
  | onDelete (id : ID) (recreated : Bool)
  | insert (key : Option String) (val : ID)

namespace Cache

variable (cache : Cache) (id : ID)

/-- None where the source has the identity zero. -/
def get (key : String) : Option ID := cache.nextKeyCache.lookup key

def dropKey : GoMap String ID :=
  (cache.nextCache.lookup id).join.elim cache.nextKeyCache cache.nextKeyCache.erase

def write (key : Option String) (index : GoMap String ID) : Cache :=
  ⟨cache.nextCache.insert id key, key.elim index (index.insert · id)⟩

/-- An event has no result where an entry is asked for a key that it does not have. -/
def handle : CacheEvent → Option Cache
  | .onUpsert id key =>
    if cache.nextCache.lookup id = some none then none
    else some (cache.write id key (cache.dropKey id))
  | .onDelete id recreated =>
    some (if recreated then cache else ⟨cache.nextCache.erase id, cache.dropKey id⟩)
  | .insert key val => key.map fun key => cache.write val (some key) cache.nextKeyCache

abbrev Has (key : String) : Prop := cache.nextCache.lookup id = some (some key)

/-- The lookup of a key gives an identity with that key, if there is one, and else none. -/
structure Finds : Prop where
  sound : ∀ {key id}, cache.get key = some id → cache.Has id key
  complete : ∀ {id key}, cache.Has id key → cache.get key ≠ none

def Alone (key : String) : Prop := ∀ other, cache.Has other key → other = id

/-- An event does not ask for a key that is not there, does not take a key out of the index that
another identity has, and leaves none in it that its identity loses. -/
def Unshared : CacheEvent → Prop
  | .onUpsert id key => cache.nextCache.lookup id ≠ some none ∧
    ∀ old, cache.Has id old → key = some old ∨ cache.Alone id old
  | .onDelete id recreated => recreated = true ∨ ∀ old, cache.Has id old → cache.Alone id old
  | .insert key val => key ≠ none ∧ ∀ old, cache.get old = some val → key = some old

variable {cache id} {later : Cache} {index : GoMap String ID}

theorem lookup_write (entry : Option String) (key : String) :
    (cache.write id entry index).nextKeyCache.lookup key =
      if some entry = some (some key) then some id else index.lookup key := by
  cases entry with
  | none => rfl
  | some own => simp [write, lookup_insert_if, eq_comm]

theorem lookup_dropKey (key : String) : (cache.dropKey id).lookup key =
    if cache.Has id key then none else cache.nextKeyCache.lookup key := by
  unfold dropKey Has
  rcases cache.nextCache.lookup id with _ | _ | old
  · rfl
  · rfl
  · simp [lookup_erase_if, eq_comm]

namespace Finds

variable (finds : cache.Finds)

include finds

/-- A new entry of an identity, put into an index that has no other key for the identity and has
the keys of the other identities. -/
theorem change {entry : Option (Option String)} (entries : ∀ other, later.nextCache.lookup other =
      if other = id then entry else cache.nextCache.lookup other)
    (added : ∀ key, later.nextKeyCache.lookup key =
      if entry = some (some key) then some id else index.lookup key)
    (kept : ∀ key, entry ≠ some (some key) →
      (index.lookup key = none ∧ cache.Alone id key) ∨
        index.lookup key = cache.get key ∧ cache.get key ≠ some id) : later.Finds where
  sound {key other} found := by
    rw [get, added] at found
    rw [Has, entries]
    split at found
    case isTrue renewed =>
      cases found
      rw [if_pos rfl, renewed]
    case isFalse gone =>
      rcases kept key gone with ⟨none, _⟩ | ⟨same, differ⟩
      · cases none.symm.trans found
      · rw [same] at found
        rw [if_neg fun equal : other = id => differ (equal ▸ found)]
        exact finds.sound found
  complete {other key} has := by
    rw [Has, entries] at has
    rw [get, added]
    split
    · nofun
    case isFalse gone =>
      split at has
      · exact absurd has gone
      case isFalse differ =>
        rcases kept key gone with ⟨_, alone⟩ | ⟨same, _⟩
        · exact absurd (alone other has) differ
        · rw [same]
          exact finds.complete has

theorem kept_dropKey {key : String} (alone : cache.Has id key → cache.Alone id key) :
    ((cache.dropKey id).lookup key = none ∧ cache.Alone id key) ∨
      (cache.dropKey id).lookup key = cache.get key ∧ cache.get key ≠ some id := by
  rw [lookup_dropKey]
  split
  case isTrue has => exact .inl ⟨rfl, alone has⟩
  case isFalse lacks => exact .inr ⟨rfl, fun found => lacks (finds.sound found)⟩

theorem handle {event : CacheEvent} (unshared : cache.Unshared event) :
    ∃ later, cache.handle event = some later ∧ later.Finds := by
  cases event with
  | onUpsert id key =>
    refine ⟨_, if_neg unshared.1, finds.change (lookup_insert_if _ _ · _) (lookup_write key) ?_⟩
    exact fun old gone => finds.kept_dropKey fun has =>
      (unshared.2 old has).resolve_left fun same => gone (congrArg some same)
  | onDelete id recreated =>
    refine ⟨_, rfl, ?_⟩
    split
    · exact finds
    case isFalse deleted =>
      refine finds.change (lookup_erase_if _ _) (fun _ => rfl) fun old _ => finds.kept_dropKey ?_
      exact unshared.resolve_left deleted old
  | insert key val =>
    obtain ⟨own, rfl⟩ := Option.ne_none_iff_exists'.mp unshared.1
    refine ⟨_, rfl, finds.change (lookup_insert_if _ _ · _) (lookup_write _) fun old gone => ?_⟩
    exact .inr ⟨rfl, fun found => gone (congrArg some (unshared.2 old found))⟩

end Finds

end Cache

/-- After an event without a result there is no cache. -/
def cacheStep (state : Option Cache) (event : CacheEvent) : Option Cache :=
  state.bind (·.handle event)

/-- After a run of such events there is a cache, and it finds every key. -/
theorem finds_of_unshared {events : List CacheEvent}
    (unshared : Meets cacheStep (fun state event => ∀ cache ∈ state, cache.Unshared event)
      (some {}) events) :
    ∃ cache, run cacheStep (some {}) events = some cache ∧ cache.Finds :=
  unshared.invariant (fun state => ∃ cache : Cache, state = some cache ∧ cache.Finds)
    (fun _ event ⟨cache, same, finds⟩ unshared => by
      subst same
      exact finds.handle (unshared cache rfl))
    ⟨{}, rfl, nofun, nofun⟩

/-- Two identities with the same key, of which the first is deleted. -/
theorem not_finds_of_deleted : ¬∃ cache, run cacheStep (some {})
    [.onUpsert 1 (some "a"), .onUpsert 2 (some "a"), .onDelete 1 false] = some cache ∧
      cache.Finds := by
  rintro ⟨cache, same, finds⟩
  cases same
  exact finds.complete (show Cache.Has _ 2 "a" from rfl) rfl

/-- Two identities with the same key, which stay, and a third one that is deleted. -/
theorem finds_of_kept : ∃ cache, run cacheStep (some {})
    [.onUpsert 1 (some "a"), .onUpsert 2 (some "a"), .onUpsert 3 (some "b"), .onDelete 3 false,
      .onDelete 1 true] = some cache ∧ cache.Finds := by
  refine finds_of_unshared ⟨?_, ?_, ?_, ?_, ?_, trivial⟩ <;> rintro _ ⟨⟩
  · exact ⟨nofun, nofun⟩
  · exact ⟨nofun, nofun⟩
  · exact ⟨nofun, nofun⟩
  · refine .inr fun old own other has => ?_
    cases own
    by_contra differ
    simp only [Cache.Has, Cache.write, lookup_insert_if, if_neg differ] at has
    split_ifs at has <;> simp at has
  · exact .inl rfl

end Constellation.Kvstore
