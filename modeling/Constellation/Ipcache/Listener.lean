/-
This file proves when the listeners of the IP cache see one consistent view. The table a listener
should have maps a prefix to the entry of the endpoint address if there is one, and otherwise to
that of the prefix itself. Whether an entry is shadowed is decided when an address is first
written and when it is deleted, so later writes can leave an unshadowed prefix that differs from
its address, or a shadowed one without an address above it.

What a call does is first read off the maps as a change of a `View`, an entry and its mark for
each key.
-/

import Constellation.Ipcache.Cache
import Constellation.Lib.Run

namespace Constellation.Ipcache

open Lib List AList Bool Function Key IPCache
open Ipam (Addr CIDR)

/-! ### Tables and views -/

structure Entry where
  id : Nat
  hostIP : Option Addr
  key : Nat
  endpointFlags : Nat
  deriving DecidableEq, Repr

abbrev Table := PrefixCluster → Option Entry

def CacheChange.entry (change : CacheChange) : Option Entry :=
  match change.modType with
  | .upsert =>
    some ⟨change.newIdentity.id, change.newHostIP, change.encryptKey, change.endpointFlags⟩
  | .delete => none

namespace Table

def apply (table : Table) (change : CacheChange) : Table :=
  Function.update table change.cidrCluster change.entry

def applyAll (table : Table) (changes : List CacheChange) : Table := changes.foldl apply table

end Table

/-- An entry and its shadowed mark for each key. -/
abbrev View := Key → Option (Entry × Bool)

/-- The table that a listener should have. -/
def View.resolve (view : View) : Table := fun cidrCluster =>
  let below := (view (.cidr cidrCluster)).map Prod.fst
  if cidrCluster.isSingleIP then
    ((view (.endpoint cidrCluster.addrCluster)).map Prod.fst).or below
  else below

namespace IPCache

def view (cache : IPCache) : View := fun ip =>
  (cache.ipToIdentityCache.lookup ip).map fun identity =>
    (⟨identity.id, (cache.getHostIPCache ip).1, (cache.getHostIPCache ip).2,
      cache.getEndpointFlags ip⟩, identity.shadowed)

def dumpTable (cache : IPCache) (order : IterationOrder) : Table :=
  Table.applyAll (fun _ => none) (cache.dumpToListenerLocked order)

end IPCache

def UpsertCall.entry (call : UpsertCall) : Entry :=
  ⟨call.newIdentity.id, call.hostIP, call.hostKey, call.endpointFlags⟩

/-! ### What a call does to the view -/

inductive Written (view : View) (entry : Entry) :
    Key → View → List (PrefixCluster × Option Entry) → Prop
  | unchanged (ip : Key) : Written view entry ip view []
  /-- A prefix is written below an address. -/
  | below (cidrCluster : PrefixCluster) (single : cidrCluster.isSingleIP = true)
      (above : (view (.endpoint cidrCluster.addrCluster)).isSome = true) :
      Written view entry (.cidr cidrCluster)
        (Function.update view (.cidr cidrCluster) (some (entry, true))) []
  /-- A prefix without an address is written. -/
  | cidr (cidrCluster : PrefixCluster) (free : cidrCluster.isSingleIP = true →
      view (.endpoint cidrCluster.addrCluster) = none) :
      Written view entry (.cidr cidrCluster)
        (Function.update view (.cidr cidrCluster) (some (entry, false)))
        [(cidrCluster, some entry)]
  /-- An address is written that has an entry, or whose prefix has none. -/
  | endpoint (addrCluster : AddrCluster) (plain : (view (.endpoint addrCluster)).isSome = true ∨
      view (.cidr addrCluster.asPrefixCluster) = none) :
      Written view entry (.endpoint addrCluster)
        (Function.update view (.endpoint addrCluster) (some (entry, false)))
        [(addrCluster.asPrefixCluster, some entry)]
  /-- An address is written above a prefix of another identity or host. -/
  | above (addrCluster : AddrCluster) (other : Entry) (mark : Bool)
      (first : view (.endpoint addrCluster) = none)
      (found : view (.cidr addrCluster.asPrefixCluster) = some (other, mark)) :
      Written view entry (.endpoint addrCluster) (Function.update
          (Function.update view (.cidr addrCluster.asPrefixCluster) (some (other, true)))
          (.endpoint addrCluster) (some (entry, false)))
        [(addrCluster.asPrefixCluster, some entry)]
  /-- An address is written above a prefix of the same identity and host. -/
  | beside (addrCluster : AddrCluster) (other : Entry) (mark : Bool)
      (first : view (.endpoint addrCluster) = none)
      (found : view (.cidr addrCluster.asPrefixCluster) = some (other, mark))
      (same : other.id = entry.id ∧ other.hostIP = entry.hostIP) :
      Written view entry (.endpoint addrCluster)
        (Function.update view (.endpoint addrCluster) (some (entry, false))) []

inductive Deleted (view : View) : Key → View → List (PrefixCluster × Option Entry) → Prop
  /-- A prefix is deleted below an address, or one that begins with the address of an endpoint. -/
  | below (cidrCluster : PrefixCluster)
      (above : (view (.endpoint cidrCluster.addrCluster)).isSome = true) :
      Deleted view (.cidr cidrCluster) (Function.update view (.cidr cidrCluster) none) []
  /-- A prefix without an address is deleted. -/
  | cidr (cidrCluster : PrefixCluster) (free : view (.endpoint cidrCluster.addrCluster) = none) :
      Deleted view (.cidr cidrCluster) (Function.update view (.cidr cidrCluster) none)
        [(cidrCluster, none)]
  /-- An address without a prefix is deleted. -/
  | endpoint (addrCluster : AddrCluster) (alone : view (.cidr addrCluster.asPrefixCluster) = none) :
      Deleted view (.endpoint addrCluster) (Function.update view (.endpoint addrCluster) none)
        [(addrCluster.asPrefixCluster, none)]
  /-- An address is deleted above a prefix of another identity or host. -/
  | above (addrCluster : AddrCluster) (other : Entry) (mark : Bool)
      (found : view (.cidr addrCluster.asPrefixCluster) = some (other, mark)) :
      Deleted view (.endpoint addrCluster) (Function.update
          (Function.update view (.cidr addrCluster.asPrefixCluster) (some (other, false)))
          (.endpoint addrCluster) none)
        [(addrCluster.asPrefixCluster, some other)]
  /-- An address is deleted above a prefix of the same identity and host. -/
  | beside (addrCluster : AddrCluster) (entry other : Entry) (mark otherMark : Bool)
      (deleted : view (.endpoint addrCluster) = some (entry, mark))
      (found : view (.cidr addrCluster.asPrefixCluster) = some (other, otherMark))
      (same : other.id = entry.id ∧ entry.hostIP = other.hostIP) :
      Deleted view (.endpoint addrCluster) (Function.update view (.endpoint addrCluster) none) []

def CacheChange.report (change : CacheChange) : PrefixCluster × Option Entry :=
  (change.cidrCluster, change.entry)

namespace IPCache

variable {cache : IPCache}

@[simp]
theorem view_isSome (cache : IPCache) (ip : Key) :
    (cache.view ip).isSome = true ↔ ip ∈ cache.ipToIdentityCache := by
  rw [view, Option.isSome_map]
  exact lookup_isSome

variable {ip : Key}

theorem view_eq_none :
    cache.view ip = none ↔ cache.ipToIdentityCache.lookup ip = none :=
  Option.map_eq_none_iff

variable {identity : Identity} (found : cache.ipToIdentityCache.lookup ip = some identity)

include found in
theorem view_of_lookup :
    cache.view ip = some (⟨identity.id, (cache.getHostIPCache ip).1, (cache.getHostIPCache ip).2,
      cache.getEndpointFlags ip⟩, identity.shadowed) := by
  rw [view, found]
  rfl

/-- A cache whose maps differ from those of another at one key, and at another one whose mark
changes. -/
theorem view_eq_update {written : IPCache} {entry : Option (Entry × Bool)}
    (at_ip : written.view ip = entry)
    (elsewhere : ∀ other, other ≠ ip →
      written.ipToIdentityCache.lookup other = cache.ipToIdentityCache.lookup other ∧
        written.ipToHostIPCache.lookup other = cache.ipToHostIPCache.lookup other ∧
        written.ipToEndpointFlags.lookup other = cache.ipToEndpointFlags.lookup other) :
    written.view = Function.update cache.view ip entry := by
  funext other
  by_cases same : other = ip
  · subst same
    rw [update_self]
    exact at_ip
  · obtain ⟨identities, hosts, flags⟩ := elsewhere other same
    rw [update_of_ne same]
    unfold view getHostIPCache getEndpointFlags
    rw [identities, hosts, flags]

include found in
theorem view_mark {entry : Entry} {mark : Bool}
    (viewed : cache.view ip = some (entry, mark)) (newMark : Bool) :
    ({ cache with ipToIdentityCache :=
        cache.ipToIdentityCache.insert ip { identity with shadowed := newMark } } : IPCache).view =
      Function.update cache.view ip (some (entry, newMark)) := by
  refine view_eq_update ?_ fun other differs => ⟨lookup_insert_ne differs, rfl, rfl⟩
  rw [view_of_lookup found] at viewed
  obtain ⟨rfl, _⟩ := Prod.mk.inj (Option.some.inj viewed)
  rw [view, lookup_insert]
  rfl

variable {call : UpsertCall} {newIdentity : Identity} {metaEqual : Bool}

theorem view_write (keyed : call.hostIP = none → call.hostKey = 0) :
    (cache.write ip call newIdentity metaEqual).cache.view = Function.update
        ({ cache with ipToIdentityCache :=
          (cache.shadow ip call.hostIP newIdentity).identities } : IPCache).view ip
        (some (⟨(cache.shadow ip call.hostIP newIdentity).newIdentity.id, call.hostIP, call.hostKey,
          call.endpointFlags⟩,
          (cache.shadow ip call.hostIP newIdentity).newIdentity.shadowed)) := by
  refine view_eq_update ?_ fun other differs => ?_
  · rw [view_of_lookup (show
      (cache.write ip call newIdentity metaEqual).cache.ipToIdentityCache.lookup ip = _ from
        lookup_insert _)]
    unfold write getHostIPCache getEndpointFlags
    cases host : call.hostIP with
    | none => simp [keyed host]
    | some hostIP => simp
  · unfold write
    refine ⟨lookup_insert_ne differs, ?_, lookup_insert_ne differs⟩
    cases call.hostIP with
    | none => exact lookup_erase_ne differs
    | some hostIP => exact lookup_insert_ne differs

theorem write_written (keyed : call.hostIP = none → call.hostKey = 0)
    (unmarked : newIdentity.shadowed = false) :
    Written cache.view ⟨newIdentity.id, call.hostIP, call.hostKey, call.endpointFlags⟩ ip
      (cache.write ip call newIdentity metaEqual).cache.view
      ((cache.write ip call newIdentity metaEqual).changes.map CacheChange.report) := by
  rw [view_write keyed]
  unfold write
  cases ip with
  | cidr cidrCluster =>
    unfold shadow
    dsimp only
    split
    case isTrue covered =>
      exact Written.below cidrCluster covered.1 ((cache.view_isSome _).mpr covered.2)
    case isFalse free =>
      rw [unmarked]
      refine Written.cidr cidrCluster fun single => ?_
      rw [view_eq_none, lookup_eq_none]
      exact fun member => free ⟨single, member⟩
  | endpoint addrCluster =>
    unfold shadow
    cases found : cache.ipToIdentityCache.lookup (.endpoint addrCluster) with
    | some identity =>
      have present : (cache.view (.endpoint addrCluster)).isSome = true := by
        rw [view_of_lookup found]
        rfl
      simp only [Option.isSome_some, if_true, unmarked]
      exact Written.endpoint addrCluster (.inl present)
    | none =>
      have first : cache.view (.endpoint addrCluster) = none := view_eq_none.mpr found
      simp only [Option.isSome_none, false_eq_true, if_false]
      cases below : cache.ipToIdentityCache.lookup (.cidr addrCluster.asPrefixCluster) with
      | none =>
        simp only [unmarked]
        exact Written.endpoint addrCluster (.inr (view_eq_none.mpr below))
      | some cidrIdentity =>
        have viewed := view_of_lookup below
        dsimp only
        split
        case isTrue differs =>
          rw [view_mark below viewed]
          simp only [unmarked]
          exact Written.above addrCluster _ _ first viewed
        case isFalse same =>
          obtain ⟨sameID, sameHost⟩ := not_or.mp same
          simp only [unmarked]
          exact Written.beside addrCluster _ _ first viewed ⟨not_not.mp sameID, not_not.mp sameHost⟩

theorem markOwner_eq (cachedIdentity : Option Identity) (fromLegacyAPI : Bool)
    (newIdentity : Identity) :
    ∃ overwritten modified, markOwner cachedIdentity fromLegacyAPI newIdentity = { newIdentity with
        overwrittenLegacySource := overwritten
        modifiedByLegacyAPI := modified } := by
  cases cachedIdentity with
  | none => cases fromLegacyAPI <;> exact ⟨_, _, rfl⟩
  | some cachedIdentity => exact ⟨_, _, rfl⟩

/-- The entry is of a stronger source. -/
def refuses (cache : IPCache) (ip : Key) (call : UpsertCall) : Bool :=
  (cache.ipToIdentityCache.lookup ip).any fun cachedIdentity =>
    !call.force && !Source.allowOverwrite cachedIdentity.source call.newIdentity.source

theorem upsertLocked_refused (named : call.ip = some ip) (refused : cache.refuses ip call = true) :
    (cache.upsertLocked call).cache.view = cache.view ∧ (cache.upsertLocked call).changes = [] := by
  obtain ⟨cachedIdentity, found, refused⟩ := (Option.any_eq_true _ _).mp refused
  unfold upsertLocked
  obtain ⟨overwritten, modified, marked⟩ := markOwner_eq (cache.ipToIdentityCache.lookup ip)
    call.fromLegacyAPI call.newIdentity
  simp only [named, marked]
  simp only [found, refused, if_true]
  refine ⟨?_, trivial⟩
  refine Eq.trans (@view_eq_update cache ip _ (cache.view ip) ?_ fun other differs =>
    ⟨lookup_insert_ne differs, rfl, rfl⟩) (update_eq_self ip _)
  rw [view_of_lookup found, view, lookup_insert]
  rfl

theorem upsertLocked_written (named : call.ip = some ip) (accepted : cache.refuses ip call = false)
    (keyed : call.hostIP = none → call.hostKey = 0) (unmarked : call.newIdentity.shadowed = false) :
    Written cache.view call.entry ip (cache.upsertLocked call).cache.view
      ((cache.upsertLocked call).changes.map CacheChange.report) := by
  unfold refuses at accepted
  unfold upsertLocked
  obtain ⟨overwritten, modified, marked⟩ := markOwner_eq (cache.ipToIdentityCache.lookup ip)
    call.fromLegacyAPI call.newIdentity
  have writes (metaEqual : Bool) := @write_written cache ip call { call.newIdentity with
      overwrittenLegacySource := overwritten
      modifiedByLegacyAPI := modified } metaEqual keyed unmarked
  simp only [named, marked]
  cases found : cache.ipToIdentityCache.lookup ip with
  | none => exact writes _
  | some cachedIdentity =>
    rw [found, Option.any_some] at accepted
    simp only [accepted, false_eq_true, if_false]
    split
    · exact Written.unchanged ip
    · exact writes _

include found in
theorem deleteLocked_deleted {source : Source} (owned : identity.source = source) :
    Deleted cache.view ip (cache.deleteLocked (some ip) source).1.view
      ((cache.deleteLocked (some ip) source).2.map CacheChange.report) := by
  have erased : (cache.deleteLocked (some ip) source).1.view = Function.update
      ({ cache with ipToIdentityCache := (cache.revive ip identity).1 } : IPCache).view ip
        none := by
    unfold deleteLocked
    simp only [found, owned, ne_eq, not_true_eq_false, if_false]
    refine view_eq_update ?_ fun other differs =>
      ⟨lookup_erase_ne differs, lookup_erase_ne differs, lookup_erase_ne differs⟩
    exact view_eq_none.mpr (lookup_erase _ _)
  have changes : (cache.deleteLocked (some ip) source).2 = (cache.revive ip identity).2 := by
    unfold deleteLocked
    simp only [found, owned, ne_eq, not_true_eq_false, if_false]
  rw [erased, changes]
  unfold revive
  cases ip with
  | cidr cidrCluster =>
    dsimp only
    split
    case isTrue above => exact Deleted.below cidrCluster ((cache.view_isSome _).mpr above)
    case isFalse free =>
      exact Deleted.cidr cidrCluster (view_eq_none.mpr (lookup_eq_none.mpr free))
  | endpoint addrCluster =>
    dsimp only
    cases below : cache.ipToIdentityCache.lookup (.cidr addrCluster.asPrefixCluster) with
    | none => exact Deleted.endpoint addrCluster (view_eq_none.mpr below)
    | some cidrIdentity =>
      have viewed := view_of_lookup below
      dsimp only
      split
      case isTrue differs =>
        rw [view_mark below viewed]
        exact Deleted.above addrCluster _ _ viewed
      case isFalse same =>
        obtain ⟨sameID, sameHost⟩ := not_or.mp same
        exact Deleted.beside addrCluster _ _ _ _ (view_of_lookup found) viewed
          ⟨not_not.mp sameID, not_not.mp sameHost⟩

end IPCache

/-! ### Layers -/

def Table.receive (table : Table) (reports : List (PrefixCluster × Option Entry)) : Table :=
  reports.foldl (fun table report => Function.update table report.1 report.2) table

theorem Table.applyAll_eq_receive (table : Table) (changes : List CacheChange) :
    table.applyAll changes = table.receive (changes.map CacheChange.report) := by
  rw [Table.receive, foldl_map]
  rfl

namespace View

variable {view : View} {entry : Entry}

/-- A shadowed entry is that of a prefix below an address, and an address and its prefix that is not
shadowed have the same entry. -/
structure Layered (view : View) : Prop where
  below : ∀ ip entry, view ip = some (entry, true) → ∃ cidrCluster, ip = .cidr cidrCluster ∧
    cidrCluster.isSingleIP = true ∧ (view (.endpoint cidrCluster.addrCluster)).isSome = true
  agrees : ∀ addrCluster entry mark other, view (.endpoint addrCluster) = some (entry, mark) →
    view (.cidr addrCluster.asPrefixCluster) = some (other, false) → other = entry

/-- If the address has an entry, its prefix has none, is shadowed, or has the entry that is written.
If it has none, a prefix with the same identity and host has the entry that is written. -/
def SafeAbove (entry : Entry) : Option (Entry × Bool) → Option (Entry × Bool) → Prop
  | _, none => True
  | some _, some (other, shadowed) => shadowed = true ∨ other = entry
  | none, some (other, _) => other.id = entry.id ∧ other.hostIP = entry.hostIP → other = entry

/-- No prefix with the same identity and host is shadowed. -/
def SafeBelow : Option (Entry × Bool) → Option (Entry × Bool) → Prop
  | some (entry, _), some (other, shadowed) =>
    other.id = entry.id ∧ entry.hostIP = other.hostIP → shadowed = false
  | _, _ => True

instance (entry : Entry) : ∀ above below, Decidable (SafeAbove entry above below) := by
  intro above below
  cases above <;> cases below <;> delta SafeAbove <;> infer_instance

instance : ∀ above below, Decidable (SafeBelow above below)
  | none, _ | some _, none => isTrue trivial
  | some _, some _ => inferInstanceAs (Decidable (_ → _))

def Safe (view : View) (entry : Entry) : Key → Prop
  | .cidr _ => True
  | .endpoint addrCluster =>
    SafeAbove entry (view (.endpoint addrCluster)) (view (.cidr addrCluster.asPrefixCluster))

/-- A prefix of several addresses must not begin with the address of an endpoint. -/
def SafeDelete (view : View) : Key → Prop
  | .cidr cidrCluster => cidrCluster.isSingleIP = true ∨
    (view (.endpoint cidrCluster.addrCluster)).isSome = false
  | .endpoint addrCluster =>
    SafeBelow (view (.endpoint addrCluster)) (view (.cidr addrCluster.asPrefixCluster))

instance (view : View) (entry : Entry) : ∀ ip, Decidable (view.Safe entry ip) := by
  intro ip
  cases ip <;> delta Safe <;> infer_instance

instance (view : View) : ∀ ip, Decidable (view.SafeDelete ip) := by
  intro ip
  cases ip <;> delta SafeDelete <;> infer_instance

variable {cidrCluster : PrefixCluster} {ip : Key}

theorem resolve_endpoint {mark : Bool} (single : cidrCluster.isSingleIP = true)
    (found : view (.endpoint cidrCluster.addrCluster) = some (entry, mark)) :
    view.resolve cidrCluster = some entry := by
  simp [resolve, found, single]

theorem resolve_cidr (free : cidrCluster.isSingleIP = true →
    view (.endpoint cidrCluster.addrCluster) = none) :
    view.resolve cidrCluster = (view (.cidr cidrCluster)).map Prod.fst := by
  unfold resolve
  split
  case isTrue single => rw [free single]; rfl
  · rfl

/-- The table only changes at the prefix of the key that is written. -/
theorem resolve_update_of_ne (differs : cidrCluster ≠ ip.cidrCluster)
    (written : Option (Entry × Bool)) :
    resolve (Function.update view ip written) cidrCluster = view.resolve cidrCluster := by
  have cidr : cidr cidrCluster ≠ ip := by
    rintro rfl
    exact differs rfl
  have endpoint (single : cidrCluster.isSingleIP = true) :
      endpoint cidrCluster.addrCluster ≠ ip := by
    rintro rfl
    exact differs (PrefixCluster.asPrefixCluster_addrCluster single).symm
  unfold resolve
  rw [update_of_ne cidr]
  split
  case isTrue single => rw [update_of_ne (endpoint single)]
  · rfl

/-- The table after a key is written, from what it has at the prefix of the key. -/
theorem resolve_update {written : Option (Entry × Bool)} {resolved : Option Entry}
    (at_ip : resolve (Function.update view ip written) ip.cidrCluster = resolved) :
    resolve (Function.update view ip written) =
      Function.update view.resolve ip.cidrCluster resolved := by
  funext cidrCluster
  by_cases same : cidrCluster = ip.cidrCluster
  · rw [same, update_self]
    exact at_ip
  · rw [update_of_ne same, resolve_update_of_ne same]

/-- What is written below an address does not show. -/
theorem resolve_update_below (single : cidrCluster.isSingleIP = true)
    (above : (view (.endpoint cidrCluster.addrCluster)).isSome = true)
    (written : Option (Entry × Bool)) :
    resolve (Function.update view (.cidr cidrCluster) written) = view.resolve := by
  obtain ⟨⟨entry, mark⟩, found⟩ := Option.isSome_iff_exists.mp above
  have kept : Function.update view (.cidr cidrCluster) written (.endpoint cidrCluster.addrCluster) =
      some (entry, mark) := (update_of_ne Key.noConfusion ..).trans found
  refine (resolve_update ?_).trans (update_eq_self cidrCluster _)
  exact (resolve_endpoint single kept).trans (resolve_endpoint single found).symm

/-- Without the address, the prefix shows. -/
theorem resolve_erase_endpoint (view : View) (addrCluster : AddrCluster) :
    resolve (Function.update view (.endpoint addrCluster) none) addrCluster.asPrefixCluster =
      (view (.cidr addrCluster.asPrefixCluster)).map Prod.fst := by
  refine (resolve_cidr fun _ => update_self ..).trans ?_
  rw [update_of_ne Key.noConfusion]

/-- The entries of an address and its prefix, written in either order. -/
theorem update_layers (view : View) (addrCluster : AddrCluster)
    (below above : Option (Entry × Bool)) :
    Function.update (Function.update view (.cidr addrCluster.asPrefixCluster) below)
        (.endpoint addrCluster) above =
      Function.update
        (Function.update (Function.update view (.cidr addrCluster.asPrefixCluster) none)
          (.endpoint addrCluster) above)
        (.cidr addrCluster.asPrefixCluster) below := by
  rw [update_comm (show endpoint addrCluster ≠ .cidr addrCluster.asPrefixCluster from
    Key.noConfusion), update_idem]

namespace Layered

variable {addrCluster : AddrCluster}

variable (layered : view.Layered)
include layered

/-- Writing or deleting a prefix: if it is shadowed, there is an address above it, and otherwise an
address above it has the same entry. -/
theorem update_cidr {written : Option (Entry × Bool)}
    (shadowed : ∀ entry, written = some (entry, true) → cidrCluster.isSingleIP = true ∧
      (view (.endpoint cidrCluster.addrCluster)).isSome = true)
    (shown : ∀ entry, written = some (entry, false) → cidrCluster.isSingleIP = true →
      ∀ above mark, view (.endpoint cidrCluster.addrCluster) = some (above, mark) →
        entry = above) :
    Layered (Function.update view (.cidr cidrCluster) written) := by
  refine ⟨fun ip other found => ?_, fun above aboveEntry aboveMark other foundAbove found => ?_⟩
  · simp only [update_of_ne (show endpoint _ ≠ .cidr cidrCluster from Key.noConfusion)]
    by_cases same : ip = .cidr cidrCluster
    · rw [same, update_self] at found
      exact ⟨cidrCluster, same, shadowed other found⟩
    · rw [update_of_ne same] at found
      exact layered.below ip other found
  · rw [update_of_ne (show endpoint _ ≠ .cidr cidrCluster from Key.noConfusion)] at foundAbove
    by_cases same : above.asPrefixCluster = cidrCluster
    · subst same
      rw [update_self] at found
      exact shown other found above.isSingleIP_asPrefixCluster aboveEntry aboveMark foundAbove
    · rw [update_of_ne fun keys => same (cidr.inj keys)] at found
      exact layered.agrees above aboveEntry aboveMark other foundAbove found

theorem erase_cidr (cidrCluster : PrefixCluster) :
    Layered (Function.update view (.cidr cidrCluster) none) :=
  layered.update_cidr nofun nofun

/-- Writing or deleting an address: a prefix below it that is not shadowed has the same entry, and
if the address is deleted, the prefix below it is not shadowed. -/
theorem update_endpoint {written : Option (Entry × Bool)}
    (unmarked : ∀ entry, written ≠ some (entry, true))
    (agrees : ∀ entry mark other, written = some (entry, mark) →
      view (.cidr addrCluster.asPrefixCluster) = some (other, false) → other = entry)
    (shown : written = none → ∀ other,
      view (.cidr addrCluster.asPrefixCluster) ≠ some (other, true)) :
    Layered (Function.update view (.endpoint addrCluster) written) := by
  refine ⟨fun ip other found => ?_, fun above aboveEntry aboveMark other foundAbove found => ?_⟩
  · by_cases same : ip = .endpoint addrCluster
    · rw [same, update_self] at found
      exact absurd found (unmarked other)
    · rw [update_of_ne same] at found
      obtain ⟨cidrCluster, rfl, single, present⟩ := layered.below ip other found
      refine ⟨cidrCluster, rfl, single, ?_⟩
      by_cases above : cidrCluster.addrCluster = addrCluster
      · rw [← above, PrefixCluster.asPrefixCluster_addrCluster single] at shown
        rw [above, update_self, Option.isSome_iff_ne_none]
        exact fun deleted => shown deleted other found
      · rw [update_of_ne fun keys => above (endpoint.inj keys)]
        exact present
  · rw [update_of_ne (show cidr _ ≠ .endpoint addrCluster from Key.noConfusion)] at found
    by_cases same : above = addrCluster
    · subst same
      rw [update_self] at foundAbove
      exact agrees aboveEntry aboveMark other foundAbove found
    · rw [update_of_ne fun keys => same (endpoint.inj keys)] at foundAbove
      exact layered.agrees above aboveEntry aboveMark other foundAbove found

end Layered

end View

namespace Written

variable {view written : View} {entry : Entry} {ip : Key}
  {reports : List (PrefixCluster × Option Entry)}

variable (effect : Written view entry ip written reports)
include effect

theorem layered (layered : view.Layered) (safe : view.Safe entry ip) : written.Layered := by
  cases effect with
  | unchanged => exact layered
  | below cidrCluster single above =>
    exact layered.update_cidr (fun _ _ => ⟨single, above⟩) nofun
  | cidr cidrCluster free =>
    refine layered.update_cidr nofun ?_
    intro _ _ single above mark found
    rw [free single] at found
    cases found
  | endpoint addrCluster plain =>
    refine layered.update_endpoint nofun ?_ nofun
    rintro _ _ other ⟨⟩ found
    rcases plain with present | alone
    · obtain ⟨previous, present⟩ := Option.isSome_iff_exists.mp present
      simp only [View.Safe, View.SafeAbove, present, found] at safe
      exact safe.resolve_left false_ne_true
    · rw [alone] at found
      cases found
  | above addrCluster other mark first found =>
    rw [View.update_layers]
    refine View.Layered.update_cidr ?_ (fun _ _ => ⟨addrCluster.isSingleIP_asPrefixCluster, ?_⟩)
      nofun
    · refine (layered.erase_cidr _).update_endpoint nofun ?_ nofun
      intro _ _ other _ found
      rw [update_self] at found
      cases found
    · rw [AddrCluster.addrCluster_asPrefixCluster, update_self]
      rfl
  | beside addrCluster other mark first found same =>
    refine layered.update_endpoint nofun ?_ nofun
    rintro _ _ shown ⟨⟩ viewed
    simp only [View.Safe, View.SafeAbove, first, found] at safe
    rw [found] at viewed
    rw [← (Prod.mk.inj (Option.some.inj viewed)).1]
    exact safe same

/-- What a safe upsert reports brings the table up to date. -/
theorem resolve (safe : view.Safe entry ip) : written.resolve = view.resolve.receive reports := by
  cases effect with
  | unchanged => rfl
  | below cidrCluster single above => exact View.resolve_update_below single above _
  | cidr cidrCluster free =>
    refine View.resolve_update ((View.resolve_cidr fun single => ?_).trans ?_)
    · exact (update_of_ne Key.noConfusion ..).trans (free single)
    · exact congrArg _ (update_self ..)
  | endpoint addrCluster plain =>
    exact View.resolve_update (View.resolve_endpoint addrCluster.isSingleIP_asPrefixCluster
      (update_self ..))
  | above addrCluster other mark first found =>
    refine Eq.trans (@View.resolve_update _ (.endpoint addrCluster) _ _ (View.resolve_endpoint
      addrCluster.isSingleIP_asPrefixCluster (update_self ..))) ?_
    rw [View.resolve_update rfl]
    exact update_idem ..
  | beside addrCluster other mark first found same =>
    refine (View.resolve_update ?_).trans (update_eq_self addrCluster.asPrefixCluster _)
    refine (View.resolve_endpoint addrCluster.isSingleIP_asPrefixCluster (update_self ..)).trans ?_
    rw [View.resolve_cidr fun _ => first, found]
    simp only [View.Safe, View.SafeAbove, first, found] at safe
    rw [safe same]
    rfl

end Written

namespace Deleted

variable {view written : View} {ip : Key} {reports : List (PrefixCluster × Option Entry)}

variable (effect : Deleted view ip written reports)
include effect

theorem layered (layered : view.Layered) (safe : view.SafeDelete ip) : written.Layered := by
  cases effect with
  | below cidrCluster above | cidr cidrCluster free => exact layered.erase_cidr cidrCluster
  | endpoint addrCluster alone =>
    refine layered.update_endpoint nofun nofun fun _ other found => ?_
    rw [alone] at found
    cases found
  | above addrCluster other mark found =>
    rw [View.update_layers]
    refine View.Layered.update_cidr ?_ nofun ?_
    · refine (layered.erase_cidr _).update_endpoint nofun nofun fun _ other found => ?_
      rw [update_self] at found
      cases found
    · intro _ _ _ above aboveMark found
      rw [AddrCluster.addrCluster_asPrefixCluster, update_self] at found
      cases found
  | beside addrCluster entry other mark otherMark deleted found same =>
    refine layered.update_endpoint nofun nofun fun _ shown viewed => ?_
    simp only [View.SafeDelete, View.SafeBelow, deleted, found] at safe
    rw [found, safe same] at viewed
    cases viewed

/-- What a safe deletion reports brings the table up to date. -/
theorem resolve (layered : view.Layered) (safe : view.SafeDelete ip) :
    written.resolve = view.resolve.receive reports := by
  cases effect with
  | below cidrCluster above =>
    have single : cidrCluster.isSingleIP = true := by
      refine Or.resolve_right safe fun free => ?_
      rw [above] at free
      cases free
    exact View.resolve_update_below single above _
  | cidr cidrCluster free =>
    refine View.resolve_update ((View.resolve_cidr fun _ => ?_).trans ?_)
    · exact (update_of_ne Key.noConfusion ..).trans free
    · exact congrArg _ (update_self ..)
  | endpoint addrCluster alone =>
    refine View.resolve_update ((View.resolve_erase_endpoint view addrCluster).trans ?_)
    rw [alone]
    rfl
  | above addrCluster other mark found =>
    refine Eq.trans (@View.resolve_update _ (.endpoint addrCluster) _ (some other) ?_) ?_
    · refine (View.resolve_erase_endpoint _ addrCluster).trans ?_
      rw [update_self]
      rfl
    · rw [View.resolve_update rfl]
      exact update_idem ..
  | beside addrCluster entry other mark otherMark deleted found same =>
    simp only [View.SafeDelete, View.SafeBelow, deleted, found] at safe
    have agrees : other = entry :=
      layered.agrees addrCluster entry mark other deleted (safe same ▸ found)
    refine (View.resolve_update ?_).trans (update_eq_self addrCluster.asPrefixCluster _)
    refine Eq.trans ?_ (View.resolve_endpoint addrCluster.isSingleIP_asPrefixCluster deleted).symm
    refine (View.resolve_erase_endpoint view addrCluster).trans ?_
    rw [found, agrees]
    rfl

end Deleted

/-! ### Dumps -/

/-- If all reports about a prefix agree, and there is one unless the table has the entry, the table
has it afterwards. -/
theorem Table.receive_of_agree {table : Table} {reports : List (PrefixCluster × Option Entry)}
    {cidrCluster : PrefixCluster} {entry : Option Entry}
    (agree : ∀ report ∈ reports, report.1 = cidrCluster → report.2 = entry)
    (reported : table cidrCluster = entry ∨ ∃ report ∈ reports, report.1 = cidrCluster) :
    table.receive reports cidrCluster = entry := by
  induction reports generalizing table with
  | nil => exact reported.resolve_right fun ⟨_, member, _⟩ => nomatch member
  | cons report rest inductionHypothesis =>
    refine inductionHypothesis (forall_mem_cons.mp agree).2 ?_
    by_cases same : report.1 = cidrCluster
    · refine .inl (Eq.trans ?_ (agree report (.head _) same))
      rw [← same]
      exact update_self ..
    · refine reported.imp (fun before => ?_) fun ⟨other, member, about⟩ => ⟨other, ?_, about⟩
      · exact (update_of_ne (Ne.symm same) ..).trans before
      · refine (mem_cons.mp member).resolve_left ?_
        rintro rfl
        exact same about

namespace IPCache

variable {cache : IPCache}

/-- A dump reports the entries that are not shadowed. -/
theorem mem_dump_iff (cache : IPCache) (order : IterationOrder)
    (report : PrefixCluster × Option Entry) :
    report ∈ (cache.dumpToListenerLocked order).map CacheChange.report ↔
      ∃ ip entry, cache.view ip = some (entry, false) ∧ report = (ip.cidrCluster, some entry) := by
  simp only [dumpToListenerLocked, mem_map, mem_filterMap, IterationOrder.mem_visit]
  constructor
  · rintro ⟨change, ⟨ip, _, dumped⟩, rfl⟩
    split at dumped
    · cases dumped
    case h_2 found =>
      split at dumped
      · cases dumped
      case isFalse shown =>
        cases dumped
        refine ⟨ip, _, ?_, rfl⟩
        rw [view_of_lookup found, eq_false_iff.mpr shown]
        rfl
  · rintro ⟨ip, entry, viewed, rfl⟩
    obtain ⟨identity, found, same⟩ := Option.map_eq_some_iff.mp viewed
    obtain ⟨rfl, shown⟩ := Prod.mk.inj same
    refine ⟨cache.dumpChange ip identity, ⟨ip, (GoMap.mem_of_lookup found), ?_⟩,
      rfl⟩
    rw [found]
    dsimp only
    rw [shown]
    rfl

/-- Between layers that are in order, a dump gives the table that a listener should have. -/
theorem dumpTable_eq_resolve (layered : cache.view.Layered) (order : IterationOrder) :
    cache.dumpTable order = cache.view.resolve := by
  funext cidrCluster
  rw [dumpTable, Table.applyAll_eq_receive]
  by_cases covered : cidrCluster.isSingleIP = true ∧
      (cache.view (.endpoint cidrCluster.addrCluster)).isSome = true
  · obtain ⟨single, above⟩ := covered
    obtain ⟨⟨entry, mark⟩, found⟩ := Option.isSome_iff_exists.mp above
    have endpoint := PrefixCluster.asPrefixCluster_addrCluster single
    rw [View.resolve_endpoint single found]
    have shown : mark = false := by
      refine eq_false_iff.mpr fun shadowed => ?_
      obtain ⟨_, key, _⟩ := layered.below _ entry (shadowed ▸ found)
      cases key
    refine Table.receive_of_agree (fun report member about => ?_) (.inr ⟨_,
      (cache.mem_dump_iff order _).mpr ⟨.endpoint _, entry, shown ▸ found, rfl⟩, endpoint⟩)
    obtain ⟨ip, other, viewed, rfl⟩ := (cache.mem_dump_iff order report).mp member
    cases ip with
    | endpoint addrCluster =>
      obtain rfl : addrCluster = cidrCluster.addrCluster := congrArg PrefixCluster.addrCluster about
      rw [found] at viewed
      exact congrArg (Option.map Prod.fst) viewed.symm
    | cidr other =>
      obtain rfl : other = cidrCluster := about
      exact congrArg some (layered.agrees _ entry mark _ found (endpoint.symm ▸ viewed))
  · have free (single : cidrCluster.isSingleIP = true) :
        cache.view (.endpoint cidrCluster.addrCluster) = none :=
      Option.not_isSome_iff_eq_none.mp fun above => covered ⟨single, above⟩
    rw [View.resolve_cidr free]
    refine Table.receive_of_agree (fun report member about => ?_) ?_
    · obtain ⟨ip, other, viewed, rfl⟩ := (cache.mem_dump_iff order report).mp member
      cases ip with
      | endpoint addrCluster =>
        obtain rfl : addrCluster.asPrefixCluster = cidrCluster := about
        have absent := free addrCluster.isSingleIP_asPrefixCluster
        rw [AddrCluster.addrCluster_asPrefixCluster, viewed] at absent
        cases absent
      | cidr other =>
        obtain rfl : other = cidrCluster := about
        rw [viewed]
        rfl
    · cases viewed : cache.view (.cidr cidrCluster) with
      | none => exact .inl rfl
      | some marked =>
        obtain ⟨entry, mark⟩ := marked
        have shown : mark = false := by
          refine eq_false_iff.mpr fun shadowed => ?_
          obtain ⟨_, key, single, above⟩ := layered.below _ entry (shadowed ▸ viewed)
          obtain rfl := cidr.inj key
          exact covered ⟨single, above⟩
        exact .inr ⟨_, (cache.mem_dump_iff order _).mpr ⟨_, entry, shown ▸ viewed, rfl⟩, rfl⟩

end IPCache

/-! ### Runs -/

structure Attached where
  cache : IPCache
  table : Table

/-- The calls of the cache, and another listener takes the place of the one that is looked at. -/
inductive Action
  | upsert (ip : Option Key) (hostIP : Option Addr) (hostKey : Nat)
      (k8sMeta : Option K8sMetadata) (newIdentity : Identity)
  | upsertLocked (call : UpsertCall)
  | deleteLocked (ip : Option Key) (source : Source)
  | setTunnelEndpointOverride (originalIP : Option Addr) (overrideIP : Addr)
  | addListener (order : IterationOrder)

namespace Attached

def start : Attached := ⟨new, fun _ => none⟩

variable (cache : IPCache)

def legacyCall (ip : Option Key) (hostIP : Option Addr) (hostKey : Nat)
    (k8sMeta : Option K8sMetadata) (newIdentity : Identity) : UpsertCall :=
  ⟨ip, cache.overrideHostIP hostIP, hostKey, k8sMeta, newIdentity, 0, false, true⟩

def step (state : Attached) : Action → Attached
  | .upsert ip hostIP hostKey k8sMeta newIdentity =>
    let result := state.cache.upsert ip hostIP hostKey k8sMeta newIdentity
    ⟨result.cache, state.table.applyAll result.changes⟩
  | .upsertLocked call =>
    let result := state.cache.upsertLocked call
    ⟨result.cache, state.table.applyAll result.changes⟩
  | .deleteLocked ip source =>
    let result := state.cache.deleteLocked ip source
    ⟨result.1, state.table.applyAll result.2⟩
  | .setTunnelEndpointOverride originalIP overrideIP =>
    { state with cache := state.cache.setTunnelEndpointOverride originalIP overrideIP }
  | .addListener order => { state with table := state.cache.dumpTable order }

/-- An upsert that is refused, or that has a host or no key, of an identity without the mark, and
that is safe for the layers. -/
def SafeUpsert (call : UpsertCall) : Prop :=
  ∀ ip ∈ call.ip.toList, cache.refuses ip call = true ∨
    (call.hostIP = none → call.hostKey = 0) ∧ call.newIdentity.shadowed = false ∧
      cache.view.Safe call.entry ip
  deriving Decidable

/-- A deletion by the source of the entry is safe for the layers. -/
def SafeDeletion (ip : Option Key) (source : Source) : Prop :=
  ∀ key ∈ ip.toList, (cache.ipToIdentityCache.lookup key).map Identity.source = some source →
    cache.view.SafeDelete key
  deriving Decidable

def Consistent (state : Attached) : Action → Prop
  | .upsert ip hostIP hostKey k8sMeta newIdentity =>
    SafeUpsert state.cache (legacyCall state.cache ip hostIP hostKey k8sMeta newIdentity)
  | .upsertLocked call => SafeUpsert state.cache call
  | .deleteLocked ip source => SafeDeletion state.cache ip source
  | .setTunnelEndpointOverride _ _ => True
  | .addListener _ => True

instance (state : Attached) : ∀ action, Decidable (state.Consistent action) := by
  intro action
  cases action <;> delta Consistent <;> infer_instance

/-- The layers are in order and the listener has the table that it should have. -/
structure Tracks (state : Attached) : Prop where
  layered : state.cache.view.Layered
  table_eq : state.table = state.cache.view.resolve

variable {state : Attached}

theorem Tracks.upsertLocked (tracks : state.Tracks) {call : UpsertCall}
    (safe : SafeUpsert state.cache call) : (state.step (.upsertLocked call)).Tracks := by
  cases named : call.ip with
  | none =>
    have ignored : state.step (.upsertLocked call) = state := by
      simp only [step, IPCache.upsertLocked, named]
      rfl
    rw [ignored]
    exact tracks
  | some ip =>
    have safe := safe ip (by rw [named]; exact mem_singleton_self ip)
    cases refused : state.cache.refuses ip call with
    | true =>
      obtain ⟨same, silent⟩ := upsertLocked_refused named refused
      refine ⟨?_, ?_⟩
      · rw [step, same]
        exact tracks.layered
      · rw [step, same, silent]
        exact tracks.table_eq
    | false =>
      obtain ⟨keyed, unmarked, safe⟩ :=
        safe.resolve_left (by rw [refused]; exact false_ne_true)
      have effect := upsertLocked_written named refused keyed unmarked
      refine ⟨effect.layered tracks.layered safe, ?_⟩
      rw [step, Table.applyAll_eq_receive, tracks.table_eq]
      exact (effect.resolve safe).symm

theorem Tracks.deleteLocked (tracks : state.Tracks) (ip : Option Key) (source : Source)
    (safe : state.Consistent (.deleteLocked ip source)) :
    (state.step (.deleteLocked ip source)).Tracks := by
  by_cases owned : ∃ key identity, ip = some key ∧
      state.cache.ipToIdentityCache.lookup key = some identity ∧ identity.source = source
  · obtain ⟨key, identity, rfl, found, owned⟩ := owned
    have effect := deleteLocked_deleted found owned
    have safe := safe key (mem_singleton_self key) (by rw [found, Option.map_some, owned])
    refine ⟨effect.layered tracks.layered safe, ?_⟩
    rw [step, Table.applyAll_eq_receive, tracks.table_eq]
    exact (effect.resolve tracks.layered safe).symm
  · have ignored : state.cache.deleteLocked ip source = (state.cache, []) := by
      unfold IPCache.deleteLocked
      split
      · rfl
      case h_2 key =>
        split
        · rfl
        case h_2 identity found =>
          exact if_pos fun same => owned ⟨key, identity, rfl, found, same⟩
    have same : state.step (.deleteLocked ip source) = state := by
      rw [step, ignored]
      rfl
    rw [same]
    exact tracks

theorem Tracks.step (tracks : state.Tracks) (action : Action)
    (consistent : state.Consistent action) : (state.step action).Tracks := by
  cases action with
  | upsert ip hostIP hostKey k8sMeta newIdentity | upsertLocked call =>
    exact tracks.upsertLocked consistent
  | deleteLocked ip source => exact tracks.deleteLocked ip source consistent
  | setTunnelEndpointOverride originalIP overrideIP => exact ⟨tracks.layered, tracks.table_eq⟩
  | addListener order =>
    exact ⟨tracks.layered, dumpTable_eq_resolve tracks.layered order⟩

theorem tracks_start : start.Tracks := by
  have empty (ip : Key) : start.cache.view ip = none :=
    view_eq_none.mpr (lookup_empty ip)
  refine ⟨⟨fun ip entry found => ?_, fun addrCluster entry mark other found _ => ?_⟩, ?_⟩
  · rw [empty] at found
    cases found
  · rw [empty] at found
    cases found
  · funext cidrCluster
    exact ((View.resolve_cidr fun _ => empty _).trans (congrArg _ (empty _))).symm

/-- The attached listener, a listener that is attached now, and the entries of the cache agree. -/
structure Agrees (state : Attached) : Prop where
  dump : ∀ order, state.cache.dumpTable order = state.table
  entries : state.table = state.cache.view.resolve

/-- Along every run of consistent calls, an attached listener has the table that a dump gives, and
both have the entry of the address for each prefix that has one, and otherwise that of the
prefix. -/
theorem run_agrees (actions : List Action) (meets : Meets step Consistent start actions) :
    (run step start actions).Agrees := by
  have tracks : (run step start actions).Tracks :=
    meets.invariant Tracks (fun _ action tracks => tracks.step action) tracks_start
  refine ⟨fun order => ?_, tracks.table_eq⟩
  rw [tracks.table_eq]
  exact dumpTable_eq_resolve tracks.layered order

def address : AddrCluster := ⟨.ofBits 0x0a000001#32, 0⟩

def identityOf (source : Source) (id : Nat) : Identity := ⟨source, none, id, false, false⟩

def upsertPrefix (id : Nat) : Action :=
  .upsertLocked ⟨some (.cidr address.asPrefixCluster), none, 0, none, identityOf .generated id, 0,
    false, false⟩

def upsertAddress (id : Nat) : Action :=
  .upsert (some (.endpoint address)) none 0 none (identityOf .kvStore id)

def deleteAddress : Action := .deleteLocked (some (.endpoint address)) .kvStore

/-- The address shadows its prefix until it is deleted. -/
def revivedPrefix : List Action :=
  [upsertPrefix 5, upsertAddress 6, .addListener .listed, deleteAddress]

/-- The address is given the identity of the prefix before it is deleted. -/
def lostPrefix : List Action :=
  [upsertPrefix 5, upsertAddress 6, upsertAddress 5, deleteAddress]

theorem revivedPrefix_agrees :
    Meets step Consistent start revivedPrefix ∧ (run step start revivedPrefix).Agrees :=
  have meets : Meets step Consistent start revivedPrefix := by decide +kernel
  ⟨meets, run_agrees revivedPrefix meets⟩

/-- The prefix stays shadowed although the address is gone: the attached listener knows its entry,
and a dump leaves it out. -/
theorem lostPrefix_differs :
    let state := run step start lostPrefix
    state.table address.asPrefixCluster = some ⟨5, none, 0, 0⟩ ∧
      state.cache.dumpTable .listed address.asPrefixCluster = none := by
  decide +kernel

end Attached

end Constellation.Ipcache
