/-
This file models how the slice controller brings one slice to the API server,
`operator/pkg/ciliumendpointslice/reconciler.go`. Three counters decide whether a stored slice is
written again. An endpoint that is stored twice may hide one that is not stored.
-/

import Constellation.Ces.Sound

namespace Constellation.Ces

open Lib List

/-- The name of a pod, and all that is published of it. -/
structure CoreCEP (Content : Type) where
  name : String
  content : Content
  deriving DecidableEq

structure EndpointSlice (Content : Type) where
  ns : String
  endpoints : List (CoreCEP Content)

inductive Request (Content : Type)
  | create (ces : EndpointSlice Content)
  | update (ces : EndpointSlice Content)
  | delete

structure Changes where
  cepInserted : Int
  cepUpdated : Nat
  cepRemoved : Nat
  deriving DecidableEq

/-- The endpoints that the manager wants in a slice, all from its namespace as after a run of the
manager, and the endpoint objects. -/
structure Reconciler (Content : Type) extends CESData where
  ofNamespace : toCESData.OfNamespace
  store : CEPName → Option Content

namespace Reconciler

variable {Content : Type} [DecidableEq Content] (r : Reconciler Content) (order : IterationOrder)
  (cesObj : EndpointSlice Content)

/-- Objects are stored under their own name. -/
def getCoreEndpointFromStore (cep : CEPName) : Option (CoreCEP Content) :=
  (r.store cep).map (⟨cep.name, ·⟩)

def updatedCES : EndpointSlice Content :=
  ⟨r.ns, (order.visit 0 r.ceps.keys).filterMap r.getCoreEndpointFromStore⟩

def count (changes : Changes) (ep : CoreCEP Content) : Changes :=
  let epName : CEPName := ⟨ep.name, cesObj.ns⟩
  if epName ∈ r.ceps then
    { changes with
      cepInserted := changes.cepInserted - 1
      cepUpdated := if r.getCoreEndpointFromStore epName = some ep then changes.cepUpdated
        else changes.cepUpdated + 1 }
  else { changes with cepRemoved := changes.cepRemoved + 1 }

abbrev CesEqual : Prop :=
  cesObj.endpoints.foldl (r.count cesObj) ⟨r.ceps.keys.length, 0, 0⟩ = ⟨0, 0, 0⟩ ∧
    cesObj.ns = r.ns

def reconcileCESUpdate : Option (Request Content) :=
  if r.CesEqual cesObj then none else some (.update (r.updatedCES order))

def reconcileCES : Option (EndpointSlice Content) → Option (Request Content)
  | none => if r.ceps.keys.length > 0 then some (.create (r.updatedCES order)) else none
  | some cesObj =>
    if r.ceps.keys.length > 0 then r.reconcileCESUpdate order cesObj else some .delete

/-- A slice lists the desired endpoints that have an object, each once and as the object is, in
the right namespace. -/
def UpToDate : Prop :=
  cesObj.ns = r.ns ∧ cesObj.endpoints.Perm (r.ceps.keys.filterMap r.getCoreEndpointFromStore)

/-- Nothing is written only if the stored slice is up to date or neither exists; what is written is
up to date, and a slice is deleted only if no endpoint is desired. -/
def Justified (stored : Option (EndpointSlice Content)) : Option (Request Content) → Prop
  | none => (∃ ces ∈ stored, r.UpToDate ces) ∨ stored = none ∧ r.ceps.keys = []
  | some (.create ces) | some (.update ces) => r.UpToDate ces
  | some .delete => r.ceps.keys = []

/-- A stored endpoint is a desired one, as its object is. -/
def Stays (ep : CoreCEP Content) : Prop :=
  ⟨ep.name, cesObj.ns⟩ ∈ r.ceps ∧ r.getCoreEndpointFromStore ⟨ep.name, cesObj.ns⟩ = some ep

/-- As many endpoints are stored as desired, and all of them stay. -/
def Fills : Prop :=
  cesObj.endpoints.length = r.ceps.keys.length ∧
    (∀ ep ∈ cesObj.endpoints, r.Stays cesObj ep) ∧ cesObj.ns = r.ns

variable {r order cesObj}

/-- The counters of the loop, by induction over the stored endpoints. -/
theorem foldl_count_eq_zero_iff {endpoints : List (CoreCEP Content)} {changes : Changes} :
    endpoints.foldl (r.count cesObj) changes = ⟨0, 0, 0⟩ ↔
      changes = ⟨endpoints.length, 0, 0⟩ ∧ ∀ ep ∈ endpoints, r.Stays cesObj ep := by
  induction endpoints generalizing changes with
  | nil => simp
  | cons ep rest inductionHypothesis =>
    obtain ⟨inserted, updated, removed⟩ := changes
    rw [foldl_cons, inductionHypothesis, forall_mem_cons, count, Stays]
    by_cases assigned : (⟨ep.name, cesObj.ns⟩ : CEPName) ∈ r.ceps
    · by_cases equal : r.getCoreEndpointFromStore ⟨ep.name, cesObj.ns⟩ = some ep
      · simp [assigned, equal, Int.sub_eq_iff_eq_add]
      · simp [assigned, equal]
    · simp [assigned]

theorem cesEqual_iff : r.CesEqual cesObj ↔ r.Fills cesObj := by
  rw [CesEqual, foldl_count_eq_zero_iff, and_assoc]
  refine and_congr_left fun _ => ?_
  simp
  omega

omit [DecidableEq Content]

theorem upToDate_updatedCES : r.UpToDate (r.updatedCES order) :=
  ⟨rfl, (order.visit_perm 0 _).filterMap _⟩

/-- Endpoints that all stay are the desired ones if none of them is stored twice. -/
theorem Fills.upToDate_iff (fills : r.Fills cesObj) :
    r.UpToDate cesObj ↔ (cesObj.endpoints.map (·.name)).Nodup := by
  obtain ⟨length, stays, sameNamespace⟩ := fills
  constructor
  · rintro ⟨_, perm⟩
    rw [(perm.map _).nodup_iff, Nodup, pairwise_map, pairwise_filterMap]
    refine r.ceps.keys_nodup.imp_of_mem fun inFirst inSecond differ => ?_
    intro object isObject other isOther same
    obtain ⟨_, _, rfl⟩ := Option.map_eq_some_iff.mp isObject
    obtain ⟨_, _, rfl⟩ := Option.map_eq_some_iff.mp isOther
    exact differ (congrArg₂ ResourceKey.mk same
      ((r.ofNamespace _ inFirst).trans (r.ofNamespace _ inSecond).symm))
  · intro distinct
    let names : List CEPName := cesObj.endpoints.map fun ep => ⟨ep.name, cesObj.ns⟩
    have once : names.Nodup := Nodup.of_map (·.name) (by rw [map_map]; exact distinct)
    have inside : ∀ name ∈ names, name ∈ r.ceps.keys :=
      forall_mem_map.mpr fun ep member => (stays ep member).1
    have all : names.Perm r.ceps.keys :=
      (subperm_of_subset once fun _ => inside _).perm_of_length_le (by rw [length_map, length])
    refine ⟨sameNamespace, .trans (.of_eq ?_) (all.filterMap _)⟩
    rw [filterMap_map]
    exact ((filterMap_congr fun ep member => (stays ep member).2).trans filterMap_some).symm

/-- What is done about a slice is justified unless it is filled by desired endpoints of which one is
stored twice. -/
theorem justified_iff [DecidableEq Content] (stored : Option (EndpointSlice Content)) :
    r.Justified stored (r.reconcileCES order stored) ↔
      ∀ ces ∈ stored, r.Fills ces → (ces.endpoints.map (·.name)).Nodup := by
  cases stored with
  | none =>
    dsimp only [reconcileCES]
    split
    · exact iff_of_true upToDate_updatedCES nofun
    case isFalse empty =>
      exact iff_of_true (.inr ⟨rfl, length_eq_zero_iff.mp (Nat.eq_zero_of_not_pos empty)⟩) nofun
  | some ces =>
    dsimp only [reconcileCES, reconcileCESUpdate]
    split
    · split
      case isTrue equal =>
        have fills := cesEqual_iff.mp equal
        simp [Justified, fills, fills.upToDate_iff]
      case isFalse changed =>
        refine iff_of_true upToDate_updatedCES ?_
        rintro _ ⟨⟩ fills
        exact absurd (cesEqual_iff.mpr fills) changed
    case isFalse empty =>
      have none := Nat.eq_zero_of_not_pos empty
      refine iff_of_true (length_eq_zero_iff.mp none) ?_
      rintro _ ⟨⟩ fills
      rw [length_eq_zero_iff.mp (fills.1.trans none)]
      exact nodup_nil

/-- The endpoints `a` and `b` are desired, and the slice lists `a` twice. -/
theorem not_justified_of_doubled :
    let r : Reconciler Unit :=
      ⟨⟨(AList.insert ⟨"a", "n"⟩ () ∅).insert ⟨"b", "n"⟩ (), "n"⟩, by decide, fun _ => some ()⟩
    let stored : EndpointSlice Unit := ⟨"n", [⟨"a", ()⟩, ⟨"a", ()⟩]⟩
    ¬r.Justified stored (r.reconcileCES .listed stored) := by
  rintro _ _ (⟨_, ⟨⟩, _, perm⟩ | ⟨⟨⟩, _⟩)
  exact absurd perm (by decide)

/-- A slice that was written is left alone by the next call exactly if every desired endpoint has
an object. Otherwise every call writes it again. -/
theorem reconcileCES_updatedCES_iff [DecidableEq Content] (again : IterationOrder) :
    r.reconcileCES again (r.updatedCES order) = none ↔
      r.ceps.keys ≠ [] ∧ ∀ cep ∈ r.ceps.keys, r.store cep ≠ none := by
  have perm := order.visit_perm 0 r.ceps.keys
  have stays : ∀ ep ∈ (r.updatedCES order).endpoints, r.Stays (r.updatedCES order) ep := by
    intro ep member
    obtain ⟨cep, visited, found⟩ := mem_filterMap.mp member
    obtain ⟨_, _, rfl⟩ := Option.map_eq_some_iff.mp found
    have desired := perm.mem_iff.mp visited
    have same : (⟨cep.name, r.ns⟩ : CEPName) = cep :=
      congrArg (ResourceKey.mk cep.name) (r.ofNamespace cep desired).symm
    rw [← same] at desired found
    exact ⟨desired, found⟩
  have fills : r.Fills (r.updatedCES order) ↔ ∀ cep ∈ r.ceps.keys, r.store cep ≠ none := by
    rw [Fills, and_iff_left ⟨stays, rfl⟩, updatedCES, ← perm.length_eq, filterMap_length_eq_length]
    simp [getCoreEndpointFromStore, perm.mem_iff, Option.isSome_iff_ne_none]
  rw [reconcileCES, reconcileCESUpdate, ← fills, ← cesEqual_iff, ← length_pos_iff]
  split <;> simp [*]

end Reconciler

end Constellation.Ces
