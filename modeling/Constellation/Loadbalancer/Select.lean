/-
This file models how the backends of a frontend are chosen, `DefaultSelectBackends` in
`pkg/loadbalancer/writer/writer.go`, and proves that topology preferences starve no service:
whenever a scan decides for a preference, the filter keeps a backend that the scan has counted.
-/
import Constellation.Loadbalancer.Address

namespace Constellation.Loadbalancer

open List

/-! ### Services, frontends and backends -/

inductive BackendState
  | active
  | terminating
  | terminatingNotServing
  | quarantined
  | maintenance
  | invalid
  deriving DecidableEq, Repr

inductive SVCType
  | none
  | hostPort
  | clusterIP
  | nodePort
  | externalIPs
  | loadBalancer
  | localRedirect
  deriving DecidableEq, Repr

inductive SVCTrafficPolicy
  | policyNone
  | policyCluster
  | policyLocal
  deriving DecidableEq, Repr

inductive SVCProxyDelegation
  | none
  | delegateIfLocal
  deriving DecidableEq, Repr

inductive TrafficDistribution
  | default
  | preferSameZone
  | preferClose
  | preferSameNode
  deriving DecidableEq, Repr

structure Service where
  extTrafficPolicy : SVCTrafficPolicy
  intTrafficPolicy : SVCTrafficPolicy
  proxyDelegation : SVCProxyDelegation
  trafficDistribution : TrafficDistribution

structure Frontend (IP : Type) where
  address : L3n4Addr IP
  type : SVCType
  portName : String
  redirectTo : Option String
  service : Service

/-- `forZones` are the topology hints. -/
structure Backend (IP : Type) where
  address : L3n4Addr IP
  portNames : List String
  nodeName : String
  forZones : Option (List String)
  state : BackendState
  unhealthy : Bool
  unhealthyUpdatedAt : Option Int

/-- The zone label is empty if there is none. -/
structure LocalNode (IP : Type) where
  zone : String
  isNodeIP : IP → Bool

structure Writer (IP : Type) where
  enableServiceTopology : Bool
  nodeName : String
  localNode : Option (LocalNode IP)
  isServiceHealthCheckedFunc : Option (Service → Bool)

/-! ### The choice of backends -/

variable {IP : Type} (format : AddrFormat IP)

def matchesFrontend (be : Backend IP) : Option (Frontend IP) → Bool
  | none => true
  | some fe =>
    if fe.address.protocol ≠ be.address.protocol then false
    else if format.is6 be.address.addr ≠ format.is6 fe.address.addr then false
    else if fe.portName ≠ "" && !be.portNames.isEmpty then be.portNames.contains fe.portName
    else true

def isExtLocal (fe : Frontend IP) : Bool :=
  match fe.type with
  | .nodePort | .loadBalancer | .externalIPs => fe.service.extTrafficPolicy = .policyLocal
  | _ => false

def isIntLocal (fe : Frontend IP) : Bool :=
  match fe.type with
  | .clusterIP | .nodePort | .loadBalancer | .externalIPs =>
    fe.service.intTrafficPolicy = .policyLocal
  | _ => false

def shouldUseLocalBackends (fe : Frontend IP) : Bool :=
  match fe.address.scope with
  | .external => if fe.type = .clusterIP then isIntLocal fe else isExtLocal fe
  | .internal => isIntLocal fe

namespace Writer

variable (w : Writer IP) (svc : Service) (fe : Option (Frontend IP)) (be : Backend IP)

def isServiceHealthChecked : Bool := w.isServiceHealthCheckedFunc.any (· svc)

def isUsable (be : Backend IP) : Bool :=
  be.state = .active && !be.unhealthy && be.unhealthyUpdatedAt.isSome

def topologyPreferenceCandidate : Bool :=
  if be.state = .terminating || be.state = .terminatingNotServing then false
  else if !w.isServiceHealthChecked svc then true
  else isUsable be

def onlyLocal : Bool :=
  match fe with
  | some fe => shouldUseLocalBackends fe
  | none => svc.extTrafficPolicy = .policyLocal

/-- A backend counts as local if it has an address of the node. -/
def isLocalProxyDelegation (addr : L3n4Addr IP) : Bool :=
  match fe, w.localNode with
  | none, some node => svc.proxyDelegation = .none || node.isNodeIP addr.addr
  | _, _ => true

def isEligible : Bool :=
  matchesFrontend format be fe && (!onlyLocal svc fe ||
    (be.nodeName = "" || be.nodeName = w.nodeName) && w.isLocalProxyDelegation svc fe be.address)

def isSameNode : Bool :=
  be.nodeName = w.nodeName && matchesFrontend format be fe && w.topologyPreferenceCandidate svc be

/-- Whether a backend for the zone is found, and whether hints are missing, with which the scan
ends. -/
def scanHints (thisZone : String) : List (Backend IP × Nat) → Bool → Bool × Bool
  | [], candidatesFound => (candidatesFound, false)
  | (be, _) :: rest, candidatesFound =>
    if w.isEligible format svc fe be && w.topologyPreferenceCandidate svc be then
      match be.forZones with
      | some (zone :: zones) =>
        scanHints thisZone rest (candidatesFound || (zone :: zones).contains thisZone)
      | _ => (candidatesFound, true)
    else scanHints thisZone rest candidatesFound

def hintedZone (bes : List (Backend IP × Nat)) : Option String := do
  let node ← w.localNode
  let frontend ← fe
  if node.zone ≠ "" && w.enableServiceTopology && frontend.redirectTo.isNone &&
      (frontend.service.trafficDistribution = .preferClose ||
        frontend.service.trafficDistribution = .preferSameZone) &&
      w.scanHints format svc fe node.zone bes false = (true, false) then
    some node.zone
  else none

/-- Without a frontend, the backends of the service. -/
def defaultSelectBackends (bes : List (Backend IP × Nat)) : List (Backend IP × Nat) :=
  if w.enableServiceTopology && fe.any (·.service.trafficDistribution = .preferSameNode) &&
      bes.any (w.isSameNode format svc fe ·.1) then
    bes.filter (w.isSameNode format svc fe ·.1)
  else
    match w.hintedZone format svc fe bes with
    | some thisZone => bes.filter fun entry => w.isEligible format svc fe entry.1 &&
        entry.1.forZones.any (·.contains thisZone)
    | none => bes.filter (w.isEligible format svc fe ·.1)

/-! ### No service is starved -/

variable {w svc be} {frontend : Frontend IP} {bes : List (Backend IP × Nat)} {format}

/-- A frontend takes the backends that match it, and only local ones if its traffic policy is
local. -/
def Eligible (format : AddrFormat IP) (w : Writer IP) (frontend : Frontend IP) (be : Backend IP) :
    Prop :=
  matchesFrontend format be (some frontend) = true ∧
    (shouldUseLocalBackends frontend = true → be.nodeName = "" ∨ be.nodeName = w.nodeName)

/-- Eligible backends, in order; at least one if there is one; and one that is active, healthy and
checked if the service is health-checked and such a backend is eligible. -/
structure Feeds (format : AddrFormat IP) (w : Writer IP) (svc : Service) (frontend : Frontend IP)
    (bes selected : List (Backend IP × Nat)) : Prop where
  sublist : selected <+ bes
  eligible : ∀ entry ∈ selected, Eligible format w frontend entry.1
  nonempty : (∃ entry ∈ bes, Eligible format w frontend entry.1) → selected ≠ []
  usable : w.isServiceHealthChecked svc = true →
    (∃ entry ∈ bes, Eligible format w frontend entry.1 ∧ isUsable entry.1 = true) →
      ∃ entry ∈ selected, isUsable entry.1 = true

theorem isEligible_iff : w.isEligible format svc (some frontend) be = true ↔
    Eligible format w frontend be := by
  cases policy : shouldUseLocalBackends frontend <;>
    simp [isEligible, Eligible, onlyLocal, isLocalProxyDelegation, policy]

theorem isUsable_of_candidate (checked : w.isServiceHealthChecked svc = true)
    (candidate : w.topologyPreferenceCandidate svc be = true) : isUsable be = true := by
  unfold topologyPreferenceCandidate at candidate
  rw [checked] at candidate
  split at candidate
  · cases candidate
  · exact candidate

/-- A filter feeds a frontend if it keeps eligible backends only, and all of them or a candidate. -/
theorem feeds_filter {keeps : Backend IP × Nat → Bool}
    (sound : ∀ entry, keeps entry = true → Eligible format w frontend entry.1)
    (enough : (∀ entry, Eligible format w frontend entry.1 → keeps entry = true) ∨
      ∃ entry ∈ bes, keeps entry = true ∧ w.topologyPreferenceCandidate svc entry.1 = true) :
    Feeds format w svc frontend bes (bes.filter keeps) := by
  refine ⟨filter_sublist, fun entry member => sound entry (mem_filter.mp member).2, ?_, ?_⟩
  · rintro ⟨entry, member, eligible⟩
    rcases enough with all | ⟨chosen, among, kept, -⟩
    · exact ne_nil_of_mem (mem_filter.mpr ⟨member, all entry eligible⟩)
    · exact ne_nil_of_mem (mem_filter.mpr ⟨among, kept⟩)
  · rintro checked ⟨entry, member, eligible, usable⟩
    rcases enough with all | ⟨chosen, among, kept, candidate⟩
    · exact ⟨entry, mem_filter.mpr ⟨member, all entry eligible⟩, usable⟩
    · exact ⟨chosen, mem_filter.mpr ⟨among, kept⟩, isUsable_of_candidate checked candidate⟩

/-- A scan that finds a backend for the zone has met a candidate with that hint. -/
theorem exists_of_scanHints {thisZone : String} {candidatesFound missingHints : Bool}
    (scanned : w.scanHints format svc fe thisZone bes candidatesFound = (true, missingHints)) :
    candidatesFound = true ∨ ∃ entry ∈ bes, w.isEligible format svc fe entry.1 = true ∧
      entry.1.forZones.any (·.contains thisZone) = true ∧
      w.topologyPreferenceCandidate svc entry.1 = true := by
  induction bes generalizing candidatesFound with
  | nil => exact .inl (congrArg Prod.fst scanned)
  | cons first rest inductionHypothesis =>
    rw [exists_mem_cons_iff]
    unfold scanHints at scanned
    split at scanned
    case isTrue counted =>
      rw [Bool.and_eq_true] at counted
      split at scanned
      case h_1 zone zones hints =>
        rcases inductionHypothesis scanned with found | later
        · rcases (Bool.or_eq_true _ _).mp found with before | here
          · exact .inl before
          · exact .inr (.inl ⟨counted.1, by rw [hints]; exact here, counted.2⟩)
        · exact .inr (.inr later)
      · exact .inl (congrArg Prod.fst scanned)
    · exact (inductionHypothesis scanned).imp_right .inr

/-- Whatever a frontend prefers, it gets eligible backends if there are any. -/
theorem defaultSelectBackends_feeds (format : AddrFormat IP) (w : Writer IP) (svc : Service)
    (frontend : Frontend IP) (bes : List (Backend IP × Nat)) :
    Feeds format w svc frontend bes (w.defaultSelectBackends format svc (some frontend) bes) := by
  unfold defaultSelectBackends
  split
  case isTrue preferred =>
    rw [Bool.and_eq_true] at preferred
    obtain ⟨chosen, among, kept⟩ := any_eq_true.mp preferred.2
    have parts : ∀ be : Backend IP, w.isSameNode format svc (some frontend) be = true →
        (be.nodeName = w.nodeName ∧ matchesFrontend format be (some frontend) = true) ∧
          w.topologyPreferenceCandidate svc be = true := by
      intro be same
      rwa [isSameNode, Bool.and_eq_true, Bool.and_eq_true, decide_eq_true_eq] at same
    refine feeds_filter (fun entry same => ?_) (.inr ⟨chosen, among, kept, (parts _ kept).2⟩)
    exact ⟨(parts _ same).1.2, fun _ => .inr (parts _ same).1.1⟩
  · split
    case h_1 thisZone hinted =>
      have scanned : w.scanHints format svc (some frontend) thisZone bes false = (true, false) := by
        obtain ⟨node, -, isZone⟩ := Option.bind_eq_some_iff.mp hinted
        simp only [Option.bind_eq_bind, Option.bind_some] at isZone
        split at isZone
        case isTrue all =>
          cases isZone
          exact of_decide_eq_true ((Bool.and_eq_true _ _).mp all).2
        · cases isZone
      obtain ⟨chosen, among, eligible, hint, candidate⟩ :=
        (exists_of_scanHints (some frontend) scanned).resolve_left nofun
      refine feeds_filter (fun entry kept => ?_)
        (.inr ⟨chosen, among, (Bool.and_eq_true _ _).mpr ⟨eligible, hint⟩, candidate⟩)
      exact isEligible_iff.mp ((Bool.and_eq_true _ _).mp kept).1
    · exact feeds_filter (fun _ => isEligible_iff.mp) (.inl fun _ => isEligible_iff.mpr)

end Writer

end Constellation.Loadbalancer
