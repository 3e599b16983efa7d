/-
This file models the node watcher, which keeps the set of node names whose pods the agent manages,
and proves when that set is the set of nodes that match the selector. A watch breaks and is
started anew from time to time; it reports every node that matches at that moment as added, and a
change between two watches is reported to no one. So the set is right exactly along the runs in
which every known node still matches when a watch starts.
-/

import Constellation.Lib.GoMap
import Constellation.Lib.Run

namespace Constellation.K8s

open Lib List AList

/-! ### Nodes and the watch -/

abbrev Labels := GoMap String String

abbrev Cluster := GoMap String Labels

inductive Event
  | added (name : String) (labels : Labels)
  | modified (name : String) (labels : Labels)
  | deleted (name : String) (labels : Labels)
  deriving DecidableEq

inductive Change
  | write (name : String) (labels : Labels)
  | remove (name : String)

namespace Cluster

variable (selector : Labels → Bool) (cluster : Cluster)

def isMatching (name : String) : Bool :=
  (cluster.lookup name).any selector

def matchingNames : List String :=
  cluster.keys.filter (cluster.isMatching selector)

def apply : Change → Cluster
  | .write name labels => cluster.insert name labels
  | .remove name => cluster.erase name

/-- A node that begins to match is reported as added, one that stops as deleted. -/
def events : Change → List Event
  | .write name labels =>
    if selector labels then
      if cluster.isMatching selector name then [.modified name labels] else [.added name labels]
    else if cluster.isMatching selector name then [.deleted name labels] else []
  | .remove name =>
    if cluster.isMatching selector name then
      [.deleted name ((cluster.lookup name).getD ∅)]
    else []

/-- A new watch reports the matching nodes in any order. -/
def initialEvents (order : IterationOrder) (cluster : Cluster) : List Event :=
  (order.visit 0 (cluster.matchingNames selector)).map fun name =>
    .added name ((cluster.lookup name).getD ∅)

end Cluster

/-! ### The watcher -/

/-- The names that the watcher knows, and those that it has installed as managed. -/
structure NodeWatcher where
  known : GoSet String
  managedNodeNames : List String

namespace NodeWatcher

def knownNames (order : IterationOrder) (known : GoSet String) : List String :=
  order.visit 0 known.keys

def setManagedNames (watcher : NodeWatcher) (names : List String) : NodeWatcher :=
  { watcher with managedNodeNames := names }

/-- The name of the local node if there are none. -/
def getManagedNames (watcher : NodeWatcher) (nodeName : String) : List String :=
  if watcher.managedNodeNames = [] then [nodeName] else watcher.managedNodeNames

def isManaged (watcher : NodeWatcher) (nodeName name : String) : Bool :=
  decide (name ∈ watcher.getManagedNames nodeName)

variable (selector : Labels → Bool)

section

variable (order : IterationOrder)

/-- The labels are checked against the selector once more. -/
def handleAdded (watcher : NodeWatcher) (name : String) (labels : Labels) : NodeWatcher :=
  if !selector labels then watcher
  else
    let known := watcher.known.insert name ()
    let added := { watcher with known := known }
    if name ∈ watcher.known then added else added.setManagedNames (knownNames order known)

def handleDeleted (watcher : NodeWatcher) (name : String) : NodeWatcher :=
  if name ∈ watcher.known then
    let known := watcher.known.erase name
    { watcher with known := known }.setManagedNames (knownNames order known)
  else watcher

/-- Modifications and other events are ignored. -/
def handleEvent (watcher : NodeWatcher) : Event → NodeWatcher
  | .added name labels => watcher.handleAdded selector order name labels
  | .modified _ _ => watcher
  | .deleted name _ => watcher.handleDeleted order name

end

/-- If no node matches, the local node is managed. -/
def startNodeWatcher (nodeName : String) (cluster : Cluster) : NodeWatcher :=
  let found := cluster.matchingNames selector
  let names := if found = [] then [nodeName] else found
  ⟨names.foldl (fun known name => known.insert name ()) ∅, names⟩

end NodeWatcher

/-- With the events that the current watch, if there is one, has yet to deliver. -/
structure Watched where
  cluster : Cluster
  watcher : NodeWatcher
  session : Option (List Event)

inductive WatchAction
  | change (change : Change)
  | watch (order : IterationOrder)
  | deliver (order : IterationOrder)
  | disconnect

namespace Watched

variable (selector : Labels → Bool)

def start (nodeName : String) (cluster : Cluster) : Watched :=
  ⟨cluster, NodeWatcher.startNodeWatcher selector nodeName cluster, none⟩

/-- A watch is only started when there is none, and what a watch that breaks has not delivered is
lost. -/
def step (state : Watched) : WatchAction → Watched
  | .change change =>
    { state with
      cluster := state.cluster.apply change
      session := state.session.map (· ++ state.cluster.events selector change) }
  | .watch order =>
    match state.session with
    | some _ => state
    | none => { state with session := some (state.cluster.initialEvents selector order) }
  | .deliver order =>
    match state.session with
    | some (event :: rest) =>
      { state with
        watcher := state.watcher.handleEvent selector order event
        session := some rest }
    | _ => state
  | .disconnect => { state with session := none }

/-- When a watch is started, every known node matches. -/
def KnownMatch (state : Watched) : WatchAction → Prop
  | .watch _ => state.session = none →
    ∀ name ∈ state.watcher.known.keys, state.cluster.isMatching selector name = true
  | _ => True

instance (state : Watched) (action : WatchAction) :
    Decidable (state.KnownMatch selector action) := by
  cases action <;> delta KnownMatch <;> infer_instance

end Watched

/-! ### Replaying events -/

section Replay

variable (selector : Labels → Bool)

def Event.after (known : Set String) : Event → Set String
  | .added name labels => if selector labels then insert name known else known
  | .modified _ _ => known
  | .deleted name _ => known \ {name}

def replay (known : Set String) (queue : List Event) : Set String :=
  queue.foldl (Event.after selector) known

variable (cluster : Cluster)

def Cluster.matchingSet : Set String :=
  {name | cluster.isMatching selector name = true}

def NodeWatcher.knownSet (watcher : NodeWatcher) : Set String := {name | name ∈ watcher.known}

variable {selector}

theorem replay_append (known : Set String) (queue later : List Event) :
    replay selector known (queue ++ later) = replay selector (replay selector known queue) later :=
  foldl_append

theorem Cluster.matchingSet_insert (name : String) (labels : Labels) :
    Cluster.matchingSet selector (cluster.insert name labels) =
      if selector labels then insert name (cluster.matchingSet selector)
      else cluster.matchingSet selector \ {name} := by
  ext other
  show (AList.lookup other (cluster.insert name labels)).any selector = true ↔ _
  by_cases same : other = name
  · subst same
    cases accepted : selector labels <;> simp [accepted]
  · cases selector labels <;> simp [same, matchingSet, isMatching]

theorem Cluster.matchingSet_erase (name : String) :
    Cluster.matchingSet selector (cluster.erase name) = cluster.matchingSet selector \ {name} := by
  ext other
  show (AList.lookup other (cluster.erase name)).any selector = true ↔ _
  rw [GoMap.lookup_erase_if]
  by_cases same : other = name
  · simp [same]
  · simp [same, matchingSet, isMatching]

/-- The events of a change bring the set of matching nodes up to date. -/
theorem Cluster.replay_events (change : Change) :
    replay selector (cluster.matchingSet selector) (cluster.events selector change) =
      (cluster.apply change).matchingSet selector := by
  have unmatched {name : String} (before : ¬cluster.isMatching selector name = true) :
      cluster.matchingSet selector \ {name} = cluster.matchingSet selector :=
    Set.sdiff_singleton_eq_self before
  cases change with
  | write name labels =>
    rw [apply, matchingSet_insert, events]
    split
    case isTrue accepted =>
      split
      case isTrue before =>
        exact (Set.insert_eq_of_mem (show name ∈ cluster.matchingSet selector from before)).symm
      · exact if_pos accepted
    · split
      · rfl
      case isFalse before => exact (unmatched before).symm
  | remove name =>
    rw [apply, matchingSet_erase, events]
    split
    · rfl
    case isFalse before => exact (unmatched before).symm

/-- The events of a new watch add the nodes that match. -/
theorem Cluster.replay_initialEvents (order : IterationOrder) (cluster : Cluster)
    (known : Set String) :
    replay selector known (cluster.initialEvents selector order) =
      known ∪ cluster.matchingSet selector := by
  have adds (names : List String) (known : Set String)
      (accepted : ∀ name ∈ names, cluster.isMatching selector name = true) :
      replay selector known (names.map fun name => .added name ((cluster.lookup name).getD ∅)) =
        known ∪ {name | name ∈ names} := by
    induction names generalizing known with
    | nil => simp [replay]
    | cons name rest inductionHypothesis =>
      have accepts : selector ((cluster.lookup name).getD ∅) = true := by
        obtain ⟨_, found, accepts⟩ :=
          (Option.any_eq_true _ _).mp (accepted name (.head _))
        rw [found]
        exact accepts
      rw [map_cons, replay, foldl_cons, Event.after, if_pos accepts]
      refine (inductionHypothesis _ fun other member =>
        accepted other (.tail _ member)).trans ?_
      ext other
      simp only [Set.mem_union, Set.mem_insert_iff, Set.mem_ofPred_eq, mem_cons]
      tauto
  have listed (name : String) : name ∈ order.visit 0 (cluster.matchingNames selector) ↔
      cluster.isMatching selector name = true := by
    rw [IterationOrder.mem_visit, matchingNames, mem_filter, and_iff_right_iff_imp,
      ← AList.mem_keys]
    intro isMatching
    obtain ⟨_, found, _⟩ := (Option.any_eq_true _ _).mp isMatching
    exact GoMap.mem_of_lookup found
  rw [initialEvents, adds _ _ fun name member => (listed name).mp member]
  exact congrArg (known ∪ ·) (Set.ext listed)

end Replay

/-! ### The managed names -/

namespace NodeWatcher

variable {selector : Labels → Bool} {watcher : NodeWatcher}

def Installed (watcher : NodeWatcher) : Prop :=
  ∀ name, name ∈ watcher.managedNodeNames ↔ name ∈ watcher.known

theorem mem_knownNames (order : IterationOrder) (known : GoSet String) (name : String) :
    name ∈ knownNames order known ↔ name ∈ known := by
  rw [knownNames, IterationOrder.mem_visit, ← AList.mem_keys]

theorem handleEvent_spec (installed : watcher.Installed) (order : IterationOrder) (event : Event) :
    (watcher.handleEvent selector order event).Installed ∧
      (watcher.handleEvent selector order event).knownSet =
        event.after selector watcher.knownSet := by
  cases event with
  | added name labels =>
    have inserted : {other | other ∈ AList.insert name () watcher.known} =
        insert name watcher.knownSet := Set.ext fun _ => mem_insert _
    unfold handleEvent handleAdded Event.after
    dsimp only
    cases selector labels with
    | false => exact ⟨installed, rfl⟩
    | true =>
      simp only [Bool.not_true, Bool.false_eq_true, if_false, if_true]
      split
      case isTrue present =>
        have same := Set.ext_iff.mp (inserted.trans (Set.insert_eq_of_mem present))
        exact ⟨fun other => (installed other).trans (same other).symm, inserted⟩
      · exact ⟨mem_knownNames order _, inserted⟩
  | modified name labels => exact ⟨installed, rfl⟩
  | deleted name labels =>
    unfold handleEvent handleDeleted Event.after
    dsimp only
    split
    · exact ⟨mem_knownNames order _, Set.ext fun _ => mem_erase.trans and_comm⟩
    case isFalse absent =>
      exact ⟨installed, (Set.sdiff_singleton_eq_self absent).symm⟩

theorem installed_startNodeWatcher (nodeName : String) (cluster : Cluster) :
    (startNodeWatcher selector nodeName cluster).Installed := by
  intro name
  refine Iff.symm ((GoMap.mem_foldl_insert _ ∅ name).trans (or_iff_left (notMem_empty name)))

end NodeWatcher

namespace Watched

variable {selector : Labels → Bool} {state : Watched}

/-- The installed names are the known ones, and once the watch has delivered its events, these are
the nodes that match. -/
structure Tracks (selector : Labels → Bool) (state : Watched) : Prop where
  installed : state.watcher.Installed
  replays : ∀ queue, state.session = some queue →
    replay selector state.watcher.knownSet queue = state.cluster.matchingSet selector

/-- A step keeps track of the nodes that match, if every known node matches when a watch starts. -/
theorem Tracks.step (tracks : state.Tracks selector) (action : WatchAction)
    (knownMatch : state.KnownMatch selector action) :
    (state.step selector action).Tracks selector := by
  cases action with
  | change change =>
    refine ⟨tracks.installed, fun queue delivers => ?_⟩
    obtain ⟨earlier, session, rfl⟩ := Option.map_eq_some_iff.mp delivers
    rw [replay_append]
    show replay selector (replay selector state.watcher.knownSet earlier) _ = _
    rw [tracks.replays earlier session]
    exact Cluster.replay_events state.cluster change
  | watch order =>
    unfold Watched.step
    cases session : state.session with
    | some queue => exact tracks
    | none =>
      refine ⟨tracks.installed, fun queue delivers => ?_⟩
      cases delivers
      refine (Cluster.replay_initialEvents order state.cluster _).trans ?_
      refine Set.union_eq_self_of_subset_left fun name known => ?_
      exact knownMatch session name known
  | deliver order =>
    simp only [Watched.step]
    split
    case h_1 event rest session =>
      obtain ⟨installed, known⟩ := NodeWatcher.handleEvent_spec tracks.installed order event
      refine ⟨installed, fun queue delivers => ?_⟩
      cases delivers
      rw [← tracks.replays _ session, known]
      rfl
    · exact tracks
  | disconnect => exact ⟨tracks.installed, nofun⟩

theorem tracks_start (nodeName : String) (cluster : Cluster) :
    (start selector nodeName cluster).Tracks selector :=
  ⟨NodeWatcher.installed_startNodeWatcher nodeName cluster, nofun⟩

/-- The agent treats exactly the nodes that match as managed, unless there are none and the local
node stands in for them. -/
structure ManagesMatching (selector : Labels → Bool) (nodeName : String) (state : Watched) :
    Prop where
  managed : ∀ name, name ∈ state.watcher.managedNodeNames ↔
    state.cluster.isMatching selector name = true
  isManaged : (∃ name, state.cluster.isMatching selector name = true) → ∀ name,
    (state.watcher.isManaged nodeName name = true ↔ state.cluster.isMatching selector name = true)

theorem Tracks.managesMatching (tracks : state.Tracks selector)
    (delivered : state.session = some []) (nodeName : String) :
    state.ManagesMatching selector nodeName := by
  have managed (name : String) : name ∈ state.watcher.managedNodeNames ↔
      state.cluster.isMatching selector name = true :=
    (tracks.installed name).trans (Set.ext_iff.mp (tracks.replays [] delivered) name)
  refine ⟨managed, fun ⟨other, isMatching⟩ name => ?_⟩
  have occupied : state.watcher.managedNodeNames ≠ [] :=
    ne_nil_of_mem ((managed other).mpr isMatching)
  rw [NodeWatcher.isManaged, NodeWatcher.getManagedNames, if_neg occupied, decide_eq_true_iff]
  exact managed name

/-- Along every run in which each known node matches whenever a watch starts, the managed names are
the nodes that match once a watch has delivered all its events. -/
theorem run_managesMatching (nodeName : String) (cluster : Cluster) (actions : List WatchAction)
    (meets : Meets (step selector) (KnownMatch selector) (start selector nodeName cluster) actions)
    (delivered : (run (step selector) (start selector nodeName cluster) actions).session =
      some []) :
    ManagesMatching selector nodeName
      (run (step selector) (start selector nodeName cluster) actions) :=
  (meets.invariant (Tracks selector) (fun _ action tracks => tracks.step action)
    (tracks_start nodeName cluster)).managesMatching delivered nodeName

/-- Nodes are selected by a label, as the agent's own are. -/
def isHosted (labels : Labels) : Bool := (labels.lookup "host").isSome

def hosted : Labels := (∅ : Labels).insert "host" "constellation"

def pair : Cluster := ((∅ : Cluster).insert "a" hosted).insert "b" hosted

def reportedDeletion : List WatchAction :=
  [.watch .listed, .deliver .listed, .deliver .listed, .change (.remove "b"), .deliver .listed]

def missedDeletion : List WatchAction :=
  [.change (.remove "b"), .watch .listed, .deliver .listed]

theorem reportedDeletion_managesMatching :
    ManagesMatching isHosted "a" (run (step isHosted) (start isHosted "a" pair) reportedDeletion) :=
  run_managesMatching "a" pair reportedDeletion (by decide +kernel) (by decide +kernel)

/-- The watch has delivered all its events, and the deleted node is still managed. -/
theorem missedDeletion_managed :
    let state := run (step isHosted) (start isHosted "a" pair) missedDeletion
    state.session = some [] ∧ state.cluster.isMatching isHosted "b" = false ∧
      "b" ∈ state.watcher.managedNodeNames ∧ state.watcher.isManaged "a" "b" = true := by
  decide +kernel

end Watched

end Constellation.K8s
