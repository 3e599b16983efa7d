/-
This file proves which traversals of the trie stop when their callback asks them to. The recursion
of `ForEach` and `Descendants` returns from the node at which the callback answered false, and its
caller goes on with the sibling: these two stop exactly if everything that comes later is below
that node. The others always stop.
-/

import Constellation.Bitlpm.Represent

namespace Constellation.Bitlpm

open Lib Node Policy Trie

variable {K T : Type} [Key K] {σ : Type}

/-- Calls of a callback that end when it answers false, on each entry with a property at most
once. -/
structure PrefixMap.Stops (map : PrefixMap K T) (keep : Entry K T → Prop)
    (made : List (Entry K T × Bool)) : Prop where
  stopped : Stopped made
  once : (made.map Prod.fst).Pairwise fun first second => first.bits ≠ second.bits
  found : ∀ call ∈ made, map.Has call.1 ∧ keep call.1

structure StopWhenTold (heap : Worklist (Node K T)) (t : Trie K T) (map : PrefixMap K T)
    (fn : σ → Entry K T → σ × Bool) (state : σ) (prefixLen : Nat) (k : K) : Prop where
  forEach : map.Stops (fun _ => True) (calls fn t.forEach state)
  descendants : map.Stops (IsDescendant (min prefixLen t.maxPrefix) k)
    (calls fn (t.descendants prefixLen k) state)
  descendantsShortestPrefixFirst : map.Stops (IsDescendant (min prefixLen t.maxPrefix) k)
    (calls fn (t.descendantsShortestPrefixFirst heap prefixLen k) state)
  ancestors : map.Stops (IsAncestor (min prefixLen t.maxPrefix) k)
    (calls fn (t.ancestors prefixLen k) state)
  ancestorsLongestPrefixFirst : map.Stops (IsAncestor (min prefixLen t.maxPrefix) k)
    (calls fn (t.ancestorsLongestPrefixFirst prefixLen k) state)

/-- The second entry is at or below the first. -/
def Entry.Covers (upper lower : Entry K T) : Prop := IsDescendant upper.prefixLen upper.key lower

variable {map : PrefixMap K T} {keep : Entry K T → Prop} {entries : List (Entry K T)}
  {fn : σ → Entry K T → σ × Bool}

theorem PrefixMap.Lists.stops_iff (lists : map.Lists keep entries) {below} (loop) (state : σ)
    (walks : Walks fn below entries (loop (recording fn))) :
    map.Stops keep (calls fn loop state) ↔ StopsAbove fn below state entries := by
  obtain ⟨sublist, stopped_iff⟩ := walks.calls_iff state
  rw [← stopped_iff]
  refine ⟨Stops.stopped, fun stopped => ⟨stopped, lists.once.sublist sublist, ?_⟩⟩
  exact fun call member => (lists.mem_iff _).mp (sublist.subset (List.mem_map_of_mem member))

/-- A traversal that visits a list until it is asked to stop. -/
theorem PrefixMap.Lists.stops (lists : map.Lists keep entries) {loop} (state : σ)
    (visits : ∀ fn state, loop fn state = visitWhile fn state entries) :
    map.Stops keep (calls fn loop state) := by
  have walks : Walks fn (fun _ _ => True) entries (loop (recording fn)) := by
    rw [funext (visits _)]
    exact .visitWhile entries
  exact (lists.stops_iff loop state walks).mpr (stopsAbove_true state entries)

/-- The recursion over the nodes goes on beside the node at which it was asked to stop. -/
theorem Node.Fits.walks {maxPrefix : Nat} {path : List Bool} {node : Node K T}
    (fits : node.Fits maxPrefix path) (fn : σ → Entry K T → σ × Bool) :
    Walks fn Entry.Covers node.contents (node.forEach (recording fn)) := by
  induction node generalizing path with
  | nil => exact .nil
  | node prefixLen key value zero one zeroHypothesis oneHypothesis =>
    have sides := (zeroHypothesis fits.2.2.1).append (oneHypothesis fits.2.2.2.1) <| by
      intro upper inZero lower inOne covers
      have left := under_snoc.mp (fits.2.2.1.under inZero).1
      have right := under_snoc.mp (fits.2.2.2.1.under inOne).1
      have same := right.2.2.symm.trans (bitValueAt_eq_of_lt left.1 covers.2)
      cases same.trans left.2.2
    cases value with
    | none => exact sides
    | some value =>
      refine sides.cons fun lower member => ?_
      have inChild : ∃ bit, lower ∈ (Node.child bit zero one).contents :=
        Bool.exists_bool.mpr (List.mem_append.mp member)
      obtain ⟨bit, inChild⟩ := inChild
      exact ⟨(fits.below inChild).1.le, (fits.below inChild).2.1⟩

/-- After every sequence of changes, all traversals stop when they are asked to exactly if, in the
depth-first order of `ForEach` and in that of `Descendants`, what comes after the first entry at
which the callback answers false is below that entry. -/
theorem stopWhenTold_iff {maxPrefix : Nat} (agrees : Agrees K maxPrefix)
    (heap : Worklist (Node K T)) (operations : List (Operation K T))
    (fn : σ → Entry K T → σ × Bool) (state : σ) (prefixLen : Nat) (k : K) :
    StopWhenTold heap (afterRun maxPrefix operations) (PrefixMap.afterRun maxPrefix operations)
        fn state prefixLen k ↔
      StopsAbove fn Entry.Covers state (afterRun maxPrefix operations).root.contents ∧
        StopsAbove fn Entry.Covers state
          ((afterRun maxPrefix operations).descendantRoot prefixLen k).contents := by
  have holds := holds_run agrees (holds_newTrie _) operations
  have forEach := holds.lists_contents.stops_iff (forEach _) state (holds.fits.walks fn)
  obtain ⟨path, fits⟩ := holds.fits_descendantRoot prefixLen k
  have drained := holds.lists_drained agrees heap prefixLen k
  have descendants := (drained.of_perm (Node.drained_perm heap _).symm).stops_iff
    (descendants _ prefixLen k) state (fits.walks fn)
  have ancestors := holds.lists (IsAncestor
    (min prefixLen (afterRun maxPrefix operations).maxPrefix) k)
  rw [← Node.ancestorsIn, holds.ancestorsIn_eq] at ancestors
  refine ⟨fun stop => ⟨forEach.mp stop.forEach, descendants.mp stop.descendants⟩, fun above => ?_⟩
  refine ⟨forEach.mpr above.1, descendants.mpr above.2, drained.stops state ?_,
    ancestors.stops state (holds.ancestors_eq agrees prefixLen k),
    (ancestors.of_perm (List.reverse_perm _)).stops state
      (holds.ancestorsLongestPrefixFirst_eq agrees prefixLen k)⟩
  exact fun fn state => heap.forEach_eq_visitWhile Node.size_children Node.entry fn state _

/-- Two entries beside each other: the callback is called on the second one although it answered
false on the first. -/
theorem not_stopWhenTold : ¬StopWhenTold (Worklist.sorted Node.prefixLen)
    (afterRun 25 [.upsert 1 (keyForDirection .ingress).lpmKey 7,
      .upsert 1 (keyForDirection .egress).lpmKey 8])
    (PrefixMap.afterRun 25 [.upsert 1 (keyForDirection .ingress).lpmKey 7,
      .upsert 1 (keyForDirection .egress).lpmKey 8])
    (fun (_ : Unit) _ => ((), false)) () 0 (keyForDirection .ingress).lpmKey :=
  fun stop => absurd stop.forEach.stopped (by decide +kernel)

def covered : List (Operation Policy.LPMKey Nat) :=
  [.upsert 1 (keyForDirection .ingress).lpmKey 7, .upsert 1 (keyForDirection .egress).lpmKey 8,
    .upsert 0 (keyForDirection .ingress).lpmKey 9]

/-- The traversals stop at the upper entry. -/
theorem covered_stopWhenTold : StopWhenTold (Worklist.sorted Node.prefixLen) (afterRun 25 covered)
    (PrefixMap.afterRun 25 covered) (fun (_ : Unit) _ => ((), false)) () 0
    (keyForDirection .ingress).lpmKey := by
  have above : ∀ lower, Entry.Covers ⟨0, (keyForDirection .ingress).lpmKey, 9⟩ lower :=
    fun _ => ⟨Nat.zero_le _, rfl⟩
  exact (stopWhenTold_iff agrees_lpmKey _ _ _ _ _ _).mpr
    ⟨fun lower _ => above lower, fun lower _ => above lower⟩

end Constellation.Bitlpm
