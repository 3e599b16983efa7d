/-
This file proves that the bit trie is a longest-prefix-match map: a map from strings of bits to
the key and the value upserted last for them. After any sequence of operations every search
answers what the map defines, each result once and in the promised order. The keys of the policy
map are keys the theorem applies to.
-/

import Constellation.Lib.Run
import Constellation.Policy.Types
import Constellation.Bitlpm.Change

namespace Constellation.Bitlpm

open Lib List Option Trie Entry Policy

variable {K T : Type} [Key K] (entry : Entry K T)

/-! ### The map -/

/-- The keys and values that were upserted last, by the bits of their prefixes. -/
abbrev PrefixMap (K T : Type) := List Bool → Option (K × T)

inductive Operation (K T : Type)
  | upsert (prefixLen : Nat) (k : K) (value : T)
  | delete (prefixLen : Nat) (k : K)

namespace PrefixMap

/-- What a change does to the map. Prefixes are cut to the longest length. -/
def apply (maxPrefix : Nat) (map : PrefixMap K T) : Operation K T → PrefixMap K T
  | .upsert prefixLen k value =>
    Function.update map (bits (min prefixLen maxPrefix) k) (some (k, value))
  | .delete prefixLen k => Function.update map (bits (min prefixLen maxPrefix) k) none

def Has (map : PrefixMap K T) (entry : Entry K T) : Prop := map entry.bits = some entry.pair

def entryAt (map : PrefixMap K T) (k : K) (prefixLen : Nat) : Option (Entry K T) :=
  (map (bits prefixLen k)).map fun pair => ⟨prefixLen, pair.1, pair.2⟩

/-- The entries for the prefixes of a prefix, from the shortest on. -/
def ancestorsOf (map : PrefixMap K T) (prefixLen : Nat) (k : K) : List (Entry K T) :=
  (List.range (prefixLen + 1)).filterMap (map.entryAt k)

/-- A list has the entries of the map with a property, each once. -/
structure Lists (map : PrefixMap K T) (keep : Entry K T → Prop) (entries : List (Entry K T)) :
    Prop where
  once : entries.Pairwise fun first second => first.bits ≠ second.bits
  mem_iff : ∀ entry, entry ∈ entries ↔ map.Has entry ∧ keep entry

end PrefixMap

omit [Key K] in
def CallsOn (iterate : ∀ {σ : Type}, (σ → Entry K T → σ × Bool) → σ → σ)
    (entries : List (Entry K T)) : Prop :=
  ∀ {σ : Type} (fn : σ → Entry K T → σ × Bool) (state : σ),
    (∀ state entry, (fn state entry).2 = true) → iterate fn state = visitWhile fn state entries

open Node in
/-- The answers of a trie are what a map defines, with the heap that takes the shortest prefix
first. -/
structure Represents (heap : Worklist (Node K T)) (t : Trie K T) (map : PrefixMap K T) : Prop where
  exactLookup : ∀ prefixLen k,
    t.exactLookup prefixLen k = (map (bits (min prefixLen t.maxPrefix) k)).map Prod.snd
  longestPrefixMatch : ∀ k,
    t.longestPrefixMatch k = (map.ancestorsOf t.maxPrefix k).getLast?.map pair
  ancestors : ∀ prefixLen k,
    CallsOn (t.ancestors prefixLen k) (map.ancestorsOf (min prefixLen t.maxPrefix) k)
  ancestorIterator : ∀ prefixLen k, Yields AncestorIterator.next (t.ancestorIterator prefixLen k)
      ((map.ancestorsOf (min prefixLen t.maxPrefix) k).map pair)
  ancestorsLongestPrefixFirst : ∀ prefixLen k, CallsOn (t.ancestorsLongestPrefixFirst prefixLen k)
      (map.ancestorsOf (min prefixLen t.maxPrefix) k).reverse
  ancestorLongestPrefixFirstIterator : ∀ prefixLen k,
    Yields AncestorLPFIterator.next (t.ancestorLongestPrefixFirstIterator prefixLen k)
      ((map.ancestorsOf (min prefixLen t.maxPrefix) k).reverse.map pair)
  descendants : ∀ prefixLen k, ∃ entries,
    map.Lists (IsDescendant (min prefixLen t.maxPrefix) k) entries ∧
      CallsOn (t.descendants prefixLen k) entries
  descendantIterator : ∀ prefixLen k, ∃ entries,
    map.Lists (IsDescendant (min prefixLen t.maxPrefix) k) entries ∧
      Yields (descendantNext (nodes K T)) (t.descendantIterator prefixLen k) (entries.map pair)
  descendantsShortestPrefixFirst : ∀ prefixLen k, ∃ entries,
    map.Lists (IsDescendant (min prefixLen t.maxPrefix) k) entries ∧
      (entries.Pairwise fun first second => first.prefixLen ≤ second.prefixLen) ∧
      CallsOn (t.descendantsShortestPrefixFirst heap prefixLen k) entries
  descendantShortestPrefixFirstIterator : ∀ prefixLen k, ∃ entries,
    map.Lists (IsDescendant (min prefixLen t.maxPrefix) k) entries ∧
      (entries.Pairwise fun first second => first.prefixLen ≤ second.prefixLen) ∧
      Yields (descendantNext heap) (t.descendantShortestPrefixFirstIterator heap prefixLen k)
        (entries.map pair)
  forEach : ∃ entries, map.Lists (fun _ => True) entries ∧ CallsOn t.forEach entries
  len : ∃ entries, map.Lists (fun _ => True) entries ∧ t.len = entries.length
  upsert : ∀ prefixLen k value,
    (t.upsert prefixLen k value).2 = true ↔ map (bits (min prefixLen t.maxPrefix) k) = none
  delete : ∀ prefixLen k,
    (t.delete prefixLen k).2 = true ↔ (map (bits (min prefixLen t.maxPrefix) k)).isSome

/-! ### Trie and map -/

structure Holds (maxPrefix : Nat) (t : Trie K T) (map : PrefixMap K T) : Prop where
  maxPrefix_eq : t.maxPrefix = maxPrefix
  fits : t.root.Fits maxPrefix []
  found_iff : ∀ path pair, map path = some pair ↔
    ∃ entry ∈ t.root.contents, entry.bits = path ∧ entry.pair = pair
  entries_eq : t.entries = t.root.contents.length

omit [Key K] in
theorem Entry.eq_of_prefixLen_eq {first second : Entry K T}
    (lengths : first.prefixLen = second.prefixLen) (pair : first.pair = second.pair) :
    first = second := by
  obtain ⟨sameKey, sameValue⟩ := Prod.mk.inj pair
  cases first
  cases second
  simp only [mk.injEq]
  exact ⟨lengths, sameKey, sameValue⟩

theorem Entry.length_bits : entry.bits.length = entry.prefixLen :=
  Bitlpm.length_bits _ _

theorem Entry.eq_of_bits_eq {first second : Entry K T} (bits : first.bits = second.bits)
    (pair : first.pair = second.pair) : first = second := by
  refine eq_of_prefixLen_eq ?_ pair
  rw [← first.length_bits, bits, second.length_bits]

namespace Holds

variable {maxPrefix : Nat} {t : Trie K T} {map : PrefixMap K T} (holds : Holds maxPrefix t map)

include holds

theorem has_iff : map.Has entry ↔ entry ∈ t.root.contents := by
  rw [PrefixMap.Has, holds.found_iff]
  constructor
  · rintro ⟨other, member, bits, pair⟩
    rwa [← eq_of_bits_eq bits pair]
  · intro member
    exact ⟨entry, member, rfl, rfl⟩

theorem eq_none_iff (path : List Bool) :
    map path = none ↔ ∀ entry ∈ t.root.contents, entry.bits ≠ path := by
  constructor
  · intro none entry member same
    have found := (holds.found_iff path entry.pair).mpr ⟨entry, member, same, rfl⟩
    cases none.symm.trans found
  · intro different
    refine eq_none_iff_forall_ne_some.mpr fun pair found => ?_
    obtain ⟨entry, member, same, _⟩ := (holds.found_iff path pair).mp found
    exact different entry member same

theorem lists (keep : Entry K T → Prop) [DecidablePred keep] :
    map.Lists keep (t.root.contents.filter fun entry => keep entry) where
  once := holds.fits.distinct.filter _
  mem_iff entry := by
    rw [mem_filter, holds.has_iff, decide_eq_true_iff]

theorem lists_contents : map.Lists (fun _ => True) t.root.contents := by
  have all := holds.lists fun _ => True
  simpa only [decide_true, filter_true] using all

end Holds

variable {map : PrefixMap K T}

theorem PrefixMap.Lists.of_perm {keep : Entry K T → Prop} {first second : List (Entry K T)}
    (lists : map.Lists keep second) (same : first.Perm second) :
    map.Lists keep first where
  once := (same.pairwise_iff fun different => Ne.symm different).mpr lists.once
  mem_iff entry := same.mem_iff.trans (lists.mem_iff entry)

/-! ### Keeping the relation -/

def Trie.apply (t : Trie K T) : Operation K T → Trie K T
  | .upsert prefixLen k value => (t.upsert prefixLen k value).1
  | .delete prefixLen k => (t.delete prefixLen k).1

theorem holds_newTrie (maxPrefix : Nat) :
    Holds maxPrefix (newTrie maxPrefix) (fun _ => none : PrefixMap K T) where
  maxPrefix_eq := rfl
  fits := trivial
  found_iff path pair := by
    simp [newTrie, Node.contents]
  entries_eq := rfl

namespace Holds

variable {maxPrefix : Nat} {t : Trie K T} {map : PrefixMap K T} (holds : Holds maxPrefix t map)
  (agrees : Agrees K maxPrefix)

include holds agrees

variable (prefixLen : Nat)

theorem upserted (k : K) (value : T) :
    t.root.Upserted maxPrefix [] ⟨min prefixLen maxPrefix, k, value⟩
      (t.root.upsert maxPrefix (min prefixLen maxPrefix) k value) := by
  have short : (⟨min prefixLen maxPrefix, k, value⟩ : Entry K T).prefixLen ≤ maxPrefix :=
    Nat.min_le_right _ _
  exact Node.upserted agrees short holds.fits ⟨Nat.zero_le _, rfl⟩

theorem deleted (k : K) : t.root.Deleted maxPrefix [] (min prefixLen maxPrefix) k
      (t.root.delete (min prefixLen maxPrefix) k) :=
  Node.deleted agrees holds.fits

theorem upsert (k : K) (value : T) : Holds maxPrefix (t.upsert prefixLen k value).1
      (map.apply maxPrefix (.upsert prefixLen k value)) := by
  have after := holds.upserted agrees prefixLen k value
  refine ⟨holds.maxPrefix_eq, ?_, fun path pair => ?_, ?_⟩
  · rw [Trie.upsert, holds.maxPrefix_eq]
    exact after.fits
  · rw [Trie.upsert, holds.maxPrefix_eq, PrefixMap.apply, Function.update_apply]
    simp only [after.mem_iff]
    split
    case isTrue same =>
      subst same
      rw [Option.some.injEq]
      constructor
      · rintro rfl
        exact ⟨_, .inl rfl, rfl, rfl⟩
      · rintro ⟨entry, rfl | ⟨_, different⟩, same, rfl⟩
        · rfl
        · exact absurd same different
    case isFalse other =>
      rw [holds.found_iff]
      constructor
      · rintro ⟨entry, member, rfl, rfl⟩
        exact ⟨entry, .inr ⟨member, other⟩, rfl, rfl⟩
      · rintro ⟨entry, rfl | ⟨member, _⟩, same, samePair⟩
        · exact absurd same.symm other
        · exact ⟨entry, member, same, samePair⟩
  · have length := after.length_eq
    rw [Trie.upsert, holds.maxPrefix_eq]
    simp only [holds.entries_eq]
    rw [length]
    split <;> rfl

theorem delete (k : K) :
    Holds maxPrefix (t.delete prefixLen k).1 (map.apply maxPrefix (.delete prefixLen k)) := by
  have after := holds.deleted agrees prefixLen k
  have cut (remaining : List (Entry K T)) (kept : ∀ entry, entry ∈ remaining ↔
        entry ∈ t.root.contents ∧ entry.bits ≠ bits (min prefixLen maxPrefix) k)
      (path : List Bool) (pair : K × T) :
      map.apply maxPrefix (.delete prefixLen k) path = some pair ↔
        ∃ entry ∈ remaining, entry.bits = path ∧ entry.pair = pair := by
    rw [PrefixMap.apply, Function.update_apply]
    simp only [kept]
    split
    case isTrue same =>
      refine ⟨nofun, ?_⟩
      rintro ⟨entry, ⟨_, different⟩, isPath, _⟩
      exact absurd (isPath.trans same) different
    case isFalse other =>
      rw [holds.found_iff]
      constructor
      · rintro ⟨entry, member, rfl, rfl⟩
        exact ⟨entry, ⟨member, other⟩, rfl, rfl⟩
      · rintro ⟨entry, ⟨member, _⟩, same, samePair⟩
        exact ⟨entry, member, same, samePair⟩
  rw [Trie.delete, holds.maxPrefix_eq]
  generalize t.root.delete (min prefixLen maxPrefix) k = deletion at after
  cases deletion with
  | notFound =>
    exact ⟨holds.maxPrefix_eq, holds.fits,
      cut _ fun entry => ⟨fun member => ⟨member, after entry member⟩, And.left⟩, holds.entries_eq⟩
  | leaf =>
    obtain ⟨entry, only, same⟩ := after
    refine ⟨rfl, trivial, cut [] fun other => ?_, ?_⟩
    · rw [only, mem_singleton]
      refine ⟨fun none => absurd none not_mem_nil, ?_⟩
      rintro ⟨rfl, different⟩
      exact absurd same different
    · show t.entries - 1 = 0
      rw [holds.entries_eq, only]
      rfl
  | replaced later =>
    obtain ⟨fits, _, _, kept, length⟩ := after
    refine ⟨rfl, fits, cut _ kept, ?_⟩
    rw [holds.entries_eq, length, Nat.add_sub_cancel]

theorem apply (operation : Operation K T) :
    Holds maxPrefix (t.apply operation) (map.apply maxPrefix operation) := by
  cases operation with
  | upsert prefixLen k value => exact holds.upsert agrees prefixLen k value
  | delete prefixLen k => exact holds.delete agrees prefixLen k

theorem upsert_fresh_iff (k : K) (value : T) :
    (t.upsert prefixLen k value).2 = true ↔ map (bits (min prefixLen t.maxPrefix) k) = none := by
  rw [Trie.upsert, holds.maxPrefix_eq, holds.eq_none_iff]
  exact (holds.upserted agrees prefixLen k value).fresh_iff

theorem delete_found_iff (k : K) :
    (t.delete prefixLen k).2 = true ↔ (map (bits (min prefixLen t.maxPrefix) k)).isSome := by
  have after := holds.deleted agrees prefixLen k
  rw [Trie.delete, holds.maxPrefix_eq, ← ne_none_iff_isSome, Ne, holds.eq_none_iff]
  generalize t.root.delete (min prefixLen maxPrefix) k = deletion at after
  cases deletion with
  | notFound => exact ⟨nofun, fun found => absurd after found⟩
  | leaf =>
    obtain ⟨entry, only, same⟩ := after
    refine ⟨fun _ different => ?_, fun _ => rfl⟩
    exact different entry (only ▸ mem_singleton.mpr rfl) same
  | replaced later =>
    obtain ⟨_, _, ⟨entry, member, same⟩, _⟩ := after
    exact ⟨fun _ different => different entry member same, fun _ => rfl⟩

end Holds

/-! ### Ancestors -/

omit [Key K] in
theorem visitWhile_find {test : Entry K T → Prop} [DecidablePred test] (found : Option T)
    (entries : List (Entry K T)) :
    visitWhile (fun found entry => if test entry then (some entry.value, false) else (found, true))
      found entries = ((entries.find? fun entry => test entry).map value).or found := by
  induction entries with
  | nil => rfl
  | cons entry rest inductionHypothesis =>
    rw [visitWhile, find?_cons]
    by_cases isFound : test entry
    · simp [isFound]
    · simp [isFound, inductionHypothesis]

omit [Key K] in
theorem visitWhile_last (entries : List (Entry K T)) :
    visitWhile (fun _ entry => (some entry.pair, true)) none entries =
      entries.getLast?.map pair := by
  induction entries using List.reverseRecOn with
  | nil => rfl
  | append_singleton front last _ =>
    rw [visitWhile_append (fun _ _ => rfl), getLast?_concat]
    rfl

omit [Key K] in
theorem yields_lpf (entries : List (Entry K T)) :
    Yields AncestorLPFIterator.next entries (entries.map pair) := by
  induction entries with
  | nil => exact .ends rfl
  | cons entry rest inductionHypothesis => exact .result rfl inductionHypothesis

theorem PrefixMap.mem_ancestorsOf {prefixLen : Nat} {k : K} {entry : Entry K T} :
    entry ∈ map.ancestorsOf prefixLen k ↔
      entry.prefixLen ≤ prefixLen ∧ map (bits entry.prefixLen k) = some entry.pair := by
  simp only [ancestorsOf, mem_filterMap, mem_range, Nat.lt_succ_iff, entryAt, map_eq_some_iff]
  constructor
  · rintro ⟨count, le, pair, found, rfl⟩
    exact ⟨le, found⟩
  · rintro ⟨le, found⟩
    exact ⟨entry.prefixLen, le, entry.pair, found, rfl⟩

theorem PrefixMap.ancestorsOf_pairwise (map : PrefixMap K T) (prefixLen : Nat) (k : K) :
    (map.ancestorsOf prefixLen k).Pairwise fun first second =>
      first.prefixLen < second.prefixLen := by
  refine List.Pairwise.filterMap _ (fun first second less entry isFirst other isSecond => ?_)
    pairwise_lt_range
  obtain ⟨_, _, rfl⟩ := map_eq_some_iff.mp isFirst
  obtain ⟨_, _, rfl⟩ := map_eq_some_iff.mp isSecond
  exact less

namespace Holds

variable {maxPrefix : Nat} {t : Trie K T} {map : PrefixMap K T} (holds : Holds maxPrefix t map)

include holds

theorem ancestorsIn_eq (prefixLen : Nat) (k : K) :
    t.root.ancestorsIn prefixLen k = map.ancestorsOf prefixLen k := by
  have ordered := holds.fits.ancestorsIn_pairwise prefixLen k
  have orderedMap := map.ancestorsOf_pairwise prefixLen k
  have members (entry : Entry K T) : entry ∈ t.root.ancestorsIn prefixLen k ↔
      entry ∈ map.ancestorsOf prefixLen k := by
    rw [Node.ancestorsIn, mem_filter, decide_eq_true_iff, PrefixMap.mem_ancestorsOf,
      holds.found_iff]
    constructor
    · rintro ⟨member, le, same⟩
      exact ⟨le, entry, member, same, rfl⟩
    · rintro ⟨le, other, member, same, pair⟩
      have lengths : other.prefixLen = entry.prefixLen := by
        rw [← other.length_bits, same, length_bits]
      obtain rfl := eq_of_prefixLen_eq lengths pair
      exact ⟨member, le, same⟩
  have nodup {entries : List (Entry K T)}
      (increasing : entries.Pairwise fun first second => first.prefixLen < second.prefixLen) :
      entries.Nodup := by
    refine increasing.imp ?_
    rintro first _ less rfl
    exact Nat.lt_irrefl _ less
  refine List.Perm.eq_of_pairwise (fun first second _ _ less more => ?_) ordered orderedMap
    ((perm_ext_iff_of_nodup (nodup ordered) (nodup orderedMap)).mpr members)
  exact absurd more (Nat.lt_asymm less)

/-- The iterator for the longest prefix first does not cut the length of the searched prefix. The
ancestors are the same. -/
theorem ancestorsIn_min (prefixLen : Nat) (k : K) :
    t.root.ancestorsIn prefixLen k = t.root.ancestorsIn (min prefixLen maxPrefix) k := by
  refine filter_congr fun entry member => decide_eq_decide.mpr ?_
  have short := (holds.fits.under member).2
  refine and_congr_left fun _ => ⟨fun le => le_min le short, fun le => ?_⟩
  exact le.trans (min_le_left _ _)

variable (agrees : Agrees K maxPrefix)

include agrees

theorem stacked_eq (prefixLen : Nat) (k : K) :
    t.root.stacked maxPrefix prefixLen k = map.ancestorsOf (min prefixLen maxPrefix) k := by
  rw [Node.stacked_eq agrees holds.fits, holds.ancestorsIn_min, holds.ancestorsIn_eq]

section

variable {σ : Type} (prefixLen : Nat) (k : K) (fn : σ → Entry K T → σ × Bool) (state : σ)
include prefixLen k fn state

theorem traverse_eq :
    t.root.traverse maxPrefix (min prefixLen maxPrefix) k fn state =
      visitWhile fn state (map.ancestorsOf (min prefixLen maxPrefix) k) := by
  rw [Node.traverse_eq, holds.stacked_eq agrees, Nat.min_assoc, Nat.min_self]

theorem ancestors_eq : t.ancestors prefixLen k fn state =
      visitWhile fn state (map.ancestorsOf (min prefixLen t.maxPrefix) k) := by
  rw [ancestors, holds.maxPrefix_eq]
  exact holds.traverse_eq agrees prefixLen k fn state

theorem ancestorsLongestPrefixFirst_eq :
    t.ancestorsLongestPrefixFirst prefixLen k fn state =
      visitWhile fn state (map.ancestorsOf (min prefixLen t.maxPrefix) k).reverse := by
  rw [ancestorsLongestPrefixFirst, Node.treverse, holds.maxPrefix_eq, holds.stacked_eq agrees,
    Nat.min_assoc, Nat.min_self]

end

theorem exactLookup_eq (prefixLen : Nat) (k : K) :
    t.exactLookup prefixLen k = (map (bits (min prefixLen t.maxPrefix) k)).map Prod.snd := by
  rw [exactLookup, holds.maxPrefix_eq, holds.traverse_eq agrees, visitWhile_find, or_none]
  cases found : (map.ancestorsOf (min prefixLen maxPrefix) k).find?
      (fun entry => entry.prefixLen = min prefixLen maxPrefix) with
  | none =>
    have missing : map (bits (min prefixLen maxPrefix) k) = none := by
      refine eq_none_iff_forall_ne_some.mpr fun pair isPair => ?_
      have member : ⟨min prefixLen maxPrefix, pair.1, pair.2⟩ ∈
          map.ancestorsOf (min prefixLen maxPrefix) k :=
        PrefixMap.mem_ancestorsOf.mpr ⟨le_rfl, isPair⟩
      exact find?_eq_none.mp found _ member (decide_eq_true rfl)
    rw [missing]
    rfl
  | some entry =>
    have own := (PrefixMap.mem_ancestorsOf.mp (mem_of_find?_eq_some found)).2
    have isFound : entry.prefixLen = min prefixLen maxPrefix := by
      simpa using find?_some found
    rw [← isFound, own]
    rfl

end Holds

/-! ### Descendants -/

variable {maxPrefix : Nat} {t : Trie K T}

/-- What is met when a worklist is drained from the node of the descendants lists them. -/
theorem Holds.lists_drained (holds : Holds maxPrefix t map) (agrees : Agrees K maxPrefix)
    (worklist : Worklist (Node K T)) (prefixLen : Nat) (k : K) :
    map.Lists (Node.IsDescendant (min prefixLen t.maxPrefix) k)
      (Node.drained worklist (t.descendantRoot prefixLen k)) := by
  have below : (t.descendantRoot prefixLen k).contents = t.root.contents.filter
      (fun entry => Node.IsDescendant (min prefixLen t.maxPrefix) k entry) := by
    rw [descendantRoot, holds.maxPrefix_eq]
    exact Node.contents_seek agrees holds.fits
  exact (below ▸ holds.lists _).of_perm (Node.drained_perm worklist _)

variable {heap : Worklist (Node K T)}

theorem Holds.fits_descendantRoot (holds : Holds maxPrefix t map) (prefixLen : Nat) (k : K) :
    ∃ path, (t.descendantRoot prefixLen k).Fits maxPrefix path := by
  rw [descendantRoot, holds.maxPrefix_eq]
  exact holds.fits.seek

/-- From a heap, the descendants are met by increasing length of their prefixes. -/
theorem Holds.drained_pairwise (holds : Holds maxPrefix t map)
    (least : heap.TakesLeast Node.prefixLen) (prefixLen : Nat) (k : K) :
    (Node.drained heap (t.descendantRoot prefixLen k)).Pairwise fun first second =>
      first.prefixLen ≤ second.prefixLen := by
  obtain ⟨path, fits⟩ := holds.fits_descendantRoot prefixLen k
  exact Node.drained_pairwise least fits

omit [Key K] in
/-- The iterators over descendants yield what is met when their worklist is drained. -/
theorem yields_descendantNext (worklist : Worklist (Node K T)) (node : Node K T) :
    Yields (descendantNext worklist) (started worklist node)
      ((Node.drained worklist node).map pair) := by
  rw [Node.drained, map_filterMap]
  exact worklist.yields_next Node.size_children (fun node => node.entry.map pair) _

/-! ### The trie is the map -/

/-- A trie that holds a map answers as the map does. -/
theorem Holds.represents (holds : Holds maxPrefix t map) (agrees : Agrees K maxPrefix)
    (least : heap.TakesLeast Node.prefixLen) : Represents heap t map where
  exactLookup := holds.exactLookup_eq agrees
  longestPrefixMatch k := by
    rw [longestPrefixMatch, holds.maxPrefix_eq, ← visitWhile_last]
    have traversed := holds.traverse_eq agrees maxPrefix k
      (fun (_ : Option (K × T)) entry => (some entry.pair, true)) none
    rwa [Nat.min_self] at traversed
  ancestors prefixLen k := by
    intro σ fn state _
    exact holds.ancestors_eq agrees prefixLen k fn state
  ancestorIterator prefixLen k := by
    have yields : Yields AncestorIterator.next ⟨k, min prefixLen maxPrefix, maxPrefix, t.root⟩ _ :=
      Node.yields_ancestorNext t.root
    rw [holds.stacked_eq agrees, Nat.min_assoc, Nat.min_self] at yields
    rw [ancestorIterator, holds.maxPrefix_eq]
    exact yields
  ancestorsLongestPrefixFirst prefixLen k := by
    intro σ fn state _
    exact holds.ancestorsLongestPrefixFirst_eq agrees prefixLen k fn state
  ancestorLongestPrefixFirstIterator prefixLen k := by
    rw [ancestorLongestPrefixFirstIterator, holds.maxPrefix_eq, holds.stacked_eq agrees]
    exact yields_lpf _
  descendants prefixLen k := by
    refine ⟨(t.descendantRoot prefixLen k).contents, ?_, ?_⟩
    · exact (holds.lists_drained agrees heap prefixLen k).of_perm (Node.drained_perm heap _).symm
    · intro σ fn state continues
      exact Node.forEach_eq continues _ state
  descendantIterator prefixLen k :=
    ⟨_, holds.lists_drained agrees _ prefixLen k, yields_descendantNext _ _⟩
  descendantsShortestPrefixFirst prefixLen k := by
    refine ⟨_, holds.lists_drained agrees heap prefixLen k, holds.drained_pairwise least _ _, ?_⟩
    intro σ fn state _
    exact heap.forEach_eq_visitWhile Node.size_children Node.entry fn state _
  descendantShortestPrefixFirstIterator prefixLen k :=
    ⟨_, holds.lists_drained agrees heap prefixLen k, holds.drained_pairwise least _ _,
      yields_descendantNext _ _⟩
  forEach := by
    refine ⟨t.root.contents, holds.lists_contents, ?_⟩
    intro σ fn state continues
    exact Node.forEach_eq continues _ state
  len := ⟨t.root.contents, holds.lists_contents, holds.entries_eq⟩
  upsert := holds.upsert_fresh_iff agrees
  delete := holds.delete_found_iff agrees

def Trie.afterRun (maxPrefix : Nat) (operations : List (Operation K T)) : Trie K T :=
  run apply (newTrie maxPrefix) operations

def PrefixMap.afterRun (maxPrefix : Nat) (operations : List (Operation K T)) : PrefixMap K T :=
  run (PrefixMap.apply maxPrefix) (fun _ => none) operations

theorem holds_run (agrees : Agrees K maxPrefix) (holds : Holds maxPrefix t map)
    (operations : List (Operation K T)) :
    Holds maxPrefix (run apply t operations) (run (PrefixMap.apply maxPrefix) map operations) := by
  induction operations generalizing t map with
  | nil => exact holds
  | cons operation rest inductionHypothesis =>
    exact inductionHypothesis (holds.apply agrees operation)

/-- After every sequence of changes, the trie answers what the map of the last upserted values
defines. -/
theorem trie_represents {maxPrefix : Nat} (agrees : Agrees K maxPrefix)
    {heap : Worklist (Node K T)} (least : heap.TakesLeast Node.prefixLen)
    (operations : List (Operation K T)) :
    Represents heap (afterRun maxPrefix operations) (PrefixMap.afterRun maxPrefix operations) :=
  (holds_run agrees (holds_newTrie maxPrefix) operations).represents agrees least

/-! ### The keys of the policy map -/

/-- `LeadingZeros8` and `LeadingZeros16` of the standard library. -/
def leadingZeros {width : Nat} (value : BitVec width) : Nat :=
  ((List.range width).find? value.getMsbD).getD width

variable {width count : Nat} {bit : Nat} (value : BitVec width) (key : Policy.LPMKey)

theorem le_leadingZeros_iff (short : count ≤ width) :
    count ≤ leadingZeros value ↔ ∀ bit < count, value.getMsbD bit = false := by
  unfold leadingZeros
  cases found : (List.range width).find? value.getMsbD with
  | none =>
    refine iff_of_true short fun bit less => ?_
    simpa using find?_eq_none.mp found bit (mem_range.mpr (less.trans_le short))
  | some first =>
    obtain ⟨isSet, _, before⟩ := find?_range_eq_some.mp found
    constructor
    · intro le bit less
      simpa using before bit (less.trans_le le)
    · intro clear
      refine Nat.le_of_not_lt fun less => ?_
      rw [clear first less] at isSet
      cases isSet

/-- `CommonPrefix` of the keys of the policy map. -/
def lpmCommonPrefix (k b : Policy.LPMKey) : Nat :=
  if k.trafficDirection ≠ b.trafficDirection then 0
  else
    let v := 1 + leadingZeros (k.nexthdr ^^^ b.nexthdr)
    if v < 9 then v else v + leadingZeros (k.destPort ^^^ b.destPort)

instance : Key Policy.LPMKey where
  commonPrefix := lpmCommonPrefix
  bitValueAt := Policy.LPMKey.bitValueAt

theorem leadingZeros_le : leadingZeros value ≤ width := by
  unfold leadingZeros
  cases found : (List.range width).find? value.getMsbD with
  | none => exact le_rfl
  | some first => exact (mem_range.mp (mem_of_find?_eq_some found)).le

/-- The leading zeros of a difference count the bits that agree. -/
theorem le_leadingZeros_xor_iff (first second : BitVec width) (short : count ≤ width) :
    count ≤ leadingZeros (first ^^^ second) ↔
      ∀ bit < count, first.getMsbD bit = second.getMsbD bit := by
  rw [le_leadingZeros_iff _ short]
  simp only [BitVec.getMsbD_xor, bne_eq_false_iff_eq]

theorem bitValueAt_protocol (small : bit < 8) :
    key.bitValueAt (1 + bit) = key.nexthdr.getMsbD bit := by
  rw [Policy.LPMKey.bitValueAt, if_neg (by omega), if_pos (by omega), BitVec.getMsbD]
  simp only [small, decide_true, Bool.true_and]
  congr 1
  omega

theorem bitValueAt_port (small : bit < 16) :
    key.bitValueAt (9 + bit) = key.destPort.getMsbD bit := by
  rw [Policy.LPMKey.bitValueAt, if_neg (by omega), if_neg (by omega), if_pos (by omega),
    BitVec.getMsbD]
  simp only [small, decide_true, Bool.true_and]
  congr 1
  omega

/-- The first bits of two keys agree if their directions do, and their protocols and ports have
enough bits in common. -/
theorem bitValueAt_eq_iff (first second : Policy.LPMKey) (short : count ≤ 25) :
    (∀ bit < count, first.bitValueAt bit = second.bitValueAt bit) ↔
      (0 < count → first.trafficDirection = second.trafficDirection) ∧
        min (count - 1) 8 ≤ leadingZeros (first.nexthdr ^^^ second.nexthdr) ∧
        count - 9 ≤ leadingZeros (first.destPort ^^^ second.destPort) := by
  rw [le_leadingZeros_xor_iff _ _ (min_le_right _ _), le_leadingZeros_xor_iff _ _ (by omega)]
  constructor
  · intro same
    refine ⟨fun positive => ?_, fun bit less => ?_, fun bit less => ?_⟩
    · exact Policy.TrafficDirection.bit_injective (same 0 positive)
    · rw [← bitValueAt_protocol first (by omega), ← bitValueAt_protocol second (by omega)]
      exact same _ (by omega)
    · rw [← bitValueAt_port first (by omega), ← bitValueAt_port second (by omega)]
      exact same _ (by omega)
  · rintro ⟨direction, protocol, port⟩ bit less
    rcases Nat.lt_or_ge bit 1 with isZero | positive
    · obtain rfl : bit = 0 := by omega
      exact congrArg Policy.TrafficDirection.bit (direction less)
    · rcases Nat.lt_or_ge bit 9 with small | large
      · obtain ⟨offset, rfl⟩ := Nat.exists_eq_add_of_le positive
        rw [bitValueAt_protocol first (by omega), bitValueAt_protocol second (by omega)]
        exact protocol offset (by omega)
      · obtain ⟨offset, rfl⟩ := Nat.exists_eq_add_of_le large
        rw [bitValueAt_port first (by omega), bitValueAt_port second (by omega)]
        exact port offset (by omega)

/-- The keys of the policy map agree on the bits for the direction, the protocol and the port. -/
theorem agrees_lpmKey : Agrees Policy.LPMKey 25 := by
  intro first second count short
  show count ≤ lpmCommonPrefix first second ↔
    ∀ bit < count, first.bitValueAt bit = second.bitValueAt bit
  rw [bitValueAt_eq_iff first second short]
  have protocolBound := leadingZeros_le (first.nexthdr ^^^ second.nexthdr)
  simp only [lpmCommonPrefix]
  generalize leadingZeros (first.nexthdr ^^^ second.nexthdr) = protocol at *
  generalize leadingZeros (first.destPort ^^^ second.destPort) = port at *
  split
  case isTrue different =>
    refine ⟨fun none => ?_, fun ⟨direction, _⟩ => ?_⟩
    · obtain rfl := Nat.le_zero.mp none
      exact ⟨nofun, Nat.zero_le _, Nat.zero_le _⟩
    · exact Nat.le_of_not_lt fun positive => different (direction positive)
  case isFalse sameDirection =>
    rw [not_not] at sameDirection
    simp only [sameDirection, implies_true, true_and]
    split <;> omega

/-- The trie of the policy map, with a queue that is kept sorted, answers as the map does. -/
theorem policyTrie_represents :
    Represents (Worklist.sorted Node.prefixLen)
      (afterRun 25 [.upsert 1 (keyForDirection .ingress).lpmKey 7,
        .upsert 40 (keyForDirection .egress).lpmKey 8,
        .delete 1 (keyForDirection .ingress).lpmKey])
      (PrefixMap.afterRun 25 [.upsert 1 (keyForDirection .ingress).lpmKey 7,
        .upsert 40 (keyForDirection .egress).lpmKey 8,
        .delete 1 (keyForDirection .ingress).lpmKey]) :=
  trie_represents agrees_lpmKey (Worklist.sorted_takesLeast _) _

end Constellation.Bitlpm
