/-
This file models the bit trie, a path-compressed binary trie that maps prefixes of keys to values.
A key is known by its bits and by the length of the prefix it has in common with another key. An
intermediate node has no value and only joins its two children.

The functions read bits of the searched key beyond its prefix where the source does. Where the
source changes a pointer of the parent, they rebuild the path. The heap of the standard library is
a parameter, of which only is known that the node with the shortest prefix comes first.
-/

import Constellation.Lib.Worklist

namespace Constellation.Bitlpm

open Lib

/-- What the trie knows of its keys. -/
class Key (K : Type) where
  commonPrefix : K → K → Nat
  bitValueAt : K → Nat → Bool

structure Entry (K T : Type) where
  prefixLen : Nat
  key : K
  value : T
  deriving DecidableEq, Repr

def Entry.pair {K T : Type} (entry : Entry K T) : K × T := (entry.key, entry.value)

/-- A node of the source or the absence of one. A node without a value is intermediate. -/
inductive Node (K T : Type)
  | nil
  | node (prefixLen : Nat) (key : K) (value : Option T) (zero one : Node K T)
  deriving DecidableEq, Repr

namespace Node

variable {K T σ : Type}

def leaf (prefixLen : Nat) (key : K) (value : T) : Node K T :=
  .node prefixLen key (some value) .nil .nil

def child (bit : Bool) (zero one : Node K T) : Node K T := if bit then one else zero

def prefixLen : Node K T → Nat
  | .nil => 0
  | .node prefixLen _ _ _ _ => prefixLen

def entry : Node K T → Option (Entry K T)
  | .nil => none
  | .node prefixLen key value _ _ => value.map fun value => ⟨prefixLen, key, value⟩

def children : Node K T → List (Node K T)
  | .nil => []
  | .node _ _ _ zero one => [zero, one].filter fun child =>
    match child with
    | .nil => false
    | .node .. => true

def size : Node K T → Nat
  | .nil => 1
  | .node _ _ _ zero one => zero.size + one.size + 1

theorem size_children (node : Node K T) : (node.children.map size).sum < node.size := by
  cases node with
  | nil => exact Nat.zero_lt_one
  | node prefixLen key value zero one =>
    cases zero <;> cases one <;> simp [children, size]

/-- A function that asks to stop is not called on the nodes below, but on those beside. -/
def forEach (fn : σ → Entry K T → σ × Bool) : Node K T → σ → σ
  | .nil, state => state
  | .node prefixLen key value zero one, state =>
    match value with
    | none => one.forEach fn (zero.forEach fn state)
    | some value =>
      let (later, continues) := fn state ⟨prefixLen, key, value⟩
      if continues then one.forEach fn (zero.forEach fn later) else later

/-- What deleting an entry makes of a node. -/
inductive Deletion (K T : Type)
  | notFound
  | leaf
  | replaced (later : Node K T)

def deleteAt (prefixLen : Nat) (key : K) : Node K T → Node K T → Deletion K T
  | .nil, .nil => .leaf
  | .nil, one => .replaced one
  | zero, .nil => .replaced zero
  | zero, one => .replaced (.node prefixLen key none zero one)

/-- The parent of a node from which an entry was deleted. Its other child replaces an intermediate
one. -/
def afterDeletion (bit : Bool) (prefixLen : Nat) (key : K) (value : Option T)
    (zero one : Node K T) : Deletion K T → Deletion K T
  | .notFound => .notFound
  | .leaf =>
    if value.isNone then .replaced (child (!bit) zero one)
    else if bit then .replaced (.node prefixLen key value zero .nil)
    else .replaced (.node prefixLen key value .nil one)
  | .replaced later =>
    if bit then .replaced (.node prefixLen key value zero later)
    else .replaced (.node prefixLen key value later one)

variable [Key K]

/-- How many of the first bits of two keys agree, within both prefixes. -/
def prefixMatch (nodeLen : Nat) (nodeKey : K) (searchLen : Nat) (k : K) : Nat :=
  let limit := min nodeLen searchLen
  let common := Key.commonPrefix nodeKey k
  if common ≥ limit then limit else common

/-! ### Walking down -/

/-- Calls a function on the nodes whose prefix the searched key has, from the shortest on. -/
def traverse (maxPrefix searchLen : Nat) (k : K) (fn : σ → Entry K T → σ × Bool) :
    Node K T → σ → σ
  | .nil, state => state
  | .node prefixLen key value zero one, state =>
    let matchLen := prefixMatch prefixLen key searchLen k
    if matchLen < prefixLen then state
    else
      match value with
      | none =>
        if Key.bitValueAt k prefixLen then one.traverse maxPrefix searchLen k fn state
        else zero.traverse maxPrefix searchLen k fn state
      | some value =>
        let (later, continues) := fn state ⟨prefixLen, key, value⟩
        if !continues || matchLen == maxPrefix then later
        else if Key.bitValueAt k prefixLen then one.traverse maxPrefix searchLen k fn later
        else zero.traverse maxPrefix searchLen k fn later

/-- The stack that `treverse` builds, from the bottom on. -/
def stacked (maxPrefix searchLen : Nat) (k : K) : Node K T → List (Entry K T)
  | .nil => []
  | .node prefixLen key value zero one =>
    let matchLen := prefixMatch prefixLen key searchLen k
    if matchLen < prefixLen then []
    else
      match value with
      | none =>
        if Key.bitValueAt k prefixLen then one.stacked maxPrefix searchLen k
        else zero.stacked maxPrefix searchLen k
      | some value =>
        ⟨prefixLen, key, value⟩ ::
          if matchLen == maxPrefix then []
          else if Key.bitValueAt k prefixLen then one.stacked maxPrefix searchLen k
          else zero.stacked maxPrefix searchLen k

/-- Like `traverse`, from the longest prefix on. -/
def treverse (maxPrefix searchLen : Nat) (k : K) (fn : σ → Entry K T → σ × Bool)
    (root : Node K T) (state : σ) : σ :=
  visitWhile fn state (root.stacked maxPrefix searchLen k).reverse

/-- The next entry, and the node at which the iterator then stands. -/
def ancestorNext (maxPrefix searchLen : Nat) (k : K) :
    Node K T → Option ((K × T) × Node K T)
  | .nil => none
  | .node prefixLen key value zero one =>
    let matchLen := prefixMatch prefixLen key searchLen k
    if matchLen < prefixLen then none
    else
      match value with
      | none =>
        if Key.bitValueAt k prefixLen then one.ancestorNext maxPrefix searchLen k
        else zero.ancestorNext maxPrefix searchLen k
      | some value =>
        some ((key, value),
          if matchLen == maxPrefix then .nil
          else child (Key.bitValueAt k prefixLen) zero one)

/-- The first node whose prefix is not shorter than the searched one and has it. -/
def seek (maxPrefix searchLen : Nat) (k : K) : Node K T → Node K T
  | .nil => .nil
  | .node prefixLen key value zero one =>
    if prefixMatch prefixLen key searchLen k ≥ searchLen then .node prefixLen key value zero one
    else if prefixLen ≥ maxPrefix then .nil
    else if Key.bitValueAt k prefixLen then one.seek maxPrefix searchLen k
    else zero.seek maxPrefix searchLen k

/-! ### Changing the trie -/

/-- What takes the place of a node at which `upsert` stops, and whether it is new. -/
def upsertAt (searchLen : Nat) (k : K) (value : T) (prefixLen : Nat) (key : K)
    (before : Option T) (zero one : Node K T) : Node K T × Bool :=
  let matchLen := prefixMatch prefixLen key searchLen k
  let current := Node.node prefixLen key before zero one
  if matchLen = prefixLen then (.node searchLen k (some value) zero one, before.isNone)
  else if matchLen = searchLen then
    if Key.bitValueAt key matchLen then (.node searchLen k (some value) .nil current, true)
    else (.node searchLen k (some value) current .nil, true)
  else if Key.bitValueAt k matchLen then
    (.node matchLen key none current (leaf searchLen k value), true)
  else (.node matchLen key none (leaf searchLen k value) current, true)

/-- The trie with an entry, and whether it is new. -/
def upsert (maxPrefix searchLen : Nat) (k : K) (value : T) : Node K T → Node K T × Bool
  | .nil => (leaf searchLen k value, true)
  | .node prefixLen key before zero one =>
    if prefixLen ≠ prefixMatch prefixLen key searchLen k ∨ prefixLen = maxPrefix ∨
        prefixLen = searchLen then
      upsertAt searchLen k value prefixLen key before zero one
    else if Key.bitValueAt k prefixLen then
      let (later, fresh) := one.upsert maxPrefix searchLen k value
      (.node prefixLen key before zero later, fresh)
    else
      let (later, fresh) := zero.upsert maxPrefix searchLen k value
      (.node prefixLen key before later one, fresh)

def delete (searchLen : Nat) (k : K) : Node K T → Deletion K T
  | .nil => .notFound
  | .node prefixLen key value zero one =>
    let matchLen := prefixMatch prefixLen key searchLen k
    if prefixLen ≠ matchLen ∨ prefixLen = searchLen then
      if prefixLen ≠ searchLen ∨ prefixLen ≠ matchLen ∨ value.isNone then .notFound
      else deleteAt prefixLen key zero one
    else if Key.bitValueAt k prefixLen then
      afterDeletion true prefixLen key value zero one (one.delete searchLen k)
    else afterDeletion false prefixLen key value zero one (zero.delete searchLen k)

end Node

/-! ### The trie -/

structure Trie (K T : Type) where
  root : Node K T
  maxPrefix : Nat
  entries : Nat

structure AncestorIterator (K T : Type) where
  key : K
  prefixLen : Nat
  maxPrefix : Nat
  currentNode : Node K T

/-- The iterator is a stack, from its top. -/
abbrev AncestorLPFIterator (K T : Type) := List (Entry K T)

/-- The worklist on which descendants are visited in no particular order. -/
abbrev nodes (K T : Type) : Worklist (Node K T) := Worklist.stack (Node K T)

variable {K T σ : Type}

namespace AncestorLPFIterator

def next : AncestorLPFIterator K T → Option ((K × T) × AncestorLPFIterator K T)
  | [] => none
  | entry :: rest => some (entry.pair, rest)

end AncestorLPFIterator

def started (worklist : Worklist (Node K T)) : Node K T → worklist.Queue
  | .nil => worklist.empty
  | node => worklist.push worklist.empty node

/-- Takes nodes and adds their children until a node is not intermediate. -/
def descendantNext (worklist : Worklist (Node K T)) (queue : worklist.Queue) :
    Option ((K × T) × worklist.Queue) :=
  worklist.next Node.size_children (fun node => node.entry.map Entry.pair) queue

namespace Trie

def newTrie (maxPrefix : Nat) : Trie K T := ⟨.nil, maxPrefix, 0⟩

def len (t : Trie K T) : Nat := t.entries

def forEach (t : Trie K T) (fn : σ → Entry K T → σ × Bool) (state : σ) : σ :=
  t.root.forEach fn state

end Trie

variable [Key K]

def AncestorIterator.next (iterator : AncestorIterator K T) :
    Option ((K × T) × AncestorIterator K T) :=
  (iterator.currentNode.ancestorNext iterator.maxPrefix iterator.prefixLen iterator.key).map
    fun (result, node) => (result, { iterator with currentNode := node })

namespace Trie

variable (t : Trie K T) (prefixLen : Nat) (k : K)

def exactLookup : Option T :=
  let prefixLen := min prefixLen t.maxPrefix
  t.root.traverse t.maxPrefix prefixLen k
    (fun found entry => if entry.prefixLen = prefixLen then (some entry.value, false)
      else (found, true)) none

def longestPrefixMatch : Option (K × T) :=
  t.root.traverse t.maxPrefix t.maxPrefix k (fun _ entry => (some entry.pair, true)) none

variable (fn : σ → Entry K T → σ × Bool)

def ancestors (state : σ) : σ :=
  t.root.traverse t.maxPrefix (min prefixLen t.maxPrefix) k fn state

def ancestorIterator : AncestorIterator K T where
  key := k
  prefixLen := min prefixLen t.maxPrefix
  maxPrefix := t.maxPrefix
  currentNode := t.root

def ancestorsLongestPrefixFirst (state : σ) : σ :=
  t.root.treverse t.maxPrefix (min prefixLen t.maxPrefix) k fn state

/-- The source does not cut the length of the searched prefix here. -/
def ancestorLongestPrefixFirstIterator : AncestorLPFIterator K T :=
  (t.root.stacked t.maxPrefix prefixLen k).reverse

def descendantRoot : Node K T :=
  t.root.seek t.maxPrefix (min prefixLen t.maxPrefix) k

def descendants (state : σ) : σ :=
  (t.descendantRoot prefixLen k).forEach fn state

def descendantIterator : (nodes K T).Queue :=
  started (nodes K T) (t.descendantRoot prefixLen k)

def descendantsShortestPrefixFirst (heap : Worklist (Node K T)) (t : Trie K T) (prefixLen : Nat)
    (k : K) (fn : σ → Entry K T → σ × Bool) (state : σ) : σ :=
  heap.forEach Node.size_children Node.entry fn state (started heap (t.descendantRoot prefixLen k))

def descendantShortestPrefixFirstIterator (heap : Worklist (Node K T)) (t : Trie K T)
    (prefixLen : Nat) (k : K) : heap.Queue :=
  started heap (t.descendantRoot prefixLen k)

def upsert (value : T) : Trie K T × Bool :=
  let (root, fresh) := t.root.upsert t.maxPrefix (min prefixLen t.maxPrefix) k value
  ({ t with root := root, entries := if fresh then t.entries + 1 else t.entries }, fresh)

def delete : Trie K T × Bool :=
  match t.root.delete (min prefixLen t.maxPrefix) k with
  | .notFound => (t, false)
  | .leaf => ({ t with root := .nil, entries := t.entries - 1 }, true)
  | .replaced root => ({ t with root := root, entries := t.entries - 1 }, true)

end Trie

end Constellation.Bitlpm
