/-
This file proves that the searches of a well-formed bit trie are filters of its contents. A trie
is well formed if every node lies under the path of bits that leads to it and every intermediate
node has both children.

An entry below a node agrees with the key of the node on all bits of the prefix and is in the
child of its own next bit, so only the child of the searched key's next bit can contribute.
-/

import Constellation.Bitlpm.Trie

namespace Constellation.Bitlpm

open Lib List Option Node Key

variable {K T : Type} [Key K] (count : Nat) (k : K)

/-! ### The bits of a key -/

def bits (count : Nat) (k : K) : List Bool := (List.range count).map (bitValueAt k)

/-- The two methods of a key agree on its first bits. -/
def Agrees (K : Type) [Key K] (maxPrefix : Nat) : Prop :=
  ∀ (first second : K) (count : Nat), count ≤ maxPrefix → (count ≤ commonPrefix first second ↔
      ∀ bit < count, bitValueAt first bit = bitValueAt second bit)

@[simp]
theorem length_bits : (bits count k).length = count := by
  rw [bits, length_map, length_range]

theorem bits_succ : bits (count + 1) k = bits count k ++ [bitValueAt k count] := by
  rw [bits, range_succ, map_append]
  rfl

variable {count : Nat} {first second : K}

theorem bits_eq_iff :
    bits count first = bits count second ↔
      ∀ bit < count, bitValueAt first bit = bitValueAt second bit := by
  rw [bits, bits, map_inj_left]
  simp only [mem_range]

theorem bits_eq_of_le {shorter : Nat} (le : shorter ≤ count)
    (same : bits count first = bits count second) : bits shorter first = bits shorter second :=
  bits_eq_iff.mpr fun bit less => bits_eq_iff.mp same bit (less.trans_le le)

theorem bitValueAt_eq_of_lt {bit : Nat} (less : bit < count)
    (same : bits count first = bits count second) :
    bitValueAt first bit = bitValueAt second bit :=
  bits_eq_iff.mp same bit less

def Entry.bits (entry : Entry K T) : List Bool := Bitlpm.bits entry.prefixLen entry.key

def Under (path : List Bool) (prefixLen : Nat) (key : K) : Prop :=
  path.length ≤ prefixLen ∧ bits path.length key = path

variable {prefixLen : Nat} {key : K} {nodeKey : K} {nodeLen : Nat} {path : List Bool} {bit : Bool}
  (searchLen : Nat)

/-- A prefix is below a node, on the side of one value of the next bit. -/
theorem under_snoc :
    Under (bits nodeLen nodeKey ++ [bit]) prefixLen key ↔
      nodeLen < prefixLen ∧ bits nodeLen key = bits nodeLen nodeKey ∧
        bitValueAt key nodeLen = bit := by
  unfold Under
  rw [length_append, length_bits, length_singleton, bits_succ]
  refine and_congr_right fun _ => ⟨fun same => ?_, fun ⟨same, value⟩ => by rw [same, value]⟩
  obtain ⟨front, last⟩ := append_inj' same rfl
  exact ⟨front, head_eq_of_cons_eq last⟩

theorem Under.below (node : Under path nodeLen nodeKey)
    (below : Under (bits nodeLen nodeKey ++ [bit]) prefixLen key) : Under path prefixLen key := by
  obtain ⟨less, same, _⟩ := under_snoc.mp below
  exact ⟨node.1.trans less.le, (bits_eq_of_le node.1 same).trans node.2⟩

theorem Under.of_bits_eq {other : K} (under : Under path prefixLen key)
    (same : bits prefixLen key = bits prefixLen other) : Under path prefixLen other :=
  ⟨under.1, (bits_eq_of_le under.1 same).symm.trans under.2⟩

/-! ### Well-formed tries and their contents -/

namespace Node

omit [Key K] in
/-- The entries of a trie, from the root down. -/
def contents : Node K T → List (Entry K T)
  | .nil => []
  | .node prefixLen key value zero one =>
    (value.map fun value => ⟨prefixLen, key, value⟩).toList ++ (zero.contents ++ one.contents)

def Fits (maxPrefix : Nat) : List Bool → Node K T → Prop
  | _, .nil => True
  | path, .node prefixLen key value zero one =>
    prefixLen ≤ maxPrefix ∧ Under path prefixLen key ∧
      Fits maxPrefix (bits prefixLen key ++ [false]) zero ∧
      Fits maxPrefix (bits prefixLen key ++ [true]) one ∧
      (value = none → zero ≠ .nil ∧ one ≠ .nil)

variable {maxPrefix : Nat} {value : Option T} {zero one : Node K T}
  (fits : Fits maxPrefix path (.node prefixLen key value zero one))

include fits in
theorem Fits.child (bit : Bool) :
    Fits maxPrefix (bits prefixLen key ++ [bit]) (child bit zero one) := by
  cases bit with
  | false => exact fits.2.2.1
  | true => exact fits.2.2.2.1

omit [Key K] in
/-- Induction over a trie, by the children on both sides. -/
@[elab_as_elim]
theorem childInduction {motive : Node K T → Prop} (nil : motive .nil)
    (node : ∀ prefixLen key value zero one, (∀ bit, motive (child bit zero one)) →
      motive (.node prefixLen key value zero one)) (trie : Node K T) : motive trie := by
  induction trie with
  | nil => exact nil
  | node prefixLen key value zero one zeroHypothesis oneHypothesis =>
    exact node _ _ _ _ _ (Bool.forall_bool.mpr ⟨zeroHypothesis, oneHypothesis⟩)

variable {entry : Entry K T}

omit [Key K] in
theorem mem_contents_node :
    entry ∈ (node prefixLen key value zero one).contents ↔
      (∃ own, value = some own ∧ entry = ⟨prefixLen, key, own⟩) ∨
        ∃ bit, entry ∈ (child bit zero one).contents := by
  simp only [contents, mem_append, mem_toList, map_eq_some_iff, Bool.exists_bool]
  refine or_congr (exists_congr fun own => and_congr_right fun _ => eq_comm) .rfl

omit [Key K] in
/-- A filter that keeps nothing of one child. -/
theorem filter_contents_node {keep : Entry K T → Bool} (next : Bool)
    (other : ∀ bit ≠ next, ∀ entry ∈ (child bit zero one).contents, ¬keep entry) :
    (node prefixLen key value zero one).contents.filter keep =
      (value.map fun value => ⟨prefixLen, key, value⟩).toList.filter keep ++
        (child next zero one).contents.filter keep := by
  rw [contents, filter_append, filter_append]
  refine congrArg _ ?_
  cases next with
  | false =>
    have none : one.contents.filter keep = [] := filter_eq_nil_iff.mpr (other true nofun)
    rw [none, append_nil]
    rfl
  | true =>
    have none : zero.contents.filter keep = [] := filter_eq_nil_iff.mpr (other false nofun)
    rw [none, nil_append]
    rfl

variable {node : Node K T}

theorem Fits.under (fits : Fits maxPrefix path node) (member : entry ∈ node.contents) :
    Under path entry.prefixLen entry.key ∧ entry.prefixLen ≤ maxPrefix := by
  induction node using childInduction generalizing path with
  | nil => exact nomatch member
  | node prefixLen key value zero one children =>
    rcases mem_contents_node.mp member with ⟨own, _, rfl⟩ | ⟨bit, below⟩
    · exact ⟨fits.2.1, fits.1⟩
    · obtain ⟨under, short⟩ := children bit (fits.child bit) below
      exact ⟨fits.2.1.below under, short⟩

include fits in
/-- An entry in a child extends the prefix of the node by the bit of the child. -/
theorem Fits.below {bit : Bool} (member : entry ∈ (Node.child bit zero one).contents) :
    prefixLen < entry.prefixLen ∧ bits prefixLen entry.key = bits prefixLen key ∧
      bitValueAt entry.key prefixLen = bit :=
  under_snoc.mp ((fits.child bit).under member).1

theorem Fits.eq_nil (fits : Fits maxPrefix path node) (long : maxPrefix < path.length) :
    node = .nil := by
  cases node with
  | nil => rfl
  | node prefixLen key value zero one =>
    exact absurd (fits.2.1.1.trans fits.1) (Nat.not_le.mpr long)

include fits in
theorem Fits.child_eq_nil
    (long : maxPrefix ≤ prefixLen) (bit : Bool) : Node.child bit zero one = .nil := by
  refine (fits.child bit).eq_nil ?_
  rw [length_append, length_bits]
  exact Nat.lt_succ_of_le long

/-! ### Matching a node -/

theorem prefixMatch_eq_min (nodeLen searchLen : Nat) (nodeKey k : K) :
    prefixMatch nodeLen nodeKey searchLen k =
      min (min nodeLen searchLen) (commonPrefix nodeKey k) := by
  rfl

variable {searchLen : Nat} {k : K}

/-- Two prefixes match to a length if it is within both and the keys agree to it. -/
theorem le_prefixMatch_iff (agrees : Agrees K maxPrefix) {nodeLen count : Nat}
    (fits : nodeLen ≤ maxPrefix) :
    count ≤ prefixMatch nodeLen nodeKey searchLen k ↔
      count ≤ nodeLen ∧ count ≤ searchLen ∧ bits count nodeKey = bits count k := by
  rw [prefixMatch_eq_min, Nat.le_min, Nat.le_min, and_assoc]
  refine and_congr_right fun le => and_congr_right fun _ => ?_
  exact (agrees nodeKey k count (le.trans fits)).trans bits_eq_iff.symm

theorem prefixMatch_le (nodeLen searchLen : Nat) (nodeKey k : K) :
    prefixMatch nodeLen nodeKey searchLen k ≤ nodeLen :=
  (min_le_left _ _).trans (min_le_left _ _)

/-- A node matches if the searched prefix extends its own. -/
theorem prefixMatch_lt_iff (agrees : Agrees K maxPrefix) (fits : nodeLen ≤ maxPrefix) :
    prefixMatch nodeLen nodeKey searchLen k < nodeLen ↔
      ¬(nodeLen ≤ searchLen ∧ bits nodeLen nodeKey = bits nodeLen k) := by
  rw [← Nat.not_le, le_prefixMatch_iff agrees fits]
  simp only [le_refl, true_and]

/-! ### Ancestors -/

def IsAncestor (searchLen : Nat) (k : K) (entry : Entry K T) : Prop :=
  entry.prefixLen ≤ searchLen ∧ bits entry.prefixLen entry.key = bits entry.prefixLen k
  deriving Decidable

theorem bits_ne {firstLen secondLen : Nat} {first second : K} (different : firstLen ≠ secondLen) :
    bits firstLen first ≠ bits secondLen second := by
  intro same
  have lengths := congrArg List.length same
  rw [length_bits, length_bits] at lengths
  exact different lengths

theorem isAncestor_of_bits_eq (same : entry.bits = bits searchLen k) :
    IsAncestor searchLen k entry := by
  have lengths := congrArg List.length same
  rw [Entry.bits, length_bits, length_bits] at lengths
  refine ⟨lengths.le, ?_⟩
  rw [Entry.bits, ← lengths] at same
  exact same

/-- The entries of a well-formed trie are for different prefixes. -/
theorem Fits.distinct (fits : Fits maxPrefix path node) :
    node.contents.Pairwise fun first second => first.bits ≠ second.bits := by
  induction node generalizing path with
  | nil => exact .nil
  | node prefixLen key value zero one zeroHypothesis oneHypothesis =>
    refine pairwise_append.mpr ⟨?_, pairwise_append.mpr
      ⟨zeroHypothesis fits.2.2.1, oneHypothesis fits.2.2.2.1, ?_⟩, ?_⟩
    · cases value with
      | none => exact .nil
      | some value => exact pairwise_singleton _ _
    · intro first inZero second inOne same
      have belowZero := fits.below (show first ∈ (Node.child false zero one).contents from inZero)
      have belowOne := fits.below (show second ∈ (Node.child true zero one).contents from inOne)
      have bit := bitValueAt_eq_of_lt belowZero.1 (isAncestor_of_bits_eq same).2
      rw [belowZero.2.2, belowOne.2.2] at bit
      cases bit
    · intro own isOwn below inChildren
      obtain ⟨value, _, rfl⟩ := map_eq_some_iff.mp (mem_toList.mp isOwn)
      obtain ⟨bit, inChild⟩ : ∃ bit, below ∈ (Node.child bit zero one).contents :=
        Bool.exists_bool.mpr (mem_append.mp inChildren)
      exact bits_ne (fits.below inChild).1.ne

def ancestorsIn (searchLen : Nat) (k : K) (node : Node K T) : List (Entry K T) :=
  node.contents.filter fun entry => IsAncestor searchLen k entry

include fits in
/-- Only the child of the next bit has ancestors. -/
theorem ancestorsIn_node
    (le : prefixLen ≤ searchLen) (same : bits prefixLen key = bits prefixLen k) :
    ancestorsIn searchLen k (.node prefixLen key value zero one) =
      (value.map fun value => ⟨prefixLen, key, value⟩).toList ++
        ancestorsIn searchLen k (child (bitValueAt k prefixLen) zero one) := by
  have own : (value.map fun value => (⟨prefixLen, key, value⟩ : Entry K T)).toList.filter
      (fun entry => IsAncestor searchLen k entry) =
      (value.map fun value => ⟨prefixLen, key, value⟩).toList := by
    refine filter_eq_self.mpr fun entry member => decide_eq_true ?_
    obtain ⟨value, _, rfl⟩ := map_eq_some_iff.mp (mem_toList.mp member)
    exact ⟨le, same⟩
  rw [ancestorsIn, filter_contents_node (bitValueAt k prefixLen), own]
  · rfl
  · intro bit different entry member ancestor
    have below := fits.below member
    rw [← below.2.2] at different
    exact different (bitValueAt_eq_of_lt below.1 (of_decide_eq_true ancestor).2)

include fits in
/-- A node that does not match has no ancestors below it. -/
theorem ancestorsIn_eq_nil
    (mismatch : ¬(prefixLen ≤ searchLen ∧ bits prefixLen key = bits prefixLen k)) :
    ancestorsIn searchLen k (.node prefixLen key value zero one) = [] := by
  refine filter_eq_nil_iff.mpr fun entry member ancestor => mismatch ?_
  have isAncestor : IsAncestor searchLen k entry := of_decide_eq_true ancestor
  rcases mem_contents_node.mp member with ⟨own, _, rfl⟩ | ⟨bit, inChild⟩
  · exact isAncestor
  · have below := fits.below inChild
    refine ⟨below.1.le.trans isAncestor.1, ?_⟩
    exact below.2.1.symm.trans (bits_eq_of_le below.1.le isAncestor.2)

/-- The ancestors are in the order of increasing prefixes. -/
theorem Fits.ancestorsIn_pairwise (fits : Fits maxPrefix path node) (searchLen : Nat) (k : K) :
    (ancestorsIn searchLen k node).Pairwise fun first second =>
      first.prefixLen < second.prefixLen := by
  induction node using childInduction generalizing path with
  | nil => exact .nil
  | node prefixLen key value zero one children =>
    by_cases matched : prefixLen ≤ searchLen ∧ bits prefixLen key = bits prefixLen k
    · have next := children (bitValueAt k prefixLen) (fits.child _)
      rw [ancestorsIn_node fits matched.1 matched.2]
      cases value with
      | none => exact next
      | some value =>
        refine pairwise_cons.mpr ⟨fun entry member => ?_, next⟩
        exact (fits.below (mem_filter.mp member).1).1
    · rw [ancestorsIn_eq_nil fits matched]
      exact .nil

theorem stacked_of_lt (mismatch : prefixMatch prefixLen key searchLen k < prefixLen) :
    (Node.node prefixLen key value zero one).stacked maxPrefix searchLen k = [] := by
  cases value with
  | none | some value => rw [stacked, if_pos mismatch]

theorem stacked_child (bit : Bool) : (child bit zero one).stacked maxPrefix searchLen k =
    if bit then one.stacked maxPrefix searchLen k else zero.stacked maxPrefix searchLen k := by
  cases bit <;> rfl

theorem stacked_eq (agrees : Agrees K maxPrefix) (fits : Fits maxPrefix path node) :
    node.stacked maxPrefix searchLen k = ancestorsIn searchLen k node := by
  induction node using childInduction generalizing path with
  | nil => rfl
  | node prefixLen key value zero one children =>
    have next := children (bitValueAt k prefixLen) (fits.child _)
    rw [stacked_child] at next
    by_cases mismatch : prefixMatch prefixLen key searchLen k < prefixLen
    · rw [ancestorsIn_eq_nil fits ((prefixMatch_lt_iff agrees fits.1).mp mismatch)]
      exact stacked_of_lt mismatch
    · have matched := not_not.mp (mt (prefixMatch_lt_iff agrees fits.1).mpr mismatch)
      rw [ancestorsIn_node fits matched.1 matched.2]
      cases value with
      | none =>
        rw [stacked, if_neg mismatch]
        exact next
      | some value =>
        rw [stacked, if_neg mismatch]
        refine congrArg _ ?_
        split
        case isTrue full =>
          have long : maxPrefix ≤ prefixLen :=
            (beq_iff_eq.mp full).symm.le.trans (prefixMatch_le prefixLen searchLen key k)
          rw [fits.child_eq_nil long]
          rfl
        case isFalse => exact next

/-- Walking down calls the function on the stack, from the bottom on. -/
theorem traverse_eq {σ : Type} (fn : σ → Entry K T → σ × Bool) (node : Node K T) (state : σ) :
    node.traverse maxPrefix searchLen k fn state =
      visitWhile fn state (node.stacked maxPrefix searchLen k) := by
  induction node generalizing state with
  | nil => rfl
  | node prefixLen key value zero one zeroHypothesis oneHypothesis =>
    cases value with
    | none =>
      rw [traverse, stacked]
      split
      case isTrue => rfl
      case isFalse => rw [apply_ite (visitWhile fn state), zeroHypothesis, oneHypothesis]
    | some value =>
      rw [traverse, stacked]
      split
      case isTrue => rfl
      case isFalse =>
        rw [visitWhile]
        cases continues : (fn state ⟨prefixLen, key, value⟩).2 with
        | false => simp [continues]
        | true =>
          simp only [continues, Bool.not_true, Bool.false_or, if_true]
          rw [apply_ite (visitWhile fn _), apply_ite (visitWhile fn _), zeroHypothesis,
            oneHypothesis]
          rfl

/-- The iterator for the shortest prefix first yields the stack, from the bottom on. -/
theorem yields_ancestorNext (node : Node K T) :
    Yields AncestorIterator.next ⟨k, searchLen, maxPrefix, node⟩
      ((node.stacked maxPrefix searchLen k).map Entry.pair) := by
  induction node using childInduction with
  | nil => exact .ends rfl
  | node prefixLen key value zero one children =>
    have next := children (bitValueAt k prefixLen)
    rw [stacked_child] at next
    by_cases mismatch : prefixMatch prefixLen key searchLen k < prefixLen
    · rw [stacked_of_lt mismatch]
      refine .ends ?_
      cases value with
      | none | some value =>
        simp only [AncestorIterator.next, ancestorNext, if_pos mismatch, map_none]
    · cases value with
      | none =>
        rw [stacked, if_neg mismatch]
        refine next.of_next_eq ?_
        simp only [AncestorIterator.next, ancestorNext, if_neg mismatch]
        cases bitValueAt k prefixLen <;> rfl
      | some value =>
        have first : AncestorIterator.next ⟨k, searchLen, maxPrefix,
            .node prefixLen key (some value) zero one⟩ =
            some ((key, value), ⟨k, searchLen, maxPrefix,
              if prefixMatch prefixLen key searchLen k == maxPrefix then .nil
              else child (bitValueAt k prefixLen) zero one⟩) := by
          simp only [AncestorIterator.next, ancestorNext, if_neg mismatch, map_some]
        rw [stacked, if_neg mismatch]
        refine .result first ?_
        split
        case isTrue => exact .ends rfl
        case isFalse => exact next

/-! ### Descendants -/

def IsDescendant (searchLen : Nat) (k : K) (entry : Entry K T) : Prop :=
  searchLen ≤ entry.prefixLen ∧ bits searchLen entry.key = bits searchLen k
  deriving Decidable

/-- The node at which the search for descendants ends has the descendants. -/
theorem contents_seek (agrees : Agrees K maxPrefix) (fits : Fits maxPrefix path node) :
    (node.seek maxPrefix searchLen k).contents =
      node.contents.filter fun entry => IsDescendant searchLen k entry := by
  induction node generalizing path with
  | nil => rfl
  | node prefixLen key value zero one zeroHypothesis oneHypothesis =>
    rw [seek]
    split
    case isTrue reached =>
      obtain ⟨le, _, same⟩ := (le_prefixMatch_iff agrees fits.1).mp reached
      refine (filter_eq_self.mpr fun entry member => decide_eq_true ?_).symm
      rcases mem_contents_node.mp member with ⟨own, _, rfl⟩ | ⟨bit, inChild⟩
      · exact ⟨le, same⟩
      · have below := fits.below inChild
        exact ⟨le.trans below.1.le, (bits_eq_of_le le below.2.1).trans same⟩
    case isFalse missed =>
      have mismatch : ¬(searchLen ≤ prefixLen ∧ bits searchLen key = bits searchLen k) :=
        fun ⟨le, same⟩ => missed ((le_prefixMatch_iff agrees fits.1).mpr ⟨le, le_rfl, same⟩)
      have own : (value.map fun value => (⟨prefixLen, key, value⟩ : Entry K T)).toList.filter
          (fun entry => IsDescendant searchLen k entry) = [] := by
        refine filter_eq_nil_iff.mpr fun entry member descendant => mismatch ?_
        obtain ⟨value, _, rfl⟩ := map_eq_some_iff.mp (mem_toList.mp member)
        exact of_decide_eq_true descendant
      rw [filter_contents_node (bitValueAt k prefixLen), own, nil_append]
      · split
        case isTrue long =>
          rw [fits.child_eq_nil long]
          rfl
        case isFalse =>
          cases bitValueAt k prefixLen with
          | false => exact zeroHypothesis fits.2.2.1
          | true => exact oneHypothesis fits.2.2.2.1
      · intro bit different entry member descendant
        have below := fits.below member
        have same := (of_decide_eq_true descendant).2
        rcases Nat.lt_or_ge prefixLen searchLen with longer | le
        · exact different (below.2.2.symm.trans (bitValueAt_eq_of_lt longer same))
        · exact mismatch ⟨le, (bits_eq_of_le le below.2.1).symm.trans same⟩

theorem Fits.seek (fits : Fits maxPrefix path node) :
    ∃ lower, Fits maxPrefix lower (node.seek maxPrefix searchLen k) := by
  induction node generalizing path with
  | nil => exact ⟨[], trivial⟩
  | node prefixLen key value zero one zeroHypothesis oneHypothesis =>
    rw [seek]
    split
    case isTrue => exact ⟨path, fits⟩
    case isFalse =>
      split
      case isTrue => exact ⟨[], trivial⟩
      case isFalse =>
        split
        case isTrue => exact oneHypothesis fits.2.2.2.1
        case isFalse => exact zeroHypothesis fits.2.2.1

omit [Key K] in
/-- Calling a function that never asks to stop on all nodes calls it on the contents. -/
theorem forEach_eq {σ : Type} {fn : σ → Entry K T → σ × Bool}
    (continues : ∀ state entry, (fn state entry).2 = true) (node : Node K T) (state : σ) :
    node.forEach fn state = visitWhile fn state node.contents := by
  induction node generalizing state with
  | nil => rfl
  | node prefixLen key value zero one zeroHypothesis oneHypothesis =>
    have sides (state : σ) : one.forEach fn (zero.forEach fn state) =
        visitWhile fn state (zero.contents ++ one.contents) := by
      rw [zeroHypothesis, oneHypothesis, visitWhile_append continues]
    cases value with
    | none => exact sides state
    | some value =>
      show (if _ then _ else _) = if _ then _ else _
      rw [continues, if_pos rfl, if_pos rfl]
      exact sides _

/-! ### Visiting nodes from a worklist -/

section

omit [Key K]

theorem ne_nil_of_mem_children {child : Node K T} (member : child ∈ node.children) :
    child ≠ .nil := by
  rintro rfl
  cases node with
  | nil => exact nomatch member
  | node prefixLen key value zero one => cases (mem_filter.mp member).2

def subtrees : Node K T → List (Node K T)
  | .nil => []
  | .node prefixLen key value zero one =>
    .node prefixLen key value zero one :: (zero.subtrees ++ one.subtrees)

theorem subtrees_eq (notNil : node ≠ .nil) :
    node.subtrees = node :: node.children.flatMap subtrees := by
  cases node with
  | nil => exact absurd rfl notNil
  | node prefixLen key value zero one =>
    cases zero <;> cases one <;> simp [children, subtrees]

theorem filterMap_subtrees (node : Node K T) :
    node.subtrees.filterMap Node.entry = node.contents := by
  induction node with
  | nil => rfl
  | node prefixLen key value zero one zeroHypothesis oneHypothesis =>
    rw [contents, ← zeroHypothesis, ← oneHypothesis, subtrees, filterMap_cons, filterMap_append]
    cases value with
    | none | some value => rfl

variable (worklist : Worklist (Node K T))

theorem contents_started (node : Node K T) :
    (node = .nil ∧ worklist.contents (started worklist node) = []) ∨
      (node ≠ .nil ∧ worklist.contents (started worklist node) = [node]) := by
  cases node with
  | nil => exact .inl ⟨rfl, worklist.contents_empty⟩
  | node prefixLen key value zero one =>
    have pushed := worklist.contents_push worklist.empty (.node prefixLen key value zero one)
    rw [worklist.contents_empty] at pushed
    exact .inr ⟨nofun, perm_singleton.mp pushed⟩

theorem mem_contents_started {worklist : Worklist (Node K T)} {other : Node K T}
    (member : other ∈ worklist.contents (started worklist node)) : other = node ∧ node ≠ .nil := by
  rcases contents_started worklist node with ⟨_, same⟩ | ⟨notNil, same⟩
  · rw [same] at member
    exact nomatch member
  · rw [same] at member
    exact ⟨mem_singleton.mp member, notNil⟩

theorem prefixLen_of_mem_entry {own : Entry K T} (isOwn : own ∈ node.entry) :
    own.prefixLen = node.prefixLen := by
  cases node with
  | nil => cases isOwn
  | node prefixLen key value zero one =>
    obtain ⟨value, _, rfl⟩ := map_eq_some_iff.mp isOwn
    rfl

/-- The entries that are met when a worklist is drained from a node. -/
def drained (node : Node K T) : List (Entry K T) :=
  (worklist.drain size_children (started worklist node)).filterMap Node.entry

/-- Every entry of the trie is met once. -/
theorem drained_perm (node : Node K T) : (drained worklist node).Perm node.contents := by
  have visited := worklist.drain_perm size_children (· ≠ .nil)
    (fun _ _ _ member => ne_nil_of_mem_children member)
    (fun element notNil => .of_eq (subtrees_eq notNil)) (started worklist node)
    (fun element member => by
      obtain ⟨rfl, notNil⟩ := mem_contents_started member
      exact notNil)
  have start : (worklist.contents (started worklist node)).flatMap subtrees = node.subtrees := by
    rcases contents_started worklist node with ⟨rfl, same⟩ | ⟨_, same⟩
    · rw [same]
      rfl
    · rw [same, flatMap_singleton]
  rw [start] at visited
  rw [← filterMap_subtrees]
  exact visited.filterMap entry

end

/-- A child has no shorter prefix than its parent, and is well formed. -/
theorem Fits.of_mem_children {child : Node K T} (fits : Fits maxPrefix path node)
    (member : child ∈ node.children) :
    (∃ lower, Fits maxPrefix lower child) ∧ node.prefixLen ≤ child.prefixLen := by
  cases node with
  | nil => exact nomatch member
  | node prefixLen key value zero one =>
    have side : ∃ bit, Fits maxPrefix (bits prefixLen key ++ [bit]) child := by
      rcases mem_cons.mp (mem_filter.mp member).1 with rfl | isOne
      · exact ⟨false, fits.2.2.1⟩
      · rw [mem_singleton.mp isOne]
        exact ⟨true, fits.2.2.2.1⟩
    obtain ⟨bit, childFits⟩ := side
    refine ⟨⟨_, childFits⟩, ?_⟩
    cases child with
    | nil => exact absurd rfl (ne_nil_of_mem_children member)
    | node => exact (under_snoc.mp childFits.2.1).1.le

/-- From a queue that gives the shortest prefix first, the entries are met by increasing length of
their prefixes. -/
theorem drained_pairwise {heap : Worklist (Node K T)} (least : heap.TakesLeast Node.prefixLen)
    (fits : Fits maxPrefix path node) :
    (drained heap node).Pairwise fun first second => first.prefixLen ≤ second.prefixLen := by
  have visited := (heap.drain_pairwise size_children least
    (fun element => ∃ lower, Fits maxPrefix lower element)
    (fun _ ⟨_, elementFits⟩ _ member => (elementFits.of_mem_children member).1)
    (fun _ ⟨_, elementFits⟩ _ member => (elementFits.of_mem_children member).2)
    (started heap node) (fun element member => by
      obtain ⟨rfl, _⟩ := mem_contents_started member
      exact ⟨path, fits⟩)).1
  refine List.Pairwise.filterMap entry (fun first second ordered own isOwn other isOther => ?_)
    visited
  rw [prefixLen_of_mem_entry isOwn, prefixLen_of_mem_entry isOther]
  exact ordered

end Node

end Constellation.Bitlpm
