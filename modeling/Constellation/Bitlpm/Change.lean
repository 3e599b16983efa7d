/-
This file proves what changing the bit trie does. Adding and deleting keep a well-formed trie well
formed, leave the former entries for other prefixes, and report truthfully whether there was an
entry for the prefix. The proofs follow the places where the trie is changed.
-/

import Constellation.Bitlpm.Lookup

namespace Constellation.Bitlpm.Node

open Lib List Option Node Key

variable {K T : Type} [Key K] {maxPrefix : Nat} {path : List Bool}

/-! ### Nodes by their children -/

variable {prefixLen : Nat} {key : K} {value : Option T} {zero one : Node K T}

theorem fits_node :
    Fits maxPrefix path (.node prefixLen key value zero one) ↔
      prefixLen ≤ maxPrefix ∧ Under path prefixLen key ∧
        (∀ bit, Fits maxPrefix (bits prefixLen key ++ [bit]) (child bit zero one)) ∧
        (value = none → ∀ bit, child bit zero one ≠ .nil) := by
  simp only [Fits, Bool.forall_bool, and_assoc]
  exact .rfl

theorem fits_sides (bit : Bool) :
    Fits maxPrefix path (.node prefixLen key value zero one) ↔
      prefixLen ≤ maxPrefix ∧ Under path prefixLen key ∧
        (Fits maxPrefix (bits prefixLen key ++ [bit]) (child bit zero one) ∧
          Fits maxPrefix (bits prefixLen key ++ [!bit]) (child (!bit) zero one)) ∧
        (value = none → child bit zero one ≠ .nil ∧ child (!bit) zero one ≠ .nil) := by
  rw [fits_node, Bool.forall_bool' bit, Bool.forall_bool' bit]

variable {entry : Entry K T}

omit [Key K] in
theorem contents_perm_sides (bit : Bool) :
    (node prefixLen key value zero one).contents.Perm
      ((value.map fun own => ⟨prefixLen, key, own⟩).toList ++
        ((child bit zero one).contents ++ (child (!bit) zero one).contents)) := by
  cases bit with
  | false => exact .refl _
  | true => exact perm_append_comm.append_left _

omit [Key K] in
theorem mem_contents_sides (bit : Bool) :
    entry ∈ (node prefixLen key value zero one).contents ↔
      (∃ own, value = some own ∧ entry = ⟨prefixLen, key, own⟩) ∨
        entry ∈ (child bit zero one).contents ∨ entry ∈ (child (!bit) zero one).contents := by
  rw [(contents_perm_sides bit).mem_iff, mem_append, mem_append, mem_toList, map_eq_some_iff]
  simp only [eq_comm]

omit [Key K] in
theorem length_contents_sides (bit : Bool) :
    (node prefixLen key value zero one).contents.length =
      value.toList.length + ((child bit zero one).contents.length +
        (child (!bit) zero one).contents.length) := by
  rw [(contents_perm_sides bit).length_eq, length_append, length_append]
  cases value <;> rfl

variable {node : Node K T} {searchLen : Nat} {bit : Bool} {k : K}

theorem Fits.raise (under : Under path prefixLen key)
    (fits : Fits maxPrefix (bits prefixLen key ++ [bit]) node) : Fits maxPrefix path node := by
  cases node with
  | nil => trivial
  | node nodeLen nodeKey value zero one => exact ⟨fits.1, under.below fits.2.1, fits.2.2⟩

section

variable (fits : Fits maxPrefix path (.node prefixLen key value zero one))

include fits

/-- Below a node that has a prefix, the entry for the prefix is on the side of the next bit. -/
theorem Fits.bits_ne_of_other (side : bitValueAt k prefixLen = bit)
    (member : entry ∈ (Node.child (!bit) zero one).contents) : entry.bits ≠ bits searchLen k := by
  intro same
  have below := fits.below member
  have sameBit := bitValueAt_eq_of_lt below.1 (isAncestor_of_bits_eq same).2
  rw [below.2.2, side] at sameBit
  exact Bool.not_ne_self _ sameBit

/-- Below the node of a prefix there is no entry for the prefix. -/
theorem Fits.bits_ne_below (le : searchLen ≤ prefixLen)
    (member : entry ∈ (Node.child bit zero one).contents) : entry.bits ≠ bits searchLen k :=
  bits_ne (le.trans_lt (fits.below member).1).ne'

end

/-! ### Upsert -/

structure Upserted (maxPrefix : Nat) (path : List Bool) (entry : Entry K T) (before : Node K T)
    (after : Node K T × Bool) : Prop where
  fits : Fits maxPrefix path after.1
  ne_nil : after.1 ≠ .nil
  mem_iff : ∀ other, other ∈ after.1.contents ↔
    other = entry ∨ other ∈ before.contents ∧ other.bits ≠ entry.bits
  fresh_iff : after.2 = true ↔ ∀ other ∈ before.contents, other.bits ≠ entry.bits
  length_eq : after.1.contents.length = before.contents.length + if after.2 then 1 else 0

theorem upserted_nil (short : entry.prefixLen ≤ maxPrefix)
    (under : Under path entry.prefixLen entry.key) :
    Upserted maxPrefix path entry .nil (leaf entry.prefixLen entry.key entry.value, true) where
  fits := ⟨short, under, trivial, trivial, nofun⟩
  ne_nil := nofun
  mem_iff other := by simp [leaf, contents]
  fresh_iff := by simp [contents]
  length_eq := rfl

/-- An entry is added to the others, which are for other prefixes. -/
theorem upserted_of_perm {before after : Node K T} (fits : Fits maxPrefix path after)
    (notNil : after ≠ .nil) (perm : after.contents.Perm (entry :: before.contents))
    (different : ∀ other ∈ before.contents, other.bits ≠ entry.bits) :
    Upserted maxPrefix path entry before (after, true) where
  fits := fits
  ne_nil := notNil
  mem_iff other := by
    rw [perm.mem_iff, mem_cons, and_iff_left_of_imp (different other)]
  fresh_iff := ⟨fun _ => different, fun _ => rfl⟩
  length_eq := perm.length_eq

section

variable (fits : Fits maxPrefix path (.node prefixLen key value zero one))

include fits

theorem upserted_replace (same : bits prefixLen key = entry.bits) :
    Upserted maxPrefix path entry (.node prefixLen key value zero one)
      (.node entry.prefixLen entry.key (some entry.value) zero one, value.isNone) := by
  obtain ⟨searchLen, k, later⟩ := entry
  have lengths : prefixLen = searchLen := by
    simpa only [Entry.bits, length_bits] using congrArg List.length same
  subst lengths
  obtain ⟨short, under, children, _⟩ := fits_node.mp fits
  have below {other : Entry K T} (member : ∃ bit, other ∈ (child bit zero one).contents) :
      other.bits ≠ bits prefixLen k := by
    obtain ⟨bit, inChild⟩ := member
    exact fits.bits_ne_below le_rfl inChild
  constructor
  · refine fits_node.mpr ⟨short, under.of_bits_eq same, fun bit => ?_, by simp⟩
    show Fits maxPrefix (Entry.bits ⟨prefixLen, k, later⟩ ++ [bit]) _
    rw [← same]
    exact children bit
  · rintro ⟨⟩
  · intro other
    rw [mem_contents_node, mem_contents_node]
    constructor
    · rintro (⟨own, isOwn, rfl⟩ | inChild)
      · cases isOwn
        exact .inl rfl
      · exact .inr ⟨.inr inChild, below inChild⟩
    · rintro (rfl | ⟨⟨_, _, rfl⟩ | inChild, different⟩)
      · exact .inl ⟨later, rfl, rfl⟩
      · exact absurd same different
      · exact .inr inChild
  · constructor
    · intro fresh other member
      rcases mem_contents_node.mp member with ⟨own, isOwn, _⟩ | inChild
      · rw [isOwn] at fresh
        cases fresh
      · exact below inChild
    · intro different
      cases value with
      | none => rfl
      | some own => exact absurd same (different _ (mem_contents_node.mpr (.inl ⟨own, rfl, rfl⟩)))
  · rw [length_contents_sides false, length_contents_sides false]
    cases value with
    | none =>
      show 1 + _ = 0 + _ + 1
      rw [Nat.zero_add, Nat.add_comm]
    | some own => rfl

variable {zeroLater oneLater : Node K T}

/-- The node of a longer prefix is put below the new node. -/
theorem upserted_above (shorter : entry.prefixLen < prefixLen)
    (under : Under path entry.prefixLen entry.key) (same : bits entry.prefixLen key = entry.bits)
    (side : bitValueAt key entry.prefixLen = bit)
    (below : child bit zeroLater oneLater = .node prefixLen key value zero one)
    (beside : child (!bit) zeroLater oneLater = .nil) :
    Upserted maxPrefix path entry (.node prefixLen key value zero one)
      (.node entry.prefixLen entry.key (some entry.value) zeroLater oneLater, true) := by
  refine upserted_of_perm ?_ nofun ?_ fun other member => ?_
  · rw [fits_sides bit, below, beside]
    exact ⟨shorter.le.trans fits.1, under,
      ⟨⟨fits.1, under_snoc.mpr ⟨shorter, same, side⟩, fits.2.2⟩, trivial⟩, nofun⟩
  · refine (contents_perm_sides bit).trans ?_
    rw [below, beside, contents, append_nil]
    exact .refl _
  · rcases mem_contents_node.mp member with ⟨own, _, rfl⟩ | ⟨bit, inChild⟩
    · exact bits_ne shorter.ne'
    · exact fits.bits_ne_below shorter.le inChild

/-- A node that parts from the prefix is put beside the new node. -/
theorem upserted_beside {matchLen : Nat} (shorter : matchLen < prefixLen)
    (shorterSearch : matchLen < entry.prefixLen) (short : entry.prefixLen ≤ maxPrefix)
    (under : Under path matchLen key) (same : bits matchLen entry.key = bits matchLen key)
    (side : bitValueAt entry.key matchLen = bit) (parts : bitValueAt key matchLen = !bit)
    (new : child bit zeroLater oneLater = leaf entry.prefixLen entry.key entry.value)
    (old : child (!bit) zeroLater oneLater = .node prefixLen key value zero one) :
    Upserted maxPrefix path entry (.node prefixLen key value zero one)
      (.node matchLen key none zeroLater oneLater, true) := by
  refine upserted_of_perm ?_ nofun ?_ fun other member sameBits => ?_
  · rw [fits_sides bit, new, old]
    refine ⟨shorter.le.trans fits.1, under, ⟨?_, ?_⟩, fun _ => ⟨nofun, nofun⟩⟩
    · exact ⟨short, under_snoc.mpr ⟨shorterSearch, same, side⟩, trivial, trivial, nofun⟩
    · exact ⟨fits.1, under_snoc.mpr ⟨shorter, rfl, parts⟩, fits.2.2⟩
  · refine (contents_perm_sides bit).trans ?_
    rw [new, old]
    exact .refl _
  · have ancestor := isAncestor_of_bits_eq sameBits
    have agree : bits prefixLen key = bits prefixLen other.key ∧ prefixLen ≤ other.prefixLen := by
      rcases mem_contents_node.mp member with ⟨own, _, rfl⟩ | ⟨bit, inChild⟩
      · exact ⟨rfl, le_rfl⟩
      · exact ⟨(fits.below inChild).2.1.symm, (fits.below inChild).1.le⟩
    have sameBit := (bitValueAt_eq_of_lt shorter agree.1).trans
      (bitValueAt_eq_of_lt (shorter.trans_le agree.2) ancestor.2)
    rw [parts, side] at sameBit
    exact Bool.not_ne_self _ sameBit

theorem upserted_child (longer : prefixLen < entry.prefixLen)
    (side : bitValueAt entry.key prefixLen = bit) {later : Node K T} {fresh : Bool}
    (changed : Upserted maxPrefix (bits prefixLen key ++ [bit]) entry (child bit zero one)
      (later, fresh)) (new : child bit zeroLater oneLater = later)
    (old : child (!bit) zeroLater oneLater = child (!bit) zero one) :
    Upserted maxPrefix path entry (.node prefixLen key value zero one)
      (.node prefixLen key value zeroLater oneLater, fresh) := by
  obtain ⟨short, under, ⟨_, other⟩, joined⟩ := (fits_sides bit).mp fits
  have ownDifferent {own : T} : (⟨prefixLen, key, own⟩ : Entry K T).bits ≠ entry.bits :=
    bits_ne longer.ne
  have otherDifferent {other : Entry K T}
      (member : other ∈ (child (!bit) zero one).contents) : other.bits ≠ entry.bits :=
    fits.bits_ne_of_other side member
  constructor
  · rw [fits_sides bit, new, old]
    exact ⟨short, under, ⟨changed.fits, other⟩, fun none => ⟨changed.ne_nil, (joined none).2⟩⟩
  · nofun
  · intro other
    rw [mem_contents_sides bit, mem_contents_sides bit, new, old, changed.mem_iff]
    constructor
    · rintro (⟨own, isOwn, rfl⟩ | (rfl | ⟨member, different⟩) | member)
      · exact .inr ⟨.inl ⟨own, isOwn, rfl⟩, ownDifferent⟩
      · exact .inl rfl
      · exact .inr ⟨.inr (.inl member), different⟩
      · exact .inr ⟨.inr (.inr member), otherDifferent member⟩
    · rintro (rfl | ⟨own | member | member, different⟩)
      · exact .inr (.inl (.inl rfl))
      · exact .inl own
      · exact .inr (.inl (.inr ⟨member, different⟩))
      · exact .inr (.inr member)
  · rw [changed.fresh_iff]
    constructor
    · intro different other member
      rcases (mem_contents_sides bit).mp member with
        ⟨own, _, rfl⟩ | inChild | beside
      · exact ownDifferent
      · exact different other inChild
      · exact otherDifferent beside
    · intro different other member
      exact different other ((mem_contents_sides _).mpr (.inr (.inl member)))
  · rw [length_contents_sides bit, length_contents_sides bit, new, old]
    have lengths := changed.length_eq
    simp only at lengths ⊢
    omega

end

section

variable (agrees : Agrees K maxPrefix) (short : entry.prefixLen ≤ maxPrefix)
include agrees short

/-- `Upsert` adds the entry at the node at which it stops. -/
theorem upserted_at (fits : Fits maxPrefix path (.node prefixLen key value zero one))
    (under : Under path entry.prefixLen entry.key)
    (stops : prefixLen ≠ prefixMatch prefixLen key entry.prefixLen entry.key ∨
      prefixLen = maxPrefix ∨ prefixLen = entry.prefixLen) :
    Upserted maxPrefix path entry (.node prefixLen key value zero one)
      (upsertAt entry.prefixLen entry.key entry.value prefixLen key value zero one) := by
  have matched {count : Nat} : count ≤ prefixMatch prefixLen key entry.prefixLen entry.key ↔ _ :=
    le_prefixMatch_iff agrees fits.1
  obtain ⟨le, leSearch, same⟩ := matched.mp le_rfl
  rw [upsertAt]
  generalize prefixMatch prefixLen key entry.prefixLen entry.key = matchLen at *
  split
  case isTrue full =>
    subst full
    have lengths : matchLen = entry.prefixLen := by
      rcases stops with different | longest | same
      · exact absurd rfl different
      · exact le_antisymm leSearch (longest ▸ short)
      · exact same
    refine upserted_replace fits ?_
    rw [lengths] at same ⊢
    exact same
  case isFalse notFull =>
    have shorter := lt_of_le_of_ne le notFull
    split
    case isTrue searched =>
      subst searched
      cases side : bitValueAt key entry.prefixLen with
      | false | true => exact upserted_above fits shorter under same side rfl rfl
    case isFalse notSearched =>
      have shorterSearch := lt_of_le_of_ne leSearch notSearched
      have parts : bitValueAt key matchLen = !bitValueAt entry.key matchLen := by
        refine Bool.eq_not.mpr fun sameBit => Nat.not_succ_le_self matchLen ?_
        refine matched.mpr ⟨shorter, shorterSearch, ?_⟩
        rw [bits_succ, bits_succ, same, sameBit]
      have underMatch : Under path matchLen key := by
        refine ⟨matched.mpr ⟨fits.2.1.1, under.1, ?_⟩, fits.2.1.2⟩
        rw [fits.2.1.2, under.2]
      cases side : bitValueAt entry.key matchLen with
      | false | true =>
        exact upserted_beside fits shorter shorterSearch short underMatch same.symm side
          (side ▸ parts) rfl rfl

theorem upserted (fits : Fits maxPrefix path node) (under : Under path entry.prefixLen entry.key) :
    Upserted maxPrefix path entry node
      (node.upsert maxPrefix entry.prefixLen entry.key entry.value) := by
  induction node using childInduction generalizing path with
  | nil => exact upserted_nil short under
  | node prefixLen key value zero one children =>
    rw [upsert]
    split
    case isTrue stops => exact upserted_at agrees short fits under stops
    case isFalse continues =>
      obtain ⟨full, _, different⟩ := not_or.mp continues |>.imp_right not_or.mp
      obtain ⟨_, leSearch, same⟩ := (le_prefixMatch_iff agrees fits.1).mp (not_not.mp full).le
      have longer := lt_of_le_of_ne leSearch different
      have changed := fun bit side => children bit (fits.child bit)
        (under_snoc.mpr ⟨longer, same.symm, side⟩)
      cases side : bitValueAt entry.key prefixLen with
      | false | true => exact upserted_child fits longer side (changed _ side) rfl rfl

end

/-! ### Delete -/

/-- What deleting an entry makes of a trie. -/
def Deleted (maxPrefix : Nat) (path : List Bool) (searchLen : Nat) (k : K) (before : Node K T) :
    Deletion K T → Prop
  | .notFound => ∀ entry ∈ before.contents, entry.bits ≠ bits searchLen k
  | .leaf => ∃ entry, before.contents = [entry] ∧ entry.bits = bits searchLen k
  | .replaced later =>
    Fits maxPrefix path later ∧ later ≠ .nil ∧
      (∃ entry ∈ before.contents, entry.bits = bits searchLen k) ∧
      (∀ entry, entry ∈ later.contents ↔ entry ∈ before.contents ∧ entry.bits ≠ bits searchLen k) ∧
      before.contents.length = later.contents.length + 1

/-- The entry for the prefix is taken from the others. -/
theorem deleted_of_perm {before later : Node K T} (fits : Fits maxPrefix path later)
    (notNil : later ≠ .nil) (same : entry.bits = bits searchLen k)
    (perm : before.contents.Perm (entry :: later.contents))
    (different : ∀ other ∈ later.contents, other.bits ≠ bits searchLen k) :
    Deleted maxPrefix path searchLen k before (.replaced later) := by
  refine ⟨fits, notNil, ⟨entry, perm.mem_iff.mpr (.head _), same⟩, fun other => ?_,
    perm.length_eq⟩
  rw [perm.mem_iff, mem_cons]
  constructor
  · exact fun member => ⟨.inr member, different other member⟩
  · rintro ⟨rfl | member, differs⟩
    · exact absurd same differs
    · exact member

section

variable (fits : Fits maxPrefix path (.node prefixLen key value zero one))

include fits

theorem deleted_at {own : T} (isOwn : value = some own) (lengths : prefixLen = searchLen)
    (same : bits prefixLen key = bits prefixLen k) :
    Deleted maxPrefix path searchLen k (.node prefixLen key value zero one)
      (deleteAt prefixLen key zero one) := by
  subst isOwn lengths
  obtain ⟨short, under, children, _⟩ := fits_node.mp fits
  have ownSame : (⟨prefixLen, key, own⟩ : Entry K T).bits = bits prefixLen k := same
  have below : ∀ entry ∈ zero.contents ++ one.contents, entry.bits ≠ bits prefixLen k := by
    intro entry member
    obtain ⟨bit, inChild⟩ : ∃ bit, entry ∈ (child bit zero one).contents :=
      Bool.exists_bool.mpr (mem_append.mp member)
    exact fits.bits_ne_below le_rfl inChild
  cases zero with
  | nil =>
    cases one with
    | nil => exact ⟨_, rfl, same⟩
    | node =>
      exact deleted_of_perm ((children true).raise under) (by simp) ownSame (.refl _) below
  | node =>
    cases one with
    | nil =>
      refine deleted_of_perm ((children false).raise under) (by simp) ownSame ?_
        fun entry member => below entry (mem_append_left _ member)
      rw [contents, contents, append_nil]
      exact .refl _
    | node =>
      refine deleted_of_perm (fits_node.mpr ⟨short, under, children, fun _ bit => ?_⟩) (by simp)
        ownSame (.refl _) below
      cases bit <;> rintro ⟨⟩

theorem deleted_side (longer : prefixLen < searchLen) (side : bitValueAt k prefixLen = bit)
    {zeroLater oneLater later : Node K T} (new : child bit zeroLater oneLater = later)
    (old : child (!bit) zeroLater oneLater = child (!bit) zero one)
    (laterFits : Fits maxPrefix (bits prefixLen key ++ [bit]) later)
    (notNil : value = none → later ≠ .nil)
    (found : ∃ entry ∈ (child bit zero one).contents, entry.bits = bits searchLen k)
    (kept : ∀ entry, entry ∈ later.contents ↔
      entry ∈ (child bit zero one).contents ∧ entry.bits ≠ bits searchLen k)
    (length : (child bit zero one).contents.length = later.contents.length + 1) :
    Deleted maxPrefix path searchLen k (.node prefixLen key value zero one)
      (.replaced (.node prefixLen key value zeroLater oneLater)) := by
  obtain ⟨short, under, ⟨_, otherFits⟩, joined⟩ := (fits_sides bit).mp fits
  refine ⟨?_, nofun, ?_, fun other => ?_, ?_⟩
  · rw [fits_sides bit, new, old]
    exact ⟨short, under, ⟨laterFits, otherFits⟩, fun none => ⟨notNil none, (joined none).2⟩⟩
  · obtain ⟨entry, member, same⟩ := found
    exact ⟨entry, mem_contents_node.mpr (.inr ⟨bit, member⟩), same⟩
  · rw [mem_contents_sides bit, mem_contents_sides bit, new, old, kept]
    constructor
    · rintro (⟨own, isOwn, rfl⟩ | ⟨member, different⟩ | member)
      · exact ⟨.inl ⟨own, isOwn, rfl⟩, bits_ne longer.ne⟩
      · exact ⟨.inr (.inl member), different⟩
      · exact ⟨.inr (.inr member), fits.bits_ne_of_other side member⟩
    · rintro ⟨own | member | member, different⟩
      · exact .inl own
      · exact .inr (.inl ⟨member, different⟩)
      · exact .inr (.inr member)
  · rw [length_contents_sides bit, length_contents_sides bit, new, old, length]
    omega

/-- An intermediate node whose child on the side of the next bit was only the entry is replaced by
its other child. -/
theorem deleted_promote (intermediate : value = none) (side : bitValueAt k prefixLen = bit)
    (only : (child bit zero one).contents = [entry]) (same : entry.bits = bits searchLen k) :
    Deleted maxPrefix path searchLen k (.node prefixLen key value zero one)
      (.replaced (child (!bit) zero one)) := by
  obtain ⟨_, under, children, joined⟩ := fits_node.mp fits
  subst intermediate
  refine deleted_of_perm ((children _).raise under) (joined rfl _) same ?_ fun other member =>
    fits.bits_ne_of_other side member
  refine (contents_perm_sides bit).trans ?_
  rw [only]
  exact .refl _

theorem deleted_child (longer : prefixLen < searchLen) (side : bitValueAt k prefixLen = bit)
    {deletion : Deletion K T}
    (changed : Deleted maxPrefix (bits prefixLen key ++ [bit]) searchLen k
      (child bit zero one) deletion) :
    Deleted maxPrefix path searchLen k (.node prefixLen key value zero one)
      (afterDeletion bit prefixLen key value zero one deletion) := by
  cases deletion with
  | notFound =>
    intro entry member
    rcases (mem_contents_sides bit).mp member with ⟨own, _, rfl⟩ | inChild | beside
    · exact bits_ne longer.ne
    · exact changed entry inChild
    · exact fits.bits_ne_of_other side beside
  | leaf =>
    obtain ⟨entry, only, same⟩ := changed
    rw [afterDeletion]
    split
    case isTrue intermediate =>
      exact deleted_promote fits (isNone_iff_eq_none.mp intermediate) side only same
    case isFalse hasValue =>
      have notNone (none : value = none) : nil (K := K) (T := T) ≠ .nil :=
        absurd (isNone_iff_eq_none.mpr none) hasValue
      have found : ∃ entry ∈ (child bit zero one).contents, entry.bits = bits searchLen k :=
        ⟨entry, only ▸ mem_singleton.mpr rfl, same⟩
      have kept (other : Entry K T) : other ∈ nil.contents ↔
          other ∈ (child bit zero one).contents ∧ other.bits ≠ bits searchLen k := by
        rw [only, mem_singleton]
        refine ⟨fun none => absurd none not_mem_nil, ?_⟩
        rintro ⟨rfl, different⟩
        exact absurd same different
      have length : (child bit zero one).contents.length = 0 + 1 :=
        only ▸ rfl
      cases bit with
      | false | true =>
        exact deleted_side fits longer side rfl rfl trivial notNone found kept length
  | replaced later =>
    obtain ⟨laterFits, notNil, found, kept, length⟩ := changed
    cases bit with
    | false | true =>
      exact deleted_side fits longer side rfl rfl laterFits (fun _ => notNil) found kept length

end

theorem deleted (agrees : Agrees K maxPrefix) (fits : Fits maxPrefix path node) :
    Deleted maxPrefix path searchLen k node (node.delete searchLen k) := by
  induction node generalizing path with
  | nil => exact forall_mem_nil _
  | node prefixLen key value zero one zeroHypothesis oneHypothesis =>
    rw [delete]
    split
    case isTrue stops =>
      split
      case isTrue missing =>
        intro entry member same
        by_cases full : prefixLen = prefixMatch prefixLen key searchLen k
        · have lengths := stops.resolve_left (not_not.mpr full)
          have intermediate : value = none := by
            rcases missing with different | notFull | none
            · exact absurd lengths different
            · exact absurd full notFull
            · exact isNone_iff_eq_none.mp none
          rcases mem_contents_node.mp member with ⟨own, isOwn, _⟩ | ⟨bit, inChild⟩
          · cases intermediate.symm.trans isOwn
          · exact fits.bits_ne_below lengths.ge inChild same
        · have mismatch := (prefixMatch_lt_iff agrees fits.1).mp
            (lt_of_le_of_ne (prefixMatch_le _ _ _ _) (Ne.symm full))
          have none := filter_eq_nil_iff.mp (ancestorsIn_eq_nil fits mismatch) entry member
          exact none (decide_eq_true (isAncestor_of_bits_eq same))
      case isFalse found =>
        obtain ⟨lengths, full, hasValue⟩ := not_or.mp found |>.imp_right not_or.mp
        rw [isNone_iff_eq_none] at hasValue
        obtain ⟨own, isOwn⟩ := ne_none_iff_exists'.mp hasValue
        obtain ⟨_, _, same⟩ := (le_prefixMatch_iff agrees fits.1).mp (not_not.mp full).le
        exact deleted_at fits isOwn (not_not.mp lengths) same
    case isFalse continues =>
      obtain ⟨full, different⟩ := not_or.mp continues
      obtain ⟨_, leSearch, _⟩ := (le_prefixMatch_iff agrees fits.1).mp (not_not.mp full).le
      have longer := lt_of_le_of_ne leSearch different
      cases side : bitValueAt k prefixLen with
      | false => exact deleted_child fits longer side (zeroHypothesis fits.2.2.1)
      | true => exact deleted_child fits longer side (oneHypothesis fits.2.2.2.1)

end Constellation.Bitlpm.Node
