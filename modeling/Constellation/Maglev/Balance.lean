/-
This file proves that the Maglev computation returns a full and balanced table. A turn takes one
free slot, nothing that a backend has passed is free, and no backend gets ahead of its share. The
table does not depend on the order of the backends, because different backends are sorted by
different texts.
-/
import Constellation.Maglev.Fill

namespace Constellation.Maglev

open Loadbalancer Lib List Option

section
variable {IP : Type} (platform : Platform IP) (config : Config)
variable {backends : List (BackendInfo IP)}

/-! ### The invariant of the main loop -/

def oneMore (turns : Fin backends.length → Nat) (i : Fin backends.length) :
    Fin backends.length → Nat :=
  fun j => turns j + if j = i then 1 else 0

theorem sum_oneMore (turns : Fin backends.length → Nat) (i : Fin backends.length)
    (p : Fin backends.length → Prop) [DecidablePred p] :
    ∑ j with p j, oneMore turns i j = (∑ j with p j, turns j) + if p i then 1 else 0 := by
  simp only [oneMore, Finset.sum_add_distrib, Finset.sum_ite_eq', Finset.mem_filter,
    Finset.mem_univ, true_and]

/-- None, unless the identifier of the backend is the mark of a free slot. -/
def passable (info : BackendInfo IP) (turns : Nat) : Nat :=
  if info.id = sentinel then turns else 0

/-- After `n` turns, of which every backend has had `turns`. -/
structure Taking (backends : List (BackendInfo IP)) (turns : Fin backends.length → Nat) (n : Nat)
    (filling : Filling) : Prop where
  slots : filling.entry.length = config.tableSize
  total : ∑ i, turns i = n
  placed : ∀ id, id ≠ sentinel →
    filling.entry.count id = ∑ i : Fin backends.length with backends[i].id = id, turns i
  taken : filling.entry.countP (· ≠ sentinel)
    = ∑ i : Fin backends.length with backends[i].id ≠ sentinel, turns i
  passed : ∀ i : Fin backends.length, ∃ position, filling.next[i]? = some position ∧
    ((permutation platform config backends[i]).take position).countP (isFree filling.entry)
      ≤ passable backends[i] (turns i)
  counters : filling.weightCntr.length = backends.length
  counted : weightsUsed backends = true → ∀ i : Fin backends.length,
    filling.weightCntr[i]? = some (counter backends backends[i] (turns i))
  weighted : weightsUsed backends = true → ∀ i : Fin backends.length,
    turns i * weightSum backends ≤ n * backends[i].weight + weightSum backends
  inOrder : weightsUsed backends = false → ∀ i : Fin backends.length,
    turns i = Nat.count (fun j => j % backends.length = i) n

variable {platform config}

theorem Taking.start :
    Taking platform config backends (fun _ => 0) 0 (Filling.start config backends) where
  slots := length_replicate
  total := Finset.sum_const_zero
  placed id other := by
    rw [Finset.sum_const_zero]
    exact count_eq_zero.mpr (fun member => other (eq_of_mem_replicate member))
  taken := by
    rw [Finset.sum_const_zero, countP_eq_zero]
    intro id member
    simp [eq_of_mem_replicate member]
  passed i := by
    refine ⟨0, ?_, ?_⟩
    · simp [Filling.start, i.isLt]
    · simp
  counters := length_map _
  counted _ i := by
    simp [Filling.start, counter]
  weighted _ i := by simp
  inOrder _ i := by rw [Nat.count_zero]

variable {turns : Fin backends.length → Nat} {filling : Filling} {n : Nat}

section

variable (taking : Taking platform config backends turns n filling)
include taking

theorem Taking.count_sentinel :
    filling.entry.count sentinel
      + ∑ i : Fin backends.length with backends[i].id ≠ sentinel, turns i = config.tableSize := by
  have split : filling.entry.length = filling.entry.countP (· == sentinel)
      + filling.entry.countP (fun id => ¬(id == sentinel) = true) :=
    length_eq_countP_add_countP _
  simp only [beq_iff_eq] at split
  rw [← taking.taken, List.count, ← taking.slots, split]

/-- While a slot is left for the turn, more slots are free than the backend can have passed. -/
theorem Taking.passable_lt (room : n < config.tableSize) (i : Fin backends.length) :
    passable backends[i] (turns i) < filling.entry.count sentinel := by
  have marked : passable backends[i] (turns i)
      ≤ ∑ i : Fin backends.length with ¬backends[i].id ≠ sentinel, turns i := by
    unfold passable
    split
    case isTrue isMark =>
      exact Finset.single_le_sum (fun _ _ => Nat.zero_le _)
        (Finset.mem_filter.mpr ⟨Finset.mem_univ i, not_not.mpr isMark⟩)
    case isFalse other => exact Nat.zero_le _
  have split := Finset.sum_filter_add_sum_filter_not Finset.univ
    (fun i : Fin backends.length => backends[i].id ≠ sentinel) turns
  have total := taking.total
  have free := taking.count_sentinel
  omega

/-- The backend that has the turn finds its slot before the end of its permutation. -/
theorem Taking.scan_eq_some (prime : config.tableSize.Prime)
    (room : n < config.tableSize) (i : Fin backends.length) {position : Nat}
    (passed : ((permutation platform config backends[i]).take position).countP
      (isFree filling.entry) ≤ passable backends[i] (turns i)) :
    ∃ front c back, (permutation platform config backends[i]).drop position = front ++ c :: back ∧
      isFree filling.entry c = true ∧ front.countP (isFree filling.entry) = 0 ∧
      scan filling.entry ((getPermutation platform config backends).drop
        (i * config.tableSize + position)) = some (c, front.length) := by
  set row := permutation platform config backends[i] with isRow
  have covers : row.Perm (List.range config.tableSize) := permutation_perm_range prime _
  have left : 0 < (row.drop position).countP (isFree filling.entry) := by
    have allFree : row.countP (isFree filling.entry) = filling.entry.count sentinel := by
      rw [covers.countP_eq, ← taking.slots, countP_isFree_range]
    rw [← take_append_drop position row, countP_append] at allFree
    have more := taking.passable_lt room i
    omega
  have inRow : position ≤ config.tableSize := by
    by_contra beyond
    rw [drop_eq_nil_of_le (by rw [isRow, permutation_length]; omega)] at left
    cases left
  obtain ⟨rest, isFlat⟩ := @getPermutation_drop _ platform config _ _ i.isLt _ inRow
  rw [isFlat]
  refine scan_append rest ?_ left
  intro c member
  have inRange := covers.mem_iff.mp (mem_of_mem_drop member)
  rw [taking.slots]
  exact mem_range.mp inRange

/-! ### One turn -/

/-- The backend that a turn selects: it is due when weights are used, and it is the next one in
the order otherwise. -/
theorem Taking.selectTurn_eq_some
    (nonempty : 0 < backends.length) {fuel : Nat} (enough : backends.length ≤ fuel) :
    ∃ i : Fin backends.length,
      selectTurn backends filling.weightCntr n fuel (n % backends.length) = some i.val ∧
      (weightsUsed backends = true → turns i * weightSum backends ≤ (n + 1) * backends[i].weight) ∧
      (weightsUsed backends = false → i.val = n % backends.length) := by
  have inList : n % backends.length < backends.length := Nat.mod_lt _ nonempty
  cases used : weightsUsed backends with
  | true =>
    obtain ⟨target, due⟩ := exists_due nonempty turns taking.total (taking.counted used)
    have reach : (n % backends.length
        + (target + (backends.length - n % backends.length)) % backends.length)
          % backends.length = target := by
      rw [Nat.add_mod_mod]
      have round : n % backends.length + (target + (backends.length - n % backends.length))
          = target + backends.length := by omega
      rw [round, Nat.add_mod_right, Nat.mod_eq_of_lt target.isLt]
    obtain ⟨chosen, selected, info, cntr, found, found', least⟩ :=
      selectTurn_of_due used taking.counters inList (by rw [reach]; exact due)
        ((Nat.mod_lt _ nonempty).trans_le enough)
    obtain ⟨bound, isInfo⟩ := List.getElem?_eq_some_iff.mp found
    refine ⟨⟨chosen, bound⟩, selected, ?_, ?_⟩
    · intro _
      have counted := taking.counted used ⟨chosen, bound⟩
      have same : some cntr = some (counter backends backends[chosen] (turns ⟨chosen, bound⟩)) :=
        found'.symm.trans counted
      rw [Option.some.inj same, ← isInfo] at least
      refine (Nat.le_floor ?_).trans least
      rw [counter]
      push_cast
      have share : (0 : ℚ) ≤ (backends[chosen].weight : ℚ) / backends.length := by positivity
      linarith
    · intro unused
      cases unused
  | false =>
    refine ⟨⟨n % backends.length, inList⟩, ?_, ?_, ?_⟩
    · exact selectTurn_unweighted _ n used inList (nonempty.trans_le enough)
    · intro isUsed
      cases isUsed
    · intro _
      rfl

end

/-- The free slots that a backend has passed after its turn. -/
theorem passed_oneMore {entry : List Nat} {c : Nat} (free : isFree entry c = true)
    {info : BackendInfo IP} {row front back : List Nat} {position turns : Nat}
    (ahead : row.drop position = front ++ c :: back) (skipped : front.countP (isFree entry) = 0)
    (passed : (row.take position).countP (isFree entry) ≤ passable info turns) :
    (row.take (position + front.length + 1)).countP (isFree (entry.set c info.id))
      ≤ passable info (turns + 1) := by
  have taken : row.take (position + front.length + 1) = row.take position ++ (front ++ [c]) := by
    have first : (front ++ c :: back).take (front.length + 1) = front ++ [c] := by
      rw [take_length_add_append]
      rfl
    rw [Nat.add_assoc, take_add, ahead, first]
  have before := countP_isFree_set_le free info.id (row.take position)
  have between := countP_isFree_set_le free info.id front
  have last : [c].countP (isFree (entry.set c info.id)) = if info.id = sentinel then 1 else 0 := by
    by_cases isMark : info.id = sentinel <;> simp [isFree_set free, free, isMark]
  rw [taken, countP_append, countP_append, last]
  unfold passable at passed ⊢
  split at passed
  case isTrue isMark =>
    rw [if_pos isMark, if_pos isMark]
    omega
  case isFalse other =>
    rw [if_neg other, if_neg other]
    omega

/-- What a turn preserves: it has a result, in which one backend has taken one more slot. -/
theorem Taking.turn_eq_some
    (taking : Taking platform config backends turns n filling) (prime : config.tableSize.Prime)
    (nonempty : 0 < backends.length) {fuel : Nat} (enough : backends.length ≤ fuel)
    (room : n < config.tableSize) :
    ∃ i after, turn config fuel backends (getPermutation platform config backends) filling n
        = some after ∧ Taking platform config backends (oneMore turns i) (n + 1) after := by
  obtain ⟨i, selected, due, isNext⟩ := taking.selectTurn_eq_some nonempty enough
  obtain ⟨position, atPosition, passed⟩ := taking.passed i
  obtain ⟨front, c, back, ahead, free, skipped, scanned⟩ :=
    taking.scan_eq_some prime room i passed
  have info : backends[i.val]? = some backends[i] := getElem?_eq_getElem i.isLt
  have bound : i.val < filling.weightCntr.length := by rw [taking.counters]; exact i.isLt
  have result : turn config fuel backends (getPermutation platform config backends) filling n
      = some {
        entry := filling.entry.set c backends[i].id
        next := filling.next.set i (position + front.length + 1)
        weightCntr := if weightsUsed backends then
            filling.weightCntr.set i (filling.weightCntr[i.val] + weightSum backends)
          else filling.weightCntr } := by
    have atPosition' : filling.next[i.val]? = some position := atPosition
    simp only [turn, selected, info, getElem?_eq_getElem bound, atPosition', scanned,
      bind_eq_bind, bind_some]
  refine ⟨i, _, result, ?_⟩
  constructor
  case slots =>
    rw [length_set]
    exact taking.slots
  case total =>
    have sum := sum_oneMore turns i (fun _ => True)
    simp only [Finset.filter_true, if_true] at sum
    rw [sum, taking.total]
  case placed =>
    intro id unmarked
    rw [count_set_free free _ unmarked, taking.placed id unmarked,
      sum_oneMore turns i (fun j => backends[j].id = id)]
  case taken =>
    rw [countP_set_free free, taking.taken,
      sum_oneMore turns i (fun j => backends[j].id ≠ sentinel)]
  case passed =>
    intro j
    by_cases same : j = i
    · subst same
      refine ⟨position + front.length + 1, ?_, ?_⟩
      · exact getElem?_set_self (List.getElem?_eq_some_iff.mp atPosition).1
      · rw [oneMore, if_pos rfl]
        exact passed_oneMore free ahead skipped passed
    · obtain ⟨position', atPosition', passed'⟩ := taking.passed j
      refine ⟨position', ?_, ?_⟩
      · rw [← atPosition']
        exact getElem?_set_ne (fun equal => same (Fin.ext equal.symm))
      · rw [oneMore, if_neg same]
        exact (countP_isFree_set_le free _ _).trans passed'
  case counters =>
    split
    case isTrue used =>
      rw [length_set]
      exact taking.counters
    case isFalse unused => exact taking.counters
  case counted =>
    intro used j
    rw [if_pos used]
    have counted := taking.counted used i
    by_cases same : j = i
    · subst same
      have current : filling.weightCntr[j.val] = counter backends backends[j] (turns j) :=
        Option.some.inj ((getElem?_eq_getElem bound).symm.trans counted)
      rw [oneMore, if_pos rfl, current]
      refine (getElem?_set_self bound).trans ?_
      simp only [counter]
      push_cast
      rw [add_mul, one_mul, add_assoc]
    · rw [oneMore, if_neg same]
      refine Eq.trans ?_ (taking.counted used j)
      exact getElem?_set_ne (fun equal => same (Fin.ext equal.symm))
  case weighted =>
    intro used j
    have grown : n * backends[j].weight ≤ (n + 1) * backends[j].weight :=
      Nat.mul_le_mul_right _ (Nat.le_succ n)
    by_cases same : j = i
    · subst same
      rw [oneMore, if_pos rfl, Nat.add_mul, Nat.one_mul]
      exact Nat.add_le_add_right (due used) _
    · rw [oneMore, if_neg same]
      exact (taking.weighted used j).trans (Nat.add_le_add_right grown _)
  case inOrder =>
    intro unused j
    rw [oneMore, Nat.count_succ, taking.inOrder unused j]
    congr 1
    by_cases same : j = i
    · subst same
      rw [if_pos rfl, if_pos (isNext unused).symm]
    · rw [if_neg same, if_neg]
      intro equal
      exact same (Fin.ext (equal.symm.trans (isNext unused).symm))

/-- What the whole loop preserves: all turns have a result. -/
theorem Taking.run (prime : config.tableSize.Prime) (nonempty : 0 < backends.length)
    {fuel : Nat} (enough : backends.length ≤ fuel) (room : n ≤ config.tableSize) :
    ∃ turns after, (List.range n).foldlM
        (turn config fuel backends (getPermutation platform config backends))
        (Filling.start config backends) = some after ∧
      Taking platform config backends turns n after := by
  induction n with
  | zero => exact ⟨_, _, rfl, Taking.start⟩
  | succ n inductionHypothesis =>
    obtain ⟨turns, filling, before, taking⟩ := inductionHypothesis (Nat.le_of_succ_le room)
    obtain ⟨i, after, result, more⟩ := taking.turn_eq_some prime nonempty enough room
    refine ⟨oneMore turns i, after, ?_, more⟩
    rw [range_succ, foldlM_append, before]
    simp only [bind_eq_bind, bind_some, foldlM_cons, foldlM_nil, result]
    rfl

/-! ### The table -/

/-- Every slot holds the identifier of a backend, an identifier stands in as many slots as the
backends with it have turns, and the turns are balanced. -/
structure Balanced (m : Nat) (backends : List (BackendInfo IP)) (table : List Nat)
    (turns : BackendInfo IP → Nat) : Prop where
  full : table.length = m
  known : ∀ id ∈ table, ∃ info ∈ backends, info.id = id
  total : (backends.map turns).sum = m
  occupied : ∀ id, table.count id = ((backends.filter (fun info => info.id = id)).map turns).sum
  even : weightsUsed backends = false → ∀ info ∈ backends,
    turns info = m / backends.length ∨ turns info = m ⌈/⌉ backends.length
  weighted : weightsUsed backends = true → ∀ info ∈ backends,
    (turns info : ℚ) ≤ m * info.weight / weightSum backends + 1

section

variable {others : List (BackendInfo IP)}

theorem weightSum_perm (same : backends.Perm others) : weightSum backends = weightSum others :=
  (same.map _).sum_eq

theorem weightsUsed_perm
    (same : backends.Perm others) : weightsUsed backends = weightsUsed others := by
  unfold weightsUsed
  rw [weightSum_perm same, same.length_eq]

theorem Balanced.perm {m : Nat} {table : List Nat}
    {turns : BackendInfo IP → Nat} (balanced : Balanced m backends table turns)
    (same : backends.Perm others) : Balanced m others table turns where
  full := balanced.full
  known id member := by
    obtain ⟨info, listed, isId⟩ := balanced.known id member
    exact ⟨info, same.mem_iff.mp listed, isId⟩
  total := by
    rw [← balanced.total]
    exact (same.map turns).symm.sum_eq
  occupied id := by
    rw [balanced.occupied id]
    exact ((same.filter _).map turns).sum_eq
  even unused info member := by
    rw [← same.length_eq]
    exact balanced.even ((weightsUsed_perm same).trans unused) info (same.mem_iff.mpr member)
  weighted used info member := by
    rw [← weightSum_perm same]
    exact balanced.weighted ((weightsUsed_perm same).trans used) info (same.mem_iff.mpr member)

end

/-- The turns of the backends with an identifier, summed by position. -/
theorem sum_filter_eq (backends : List (BackendInfo IP)) (turns : BackendInfo IP → Nat) (id : Nat) :
    ((backends.filter (fun info => info.id = id)).map turns).sum
      = ∑ i : Fin backends.length with backends[i].id = id, turns backends[i] := by
  have guarded : ((backends.filter (fun info => info.id = id)).map turns).sum
      = (backends.map (fun info => if info.id = id then turns info else 0)).sum := by
    induction backends with
    | nil => rfl
    | cons info rest inductionHypothesis =>
      by_cases isId : info.id = id <;> simp [isId, inductionHypothesis]
  rw [guarded, ← Fin.sum_univ_fun_getElem, Finset.sum_filter]
  rfl

/-- The share of a backend when the backends take turns in their order. -/
theorem count_turns {l : Nat} (m : Nat) {i : Nat} (inList : i < l) :
    Nat.count (fun j => j % l = i) m = m / l ∨ Nat.count (fun j => j % l = i) m = m ⌈/⌉ l := by
  have positive : 0 < l := Nat.zero_lt_of_lt inList
  have counted : Nat.count (fun j => j % l = i) m = m / l + if i < m % l then 1 else 0 := by
    have card := Nat.count_modEq_card m positive i
    simp only [Nat.ModEq, Nat.mod_eq_of_lt inList] at card
    exact card
  rw [counted]
  split
  case isTrue another =>
    right
    have remainder : m % l < l := Nat.mod_lt _ positive
    have whole : l * (m / l) + m % l = m := Nat.div_add_mod m l
    refine (Nat.div_eq_of_lt_le ?_ ?_).symm
    · rw [Nat.add_mul, Nat.mul_comm]
      omega
    · rw [Nat.add_mul, Nat.add_mul, Nat.mul_comm]
      omega
  case isFalse no => exact .inl rfl

section

variable (taking : Taking platform config backends turns config.tableSize filling)
include taking

/-- After all turns an identifier stands in as many slots as the backends with it have turns. -/
theorem Taking.count_eq (id : Nat) :
    filling.entry.count id = ∑ i : Fin backends.length with backends[i].id = id, turns i := by
  by_cases isMark : id = sentinel
  · subst isMark
    have split := Finset.sum_filter_add_sum_filter_not Finset.univ
      (fun i : Fin backends.length => backends[i].id = sentinel) turns
    have total := taking.total
    have free := taking.count_sentinel
    simp only [ne_eq] at free
    omega
  · exact taking.placed id isMark

theorem Taking.balanced (distinct : backends.Nodup) :
    ∃ turns, Balanced config.tableSize backends filling.entry turns := by
  have positions : Function.Injective (fun i : Fin backends.length => backends[i]) :=
    nodup_iff_injective_get.mp distinct
  obtain ⟨byInfo, agrees⟩ : ∃ byInfo : BackendInfo IP → Nat,
      ∀ i : Fin backends.length, byInfo backends[i] = turns i :=
    ⟨Function.extend (fun i : Fin backends.length => backends[i]) turns 0,
      fun i => positions.extend_apply turns 0 i⟩
  have indexed : ∀ info ∈ backends, ∃ i : Fin backends.length, backends[i] = info := by
    intro info member
    obtain ⟨i, bound, isInfo⟩ := getElem_of_mem member
    exact ⟨⟨i, bound⟩, isInfo⟩
  refine ⟨byInfo, taking.slots, ?known, ?total, ?occupied, ?even, ?weighted⟩
  case known =>
    intro id member
    have positive : 0 < filling.entry.count id := count_pos_iff.mpr member
    rw [taking.count_eq id] at positive
    obtain ⟨i, listed, -⟩ := Finset.exists_ne_zero_of_sum_ne_zero (Nat.ne_of_gt positive)
    exact ⟨backends[i], getElem_mem i.isLt, (Finset.mem_filter.mp listed).2⟩
  case total =>
    rw [← Fin.sum_univ_fun_getElem, ← taking.total]
    exact Finset.sum_congr rfl (fun i _ => agrees i)
  case occupied =>
    intro id
    rw [sum_filter_eq, taking.count_eq id]
    exact Finset.sum_congr rfl (fun i _ => (agrees i).symm)
  case even =>
    intro unused info member
    obtain ⟨i, rfl⟩ := indexed info member
    rw [agrees, taking.inOrder unused i]
    exact count_turns _ i.isLt
  case weighted =>
    intro used info member
    obtain ⟨i, rfl⟩ := indexed info member
    have bounded := taking.weighted used i
    have positive : (0 : ℚ) < weightSum backends := by
      have quotient : 1 < weightSum backends / backends.length := of_decide_eq_true used
      have nonzero : weightSum backends ≠ 0 := by
        intro zero
        rw [zero, Nat.zero_div] at quotient
        cases quotient
      exact_mod_cast Nat.pos_of_ne_zero nonzero
    rw [agrees, div_add_one (ne_of_gt positive), le_div_iff₀ positive]
    exact_mod_cast bounded

end

/-- The computation terminates with a balanced table for backends in any order. -/
theorem computeLookupTable_balanced (prime : config.tableSize.Prime)
    (nonempty : backends ≠ []) (distinct : backends.Nodup) {fuel : Nat}
    (enough : backends.length ≤ fuel) :
    ∃ table turns, computeLookupTable platform config fuel backends = some table ∧
      Balanced config.tableSize backends table turns := by
  have positive : 0 < backends.length := length_pos_iff.mpr nonempty
  obtain ⟨turns, filling, result, taking⟩ :=
    @Taking.run _ platform config _ _ prime positive _ enough le_rfl
  obtain ⟨byInfo, balanced⟩ := taking.balanced distinct
  refine ⟨filling.entry, byInfo, ?_, balanced⟩
  unfold computeLookupTable
  rw [if_neg (Nat.ne_of_gt positive)]
  simp only [result, map_some]

/-- Backends with different addresses have one sorted order. -/
theorem sortFunc_perm (lawful : platform.Lawful) {others : List (BackendInfo IP)}
    (distinct : (backends.map (·.addr)).Nodup) (same : backends.Perm others) :
    platform.sortFunc (fun info => hashString platform.format info.addr) backends
      = platform.sortFunc (fun info => hashString platform.format info.addr) others := by
  refine List.Perm.eq_of_pairwise ?_ (lawful.sorted _ backends) (lawful.sorted _ others)
    (((lawful.perm _ backends).trans same).trans (lawful.perm _ others).symm)
  intro a b listed listed' least most
  have addresses : a.addr = b.addr := hashString_injective lawful.plain (le_antisymm least most)
  have inBackends : a ∈ backends := (lawful.perm _ backends).mem_iff.mp listed
  have inBackends' : b ∈ backends := same.mem_iff.mpr ((lawful.perm _ others).mem_iff.mp listed')
  exact inj_on_of_nodup_map distinct inBackends inBackends' addresses

/-- The computation terminates within range with a full table that is balanced over the given
backends, and the table that is returned does not depend on the order in which they are
listed. -/
theorem lookupTable_balanced (platform : Platform IP) (lawful : platform.Lawful)
    (config : Config) (prime : config.tableSize.Prime) (backends : List (BackendInfo IP))
    (nonempty : backends ≠ []) (distinct : (backends.map (·.addr)).Nodup)
    (fuel : Nat) (enough : backends.length ≤ fuel) :
    (∃ table turns, computeLookupTable platform config fuel backends = some table ∧
      Balanced config.tableSize backends table turns) ∧
    ∃ table turns, Balanced config.tableSize backends table turns ∧ ∀ others, backends.Perm others →
        getLookupTable platform config fuel others = some table := by
  have nodup : backends.Nodup := List.Nodup.of_map _ distinct
  have balanced {listed : List (BackendInfo IP)} (same : listed.Perm backends) :
      ∃ table turns, computeLookupTable platform config fuel listed = some table ∧
        Balanced config.tableSize backends table turns := by
    have listedNonempty : listed ≠ [] := by
      rintro rfl
      exact nonempty same.nil_eq.symm
    obtain ⟨table, turns, computed, balanced⟩ := computeLookupTable_balanced prime listedNonempty
      (same.nodup_iff.mpr nodup) (same.length_eq.trans_le enough)
    exact ⟨table, turns, computed, balanced.perm same⟩
  refine ⟨balanced (.refl _), ?_⟩
  obtain ⟨table, turns, computed, balanced⟩ := balanced (lawful.perm
    (fun info => hashString platform.format info.addr) backends)
  refine ⟨table, turns, balanced, fun others same => ?_⟩
  rw [getLookupTable, ← sortFunc_perm lawful distinct same]
  exact computed

end

/-! ### Two weighted backends -/

/-- The addresses 10.0.0.0 to 10.0.0.9, with a polynomial in the characters of a text as its
hash. -/
def tenAddresses : Platform (Fin 10) where
  format := { string := fun ip => "10.0.0." ++ toString ip, is6 := fun _ => false }
  hash128 text seed := (text.foldl (fun sum char => 31 * sum + char.toNat) seed, text.length)
  sortFunc key backends := backends.mergeSort (fun a b => key a ≤ key b)

theorem tenAddresses_lawful : tenAddresses.Lawful where
  plain :=
    { injective := by decide +kernel
      noBracket := by decide +kernel
      noCluster := by decide +kernel }
  perm _ backends := mergeSort_perm backends _
  sorted key backends := by
    have sorted : (backends.mergeSort (fun a b => decide (key a ≤ key b))).Pairwise
        (fun a b => decide (key a ≤ key b) = true) :=
      pairwise_mergeSort (by simpa using fun a b c => le_trans)
        (by simpa using fun a b => le_total _ _) backends
    exact sorted.imp of_decide_eq_true

def twoBackends : List (BackendInfo (Fin 10)) :=
  [{ id := 11, addr := ⟨1, 0, 80, .tcp, .external⟩, weight := 1 },
    { id := 12, addr := ⟨2, 0, 80, .tcp, .external⟩, weight := 4 }]

/-- The table of the two weighted backends is balanced. -/
theorem twoBackends_balanced :
    (∃ table turns, computeLookupTable tenAddresses ⟨7, 0⟩ 2 twoBackends = some table ∧
      Balanced 7 twoBackends table turns) ∧
    ∃ table turns, Balanced 7 twoBackends table turns ∧ ∀ others, twoBackends.Perm others →
        getLookupTable tenAddresses ⟨7, 0⟩ 2 others = some table :=
  lookupTable_balanced tenAddresses tenAddresses_lawful ⟨7, 0⟩ (by decide) twoBackends
    (by decide) (by decide) 2 (by decide)

end Constellation.Maglev
