/-
This file follows the main loop of the Maglev computation. Every turn finds a backend, because not
all weight counters can be ahead of their average, and the backend finds a free slot, because its
permutation covers the whole table and everything it has passed is taken.
-/
import Constellation.Maglev.Table

namespace Constellation.Maglev

open Loadbalancer Lib List Finset

/-! ### The permutations -/

section
variable {IP : Type} {platform : Platform IP} {config : Config}

@[simp]
theorem permutation_length (backend : BackendInfo IP) :
    (permutation platform config backend).length = config.tableSize :=
  progression_length _ _ _ _

theorem permutation_perm_range (prime : config.tableSize.Prime) (backend : BackendInfo IP) :
    (permutation platform config backend).Perm (List.range config.tableSize) := by
  refine progression_perm_range (Nat.mod_lt _ prime.pos) ?_
  have small : (platform.hash128 (hashString platform.format backend.addr) config.seedMurmur).2
      % (config.tableSize - 1) < config.tableSize - 1 :=
    Nat.mod_lt _ (Nat.sub_pos_of_lt prime.one_lt)
  exact Nat.coprime_of_lt_prime (Nat.succ_ne_zero _) (Nat.add_lt_of_lt_sub small) prime

/-- The flat list of all permutations, from a position of one backend on. -/
theorem getPermutation_drop {backends : List (BackendInfo IP)} {i : Nat}
    (bound : i < backends.length) {position : Nat} (inRow : position ≤ config.tableSize) :
    ∃ rest, (getPermutation platform config backends).drop (i * config.tableSize + position)
      = (permutation platform config backends[i]).drop position ++ rest := by
  induction backends generalizing i with
  | nil => cases bound
  | cons backend others inductionHypothesis =>
    cases i with
    | zero =>
      refine ⟨getPermutation platform config others, ?_⟩
      rw [Nat.zero_mul, Nat.zero_add, getPermutation, flatMap_cons,
        drop_append_of_le_length (by rw [permutation_length]; exact inRow)]
      rfl
    | succ i =>
      obtain ⟨rest, found⟩ := inductionHypothesis (Nat.lt_of_succ_lt_succ bound)
      refine ⟨rest, ?_⟩
      have shift : (i + 1) * config.tableSize + position
          = (permutation platform config backend).length + (i * config.tableSize + position) := by
        rw [permutation_length, Nat.add_mul]
        omega
      rw [shift, getPermutation, flatMap_cons, drop_length_add_append]
      exact found

end

/-! ### Looking for a free slot -/

def isFree (entry : List Nat) (c : Nat) : Bool :=
  entry[c]? == some sentinel

variable {entry : List Nat}

/-- Among slots of the table that start with a free one somewhere, the scan stops at the first
free slot. -/
theorem scan_append {slots : List Nat} (rest : List Nat) (inTable : ∀ c ∈ slots, c < entry.length)
    (free : 0 < slots.countP (isFree entry)) :
    ∃ front c back, slots = front ++ c :: back ∧ isFree entry c = true ∧
      front.countP (isFree entry) = 0 ∧ scan entry (slots ++ rest) = some (c, front.length) := by
  induction slots with
  | nil => cases free
  | cons slot slots inductionHypothesis =>
    have bound := inTable slot (.head _)
    by_cases isFirst : isFree entry slot = true
    · refine ⟨[], slot, slots, rfl, isFirst, rfl, ?_⟩
      simp only [isFree, beq_iff_eq] at isFirst
      simp [scan, isFirst]
    · rw [countP_cons_of_neg isFirst] at free
      obtain ⟨front, c, back, rfl, isFreeC, passed, found⟩ :=
        inductionHypothesis (forall_mem_cons.mp inTable).2 free
      refine ⟨slot :: front, c, back, rfl, isFreeC, ?_, ?_⟩
      · rw [countP_cons_of_neg isFirst, passed]
      · have taken : entry[slot] ≠ sentinel := by
          intro same
          exact isFirst (by simp [isFree, getElem?_eq_getElem bound, same])
        rw [cons_append, scan, found]
        simp [getElem?_eq_getElem bound, taken]

theorem countP_isFree_range (entry : List Nat) :
    (List.range entry.length).countP (isFree entry) = entry.count sentinel := by
  have listed : entry.map some = (List.range entry.length).map (fun c => entry[c]?) := by
    apply ext_getElem
    · simp
    · intro c bound _
      simp only [length_map] at bound
      simp [getElem?_eq_getElem bound]
  have counted := congrArg (List.count (some sentinel)) listed
  rw [count_map_of_injective _ _ (Option.some_injective _)] at counted
  rw [counted, List.count, countP_map]
  rfl

variable {c : Nat} {weightCntr : List ℚ} {n : Nat}

section

variable (free : isFree entry c = true) (id : Nat)
include free id

/-- Taking a free slot for a backend removes it from the free slots, unless the backend has the
identifier that marks free slots. -/
theorem isFree_set (slot : Nat) :
    isFree (entry.set c id) slot = (isFree entry slot && (id == sentinel || !(slot == c))) := by
  simp only [isFree, beq_iff_eq] at free
  obtain ⟨bound, -⟩ := List.getElem?_eq_some_iff.mp free
  unfold isFree
  by_cases same : slot = c
  · subst same
    rw [getElem?_set_self bound, free]
    simp
  · simp [getElem?_set_ne (Ne.symm same), same]

theorem countP_isFree_set_le (slots : List Nat) :
    slots.countP (isFree (entry.set c id)) ≤ slots.countP (isFree entry) := by
  apply countP_mono_left
  intro slot _ freeAfter
  rw [isFree_set free, Bool.and_eq_true] at freeAfter
  exact freeAfter.1

theorem count_set_free {other : Nat} (unmarked : other ≠ sentinel) :
    (entry.set c id).count other = entry.count other + if id = other then 1 else 0 := by
  simp only [isFree, beq_iff_eq] at free
  obtain ⟨bound, mark⟩ := List.getElem?_eq_some_iff.mp free
  rw [count_set bound, mark]
  simp [unmarked.symm]

/-- Taking a free slot adds one to the taken slots, unless the backend has the identifier that
marks free slots. -/
theorem countP_set_free :
    (entry.set c id).countP (· ≠ sentinel)
      = entry.countP (· ≠ sentinel) + if id ≠ sentinel then 1 else 0 := by
  simp only [isFree, beq_iff_eq] at free
  obtain ⟨bound, mark⟩ := List.getElem?_eq_some_iff.mp free
  rw [countP_set bound, mark]
  simp

end

/-! ### Selecting the backend of a turn -/

section
variable {IP : Type} {backends : List (BackendInfo IP)}

def Due (backends : List (BackendInfo IP)) (weightCntr : List ℚ) (n i : Nat) : Prop :=
  ∃ info cntr, backends[i]? = some info ∧ weightCntr[i]? = some cntr ∧
    ⌊cntr⌋₊ ≤ (n + 1) * info.weight

/-- With weights, the search goes round until it meets a backend that is due. -/
theorem selectTurn_of_due (used : weightsUsed backends = true)
    (counters : weightCntr.length = backends.length) {distance : Nat} {i fuel : Nat}
    (inList : i < backends.length)
    (due : Due backends weightCntr n ((i + distance) % backends.length))
    (enough : distance < fuel) :
    ∃ chosen, selectTurn backends weightCntr n fuel i = some chosen ∧
      Due backends weightCntr n chosen := by
  induction fuel generalizing distance i with
  | zero => cases enough
  | succ fuel inductionHypothesis =>
    have info : backends[i]? = some backends[i] := getElem?_eq_getElem inList
    have cntr : weightCntr[i]? = some weightCntr[i] :=
      getElem?_eq_getElem (by rw [counters]; exact inList)
    by_cases ahead : (n + 1) * backends[i].weight < ⌊weightCntr[i]⌋₊
    · have more : ∃ before, distance = before + 1 := by
        cases distance with
        | zero =>
          obtain ⟨info', cntr', found, found', least⟩ := due
          rw [Nat.add_zero, Nat.mod_eq_of_lt inList] at found found'
          rw [info, Option.some.injEq] at found
          rw [cntr, Option.some.injEq] at found'
          subst found found'
          exact absurd ahead (Nat.not_lt.mpr least)
        | succ before => exact ⟨before, rfl⟩
      obtain ⟨before, rfl⟩ := more
      have next : ((i + 1) % backends.length + before) % backends.length
          = (i + (before + 1)) % backends.length := by
        rw [Nat.mod_add_mod, Nat.add_assoc, Nat.add_comm 1]
      have step : selectTurn backends weightCntr n (fuel + 1) i
          = selectTurn backends weightCntr n fuel ((i + 1) % backends.length) := by
        simp [selectTurn, info, cntr, used, ahead]
      rw [step]
      exact inductionHypothesis (Nat.mod_lt _ (Nat.zero_lt_of_lt inList)) (by rw [next]; exact due)
        (Nat.lt_of_succ_lt_succ enough)
    · refine ⟨i, ?_, backends[i], weightCntr[i], info, cntr, Nat.not_lt.mp ahead⟩
      simp [selectTurn, info, cntr, used, ahead]

/-- Without weights the backends take turns in their order. -/
theorem selectTurn_unweighted (weightCntr : List ℚ) (n : Nat)
    (unused : weightsUsed backends = false) {fuel i : Nat} (inList : i < backends.length)
    (some_fuel : 0 < fuel) :
    selectTurn backends weightCntr n fuel i = some i := by
  obtain ⟨fuel, rfl⟩ := Nat.exists_eq_succ_of_ne_zero (Nat.ne_of_gt some_fuel)
  simp [selectTurn, getElem?_eq_getElem inList, unused]

theorem sum_weight (backends : List (BackendInfo IP)) :
    ∑ i, ((backends.get i).weight : ℚ) = weightSum backends := by
  rw [weightSum, ← Fin.sum_univ_fun_getElem, Nat.cast_sum]
  rfl

def counter (backends : List (BackendInfo IP)) (info : BackendInfo IP) (turns : Nat) : ℚ :=
  (info.weight : ℚ) / backends.length + turns * weightSum backends

/-- Not all counters can be ahead: on average a counter is at most one weight sum behind. -/
theorem exists_due (nonempty : 0 < backends.length) (turns : Fin backends.length → Nat)
    (total : ∑ i, turns i = n) (counted : ∀ i : Fin backends.length,
      weightCntr[i]? = some (counter backends backends[i] (turns i))) :
    ∃ i : Fin backends.length, Due backends weightCntr n i := by
  by_contra none
  push Not at none
  have ahead : ∀ i, ((n + 1) * (backends.get i).weight : ℚ)
      < (backends.get i).weight / backends.length + turns i * weightSum backends := by
    intro i
    have early : (n + 1) * backends[i].weight < ⌊counter backends backends[i] (turns i)⌋₊ := by
      by_contra late
      exact none i ⟨backends[i], _, getElem?_eq_getElem i.isLt, counted i, Nat.not_lt.mp late⟩
    have bounded := Nat.lt_of_lt_floor early
    push_cast at bounded
    exact bounded
  have nonemptyFin : (Finset.univ : Finset (Fin backends.length)).Nonempty :=
    ⟨⟨0, nonempty⟩, mem_univ _⟩
  have summed := sum_lt_sum_of_nonempty nonemptyFin (fun i _ => ahead i)
  rw [← mul_sum, sum_add_distrib, ← sum_div, ← sum_mul, sum_weight, ← Nat.cast_sum, total] at summed
  have average : (weightSum backends : ℚ) / backends.length ≤ weightSum backends :=
    div_le_self (Nat.cast_nonneg _) (by exact_mod_cast nonempty)
  linarith

end

end Constellation.Maglev
