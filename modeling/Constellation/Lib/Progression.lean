/-
This file develops arithmetic progressions modulo a number. A full round with a step coprime to
the modulus visits every residue exactly once.
-/
import Mathlib

namespace Constellation.Lib

open List

/-- The first `count` members of the progression that starts at `start` and adds `step` modulo
`m`. -/
def progression (m step : Nat) : Nat → Nat → List Nat
  | 0, _ => []
  | count + 1, start => start :: progression m step count ((start + step) % m)

@[simp]
theorem progression_length (m step count start : Nat) :
    (progression m step count start).length = count := by
  induction count generalizing start with
  | zero => rfl
  | succ count inductionHypothesis => simp only [progression, length_cons, inductionHypothesis]

/-- A member of a progression in closed form. -/
theorem progression_eq_map {m start : Nat} (step count : Nat) (reduced : start < m) :
    progression m step count start = (List.range count).map (fun j => (start + j * step) % m) := by
  induction count generalizing start with
  | zero => rfl
  | succ count inductionHypothesis =>
    have positive : 0 < m := Nat.zero_lt_of_lt reduced
    rw [progression, inductionHypothesis (Nat.mod_lt _ positive), range_succ_eq_map, map_cons,
      map_map]
    congr 1
    · rw [Nat.zero_mul, Nat.add_zero, Nat.mod_eq_of_lt reduced]
    · apply map_congr_left
      intro j _
      simp only [Function.comp_apply, Nat.succ_eq_add_one]
      rw [Nat.mod_add_mod, Nat.add_mul, Nat.one_mul, Nat.add_assoc, Nat.add_comm step]

/-- A full round of a progression whose step is coprime to the modulus is a permutation of the
residues. -/
theorem progression_perm_range {m step start : Nat} (reduced : start < m)
    (coprime : Nat.Coprime m step) :
    (progression m step m start).Perm (List.range m) := by
  have positive : 0 < m := Nat.zero_lt_of_lt reduced
  have distinct : (progression m step m start).Nodup := by
    rw [progression_eq_map step m reduced]
    refine List.Nodup.map_on ?_ nodup_range
    intro j inRange k inRange' same
    have shifted : j * step ≡ k * step [MOD m] := Nat.ModEq.add_left_cancel' start same
    have congruent : j ≡ k [MOD m] := Nat.ModEq.cancel_right_of_coprime coprime shifted
    exact congruent.eq_of_lt_of_lt (mem_range.mp inRange) (mem_range.mp inRange')
  have bounded : progression m step m start ⊆ List.range m := by
    rw [progression_eq_map step m reduced]
    intro residue member
    obtain ⟨j, -, rfl⟩ := mem_map.mp member
    exact mem_range.mpr (Nat.mod_lt _ positive)
  refine (subperm_of_subset distinct bounded).perm_of_length_le ?_
  simp only [length_range, progression_length, le_refl]

end Constellation.Lib
