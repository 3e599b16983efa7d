/-
This file is a library of precedence tables: partial maps from keys to numbers in which a key may
cover other keys and may hit queries, and the numbers never decrease towards the narrower key. A
`Put` writes one key where its number fits into the chains through the key, and may drop keys that
it covers and outranks. Puts keep the table monotone, and every query reaches what it could reach
before.
-/

import Mathlib

namespace Constellation.Lib

/-- The numbers may be of any ordered type. -/
abbrev PrecedenceTable (κ ν : Type*) := κ → Option ν

namespace PrecedenceTable

variable {κ ν π : Type*} [Preorder ν] (covers chain : κ → κ → Prop) (hits : κ → π → Prop)

/-- Along chains, narrower keys have numbers at least as high. -/
def IsMonotone (table : PrecedenceTable κ ν) : Prop :=
  ∀ broader narrower, chain broader narrower → ∀ low high, table broader = some low →
    table narrower = some high → low ≤ high

/-- A query hits a key with a number at least as high as the given one. -/
def Reaches (table : PrecedenceTable κ ν) (query : π) (number : ν) : Prop :=
  ∃ key high, table key = some high ∧ hits key query ∧ number ≤ high

/-- Writing a number under a key, together with dropping some keys that it covers and outranks. -/
structure Put (before after : PrecedenceTable κ ν) (key : κ) (number : ν) : Prop where
  written : after key = some number
  outranks : ∀ previous, before key = some previous → previous ≤ number
  others : ∀ other, other ≠ key → after other = before other ∨
    after other = none ∧ covers key other ∧ ∀ dropped, before other = some dropped →
      dropped ≤ number
  above : ∀ other, other ≠ key → chain other key → ∀ low, after other = some low → low ≤ number
  below : ∀ other, other ≠ key → chain key other → ∀ high, after other = some high → number ≤ high

variable {covers chain hits} {query : π}

theorem Reaches.mono {table : PrecedenceTable κ ν} {number lower : ν}
    (reaches : Reaches hits table query number) (le : lower ≤ number) :
    Reaches hits table query lower := by
  obtain ⟨key, high, present, hit, bound⟩ := reaches
  exact ⟨key, high, present, hit, le.trans bound⟩

namespace Put

variable {before after : PrecedenceTable κ ν} {key : κ} {number : ν}

section

variable (put : Put covers chain before after key number)
include put

theorem eq_before {other : κ}
    (differ : other ≠ key) {value : ν} (present : after other = some value) :
    before other = some value := by
  rcases put.others other differ with same | ⟨dropped, _⟩
  · exact same ▸ present
  · rw [dropped] at present
    cases present

theorem isMonotone (monotone : IsMonotone chain before) : IsMonotone chain after := by
  intro broader narrower linked low high lowPresent highPresent
  by_cases upper : broader = key
  · subst upper
    obtain rfl : low = number := Option.some.inj (lowPresent.symm.trans put.written)
    by_cases lower : narrower = broader
    · subst lower
      rw [Option.some.inj (lowPresent.symm.trans highPresent)]
    · exact put.below narrower lower linked high highPresent
  · by_cases lower : narrower = key
    · subst lower
      obtain rfl : high = number := Option.some.inj (highPresent.symm.trans put.written)
      exact put.above broader upper linked low lowPresent
    · exact monotone broader narrower linked low high (put.eq_before upper lowPresent)
        (put.eq_before lower highPresent)

/-- A put does not lower what a query reaches. -/
theorem reaches
    (coveredHits : ∀ other query, covers key other → hits other query → hits key query) {goal : ν}
    (reached : Reaches hits before query goal) : Reaches hits after query goal := by
  obtain ⟨other, high, present, hit, bound⟩ := reached
  by_cases same : other = key
  · subst same
    exact ⟨other, number, put.written, hit, bound.trans (put.outranks high present)⟩
  · rcases put.others other same with unchanged | ⟨_, covered, outranked⟩
    · exact ⟨other, high, unchanged.trans present, hit, bound⟩
    · exact ⟨key, number, put.written, coveredHits other query covered hit,
        bound.trans (outranked high present)⟩

theorem reaches_written (hit : hits key query) : Reaches hits after query number :=
  ⟨key, number, put.written, hit, le_refl number⟩

end

end Put

end PrecedenceTable

end Constellation.Lib
