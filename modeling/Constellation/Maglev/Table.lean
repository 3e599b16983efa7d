/-
This file models the computation of a Maglev lookup table: the permutation of every backend, the
turns by which the backends take slots, and the sorting that makes the table independent of their
order. The hash function and the sorting function are parameters, and the weight counters are
exact rationals. An index out of range and a turn that is not found within the fuel are the
absence of a result.
-/
import Constellation.Lib.Progression
import Constellation.Loadbalancer.Address

namespace Constellation.Maglev

open Loadbalancer Lib

structure Config where
  tableSize : Nat
  seedMurmur : Nat
  deriving Repr

structure BackendInfo (IP : Type) where
  id : Nat
  addr : L3n4Addr IP
  weight : Nat
  deriving DecidableEq, Repr

/-- The text of an IP address, the 128 bit hash of a text under a seed and the sorting of a list by
a key. -/
structure Platform (IP : Type) where
  format : AddrFormat IP
  hash128 : String → Nat → Nat × Nat
  sortFunc : (BackendInfo IP → String) → List (BackendInfo IP) → List (BackendInfo IP)

/-- Plain address texts, and a sorting function that returns a sorted permutation of its
argument. -/
structure Platform.Lawful {IP : Type} (platform : Platform IP) : Prop where
  plain : platform.format.Plain
  perm : ∀ key backends, (platform.sortFunc key backends).Perm backends
  sorted : ∀ key backends, (platform.sortFunc key backends).Pairwise (fun a b => key a ≤ key b)

def sentinel : Nat := 0xffffffff

section
variable {IP : Type} (platform : Platform IP) (config : Config)

def getOffsetAndSkip (addr : String) (m : Nat) (seed : Nat) : Nat × Nat :=
  let (h1, h2) := platform.hash128 addr seed
  (h1 % m, h2 % (m - 1) + 1)

/-- The order in which a backend asks for the slots of the table. -/
def permutation (backend : BackendInfo IP) : List Nat :=
  let (offset, skip) := getOffsetAndSkip platform (hashString platform.format backend.addr)
    config.tableSize config.seedMurmur
  progression config.tableSize skip config.tableSize offset

def getPermutation (backends : List (BackendInfo IP)) : List Nat :=
  backends.flatMap (permutation platform config)

def weightSum (backends : List (BackendInfo IP)) : Nat :=
  (backends.map (·.weight)).sum

/-- Weights are used when their average, rounded down, is greater than one. -/
def weightsUsed (backends : List (BackendInfo IP)) : Bool :=
  weightSum backends / backends.length > 1

/-- The table, the position of every backend in its permutation and the weight counters. -/
structure Filling where
  entry : List Nat
  next : List Nat
  weightCntr : List ℚ

/-- The backend that has turn `n`, searched from index `i` on. -/
def selectTurn (backends : List (BackendInfo IP)) (weightCntr : List ℚ) (n : Nat) :
    Nat → Nat → Option Nat
  | 0, _ => none
  | fuel + 1, i => do
    let info ← backends[i]?
    if weightsUsed backends then
      let cntr ← weightCntr[i]?
      if (n + 1) * info.weight < ⌊cntr⌋₊ then
        selectTurn backends weightCntr n fuel ((i + 1) % backends.length)
      else some i
    else some i

/-- The first free slot among the slots asked for, and how many taken ones stand before it. -/
def scan (entry : List Nat) : List Nat → Option (Nat × Nat)
  | [] => none
  | c :: rest => do
    let id ← entry[c]?
    if id = sentinel then some (c, 0)
    else
      let (slot, passed) ← scan entry rest
      some (slot, passed + 1)

def turn (fuel : Nat) (backends : List (BackendInfo IP)) (perm : List Nat) (filling : Filling)
    (n : Nat) : Option Filling := do
  let i ← selectTurn backends filling.weightCntr n fuel (n % backends.length)
  let info ← backends[i]?
  let cntr ← filling.weightCntr[i]?
  let position ← filling.next[i]?
  let (c, passed) ← scan filling.entry (perm.drop (i * config.tableSize + position))
  some {
    entry := filling.entry.set c info.id
    next := filling.next.set i (position + passed + 1)
    weightCntr := if weightsUsed backends then
        filling.weightCntr.set i (cntr + weightSum backends)
      else filling.weightCntr }

def Filling.start (backends : List (BackendInfo IP)) : Filling where
  entry := List.replicate config.tableSize sentinel
  next := List.replicate backends.length 0
  weightCntr := backends.map (fun info => (info.weight : ℚ) / backends.length)

/-- The number of backends is a divisor, so that there is no result without backends. -/
def computeLookupTable (fuel : Nat) (backends : List (BackendInfo IP)) : Option (List Nat) :=
  if backends.length = 0 then none
  else
    let perm := getPermutation platform config backends
    let filled := (List.range config.tableSize).foldlM (turn config fuel backends perm)
      (Filling.start config backends)
    filled.map (·.entry)

/-- Sorted by the text that is also hashed. -/
def getLookupTable (fuel : Nat) (backends : List (BackendInfo IP)) : Option (List Nat) :=
  computeLookupTable platform config fuel
    (platform.sortFunc (fun info => hashString platform.format info.addr) backends)

end

end Constellation.Maglev
