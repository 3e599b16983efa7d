/-
This file models the entries a map state keeps: the exported entry of the policy map, with the
metadata of pass verdicts on the same key and the rules it derives from. A pass verdict is a
`PassMeta`, kept in a list that is ordered by tier and holds the highest pass of each tier. An
entry that only carries metadata is invalid.
-/

import Constellation.Policy.Aggregate

namespace Constellation.Policy

/-! ### Rule origins -/

/-- The label arrays are sorted. -/
structure RuleMeta where
  labels : List String
  log : List String
  deriving DecidableEq, Repr

/-- The empty handle is `none`. -/
abbrev RuleOrigin := Option RuleMeta

/-- A list with a single empty line counts as no list. -/
def mergeStringList (first second : List String) : List String :=
  if first = [""] then second
  else if second = [""] then first
  else (first ++ second).dedup.insertionSort (· ≤ ·)

/-- `MergeSortedLabelArrayListStrings` of the source. One round writes the arrays of the first list
below the head of the second, then those of the second below the new head of the first, and then
moves past both heads, which it writes only if they are equal. The fuel bounds the rounds. -/
def mergeSortedLabels : Nat → List String → List String → List String
  | 0, _, _ => []
  | _ + 1, [], second => second
  | _ + 1, first, [] => first
  | fuel + 1, first, head :: second =>
    let lesser := first.takeWhile (· < head)
    match first.dropWhile (· < head) with
    | [] => lesser ++ head :: second
    | headOfFirst :: first =>
      let lesserOfSecond := (head :: second).takeWhile (· < headOfFirst)
      match (head :: second).dropWhile (· < headOfFirst) with
      | [] => lesser ++ lesserOfSecond ++ headOfFirst :: first
      | headOfSecond :: second =>
        lesser ++ lesserOfSecond ++ (if headOfFirst = headOfSecond then [headOfSecond] else []) ++
          mergeSortedLabels fuel first second

namespace RuleOrigin

/-- Nothing for the empty handle. -/
def logString (origin : RuleOrigin) : Option (List String) :=
  origin.map RuleMeta.log

def merge (own other : RuleOrigin) : RuleOrigin :=
  if own = other then own
  else
    match own, other with
    | none, other => other
    | own, none => own
    | some own, some other =>
      some
        { labels := mergeSortedLabels (own.labels.length + other.labels.length + 1)
            own.labels other.labels
          log := mergeStringList own.log other.log }

end RuleOrigin

/-! ### Pass metadata -/

inductive Verdict
  | allow
  | deny
  | pass
  deriving DecidableEq, Repr

/-- With the highest and lowest precedence of its tier. -/
structure PassMeta where
  precedence : Nat
  tierMaxPrecedence : Nat
  tierMinPrecedence : Nat
  deriving DecidableEq, Repr

def PassMeta.isDifferentTierOrHigherPrecedence (pass : PassMeta) (precedence : Nat) : Bool :=
  let sameTier := decide (pass.tierMinPrecedence ≤ precedence) &&
    decide (precedence ≤ pass.tierMaxPrecedence)
  !sameTier || decide (pass.precedence > precedence)

/-- In ascending order of tiers, at most one for each tier. -/
abbrev PassMetas := List PassMeta

namespace PassMetas

def collectInto : PassMetas → PassMeta → PassMetas
  | [], pass => [pass]
  | entry :: rest, pass =>
    if entry.tierMinPrecedence > pass.tierMinPrecedence then pass :: entry :: rest
    else if entry.tierMinPrecedence = pass.tierMinPrecedence then
      (if pass.precedence > entry.precedence then pass else entry) :: rest
    else entry :: collectInto rest pass

/-- A higher pass of the same tier is kept. -/
def collect (metas : PassMetas) (pass : PassMeta) : PassMetas :=
  if pass.precedence = 0 ∨ pass.precedence < pass.tierMinPrecedence ∨
      pass.precedence > pass.tierMaxPrecedence then metas
  else collectInto metas pass

/-- The passes of the tier that do not exceed the precedence go. -/
def delete (old : PassMetas) (precedence : Nat) : PassMetas :=
  old.filter (·.isDifferentTierOrHigherPrecedence precedence)

/-- The higher pass of each tier is kept. -/
def merge (old : PassMetas) : PassMetas → PassMetas
  | [] => old
  | pass :: other =>
    let lower := old.takeWhile (·.tierMinPrecedence < pass.tierMinPrecedence)
    match old.dropWhile (·.tierMinPrecedence < pass.tierMinPrecedence) with
    | [] => lower ++ pass :: other
    | entry :: upper =>
      if entry.tierMinPrecedence > pass.tierMinPrecedence then
        lower ++ merge (pass :: entry :: upper) other
      else if entry.precedence < pass.precedence then lower ++ merge (pass :: upper) other
      else lower ++ merge (entry :: upper) other

/-- Also tells whether the result is another list than the old one. The source compares pointers: a
freshly merged list counts as another one even when it has the same elements. -/
def mergeClone (old other : Option PassMetas) : Option PassMetas × Bool :=
  match old, other with
  | none, other => (other, other.isSome)
  | some [], other => (other, true)
  | old, none => (old, false)
  | old, some [] => (old, false)
  | some old, some other =>
    if old = other then (some old, false) else (some (merge old other), true)

end PassMetas

/-! ### Entries of a map state -/

/-- `mapStateEntry` of the source. -/
structure StateEntry extends MapStateEntry where
  passes : Option PassMetas
  derivedFromRules : RuleOrigin
  deriving DecidableEq, Repr

namespace StateEntry

def passMetas (entry : StateEntry) : PassMetas := entry.passes.getD []

variable (entry other : StateEntry)

def equivalent : Bool :=
  decide (entry.toMapStateEntry = other.toMapStateEntry) && decide (entry.passes = other.passes) &&
    (decide (entry.derivedFromRules = other.derivedFromRules) ||
      decide (entry.derivedFromRules.logString = other.derivedFromRules.logString))

def equal : Bool :=
  entry.equivalent other && decide (entry.derivedFromRules = other.derivedFromRules)

def passEntry (priority tierPriority nextTierPriority : Nat) (derivedFrom : RuleOrigin) :
    StateEntry where
  toMapStateEntry := MapStateEntry.invalidEntry
  passes := some
    [{ precedence := Priority.toPassPrecedence priority
       tierMaxPrecedence := Priority.toDenyPrecedence tierPriority
       tierMinPrecedence := (Priority.toPassPrecedence nextTierPriority + 256) % 2 ^ 32 }]
  derivedFromRules := derivedFrom

def newMapStateEntry (priority tierPriority nextTierPriority : Nat) (derivedFrom : RuleOrigin)
    (proxyPort : Nat) (listenerPriority : Nat) (verdict : Verdict) (authReq : AuthRequirement) :
    StateEntry :=
  if verdict = .pass then passEntry priority tierPriority nextTierPriority derivedFrom
  else
    { toMapStateEntry := MapStateEntry.newMapStateEntry priority (verdict == .deny) proxyPort
        listenerPriority authReq
      passes := none
      derivedFromRules := derivedFrom }

/-- The precedence that passes lend to an entry, in 32 bits. -/
def inheritPassPrecedence (entry : StateEntry) (passes : PassMetas) : Nat :=
  passes.foldl (fun precedence pass =>
      ((precedence + (2 ^ 32 - pass.tierMinPrecedence)) % 2 ^ 32 + pass.precedence) % 2 ^ 32)
    entry.precedence

theorem equivalent_iff : entry.equivalent other = true ↔
      entry.toMapStateEntry = other.toMapStateEntry ∧ entry.passes = other.passes ∧
        entry.derivedFromRules.logString = other.derivedFromRules.logString := by
  simp only [equivalent, Bool.and_eq_true, Bool.or_eq_true, decide_eq_true_eq, and_assoc]
  refine and_congr_right fun _ => and_congr_right fun _ => ?_
  exact or_iff_right_of_imp fun same => congrArg RuleOrigin.logString same

theorem equal_iff : entry.equal other = true ↔ entry = other := by
  rw [equal, Bool.and_eq_true, decide_eq_true_eq, equivalent_iff]
  refine ⟨fun ⟨⟨verdict, passes, _⟩, origin⟩ => ?_, fun same => by subst same; simp⟩
  cases entry
  cases other
  subst verdict passes origin
  rfl

end StateEntry

end Constellation.Policy
