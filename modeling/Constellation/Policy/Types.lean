/-
This file models the value types of the policy engine. The identity apart, a key is the string of
bits that the trie and the datapath's longest prefix match walk along, so every comparison between
keys is the prefix order on those bit strings, `LPMKey.path`. A key with a malformed port prefix
cannot be built.

Priorities (lower values first) and precedences (higher values first) are numbers; precedences
stay below `2 ^ 32`. The low byte is `precedence % 256` and the priority level `precedence / 256`.
-/

import Constellation.Lib.GoMap

namespace Constellation.Policy

open Lib BitVec

/-! ### Keys -/

inductive TrafficDirection
  | ingress
  | egress
  deriving DecidableEq, Repr

def TrafficDirection.bit : TrafficDirection → Bool
  | .ingress => false
  | .egress => true

theorem TrafficDirection.bit_injective : Function.Injective TrafficDirection.bit := by
  intro first second same
  cases first <;> cases second <;> first | rfl | cases same

/-- 24 bits in one of the three scopes that are in use, global, local and remote node. -/
abbrev NumericIdentity := Fin (3 * 2 ^ 24)

instance neZero_numericIdentity : NeZero (3 * 2 ^ 24) := ⟨by decide⟩

/-- The mask that keeps the given number of high bits. -/
def portMask (prefixLen : Nat) : BitVec 16 :=
  0xffff#16 <<< (16 - prefixLen)

/-- The part of a key that is indexed by prefix. -/
structure LPMKey where
  trafficDirection : TrafficDirection
  portPrefixLen : Nat
  nexthdr : BitVec 8
  destPort : BitVec 16
  portPrefixLen_le : portPrefixLen ≤ 16
  destPort_masked : destPort &&& portMask portPrefixLen = destPort
  portPrefixLen_wildcardProto : nexthdr = 0#8 → portPrefixLen = 0
  portPrefixLen_wildcardPort : destPort = 0#16 → portPrefixLen = 0
  deriving DecidableEq, Repr

structure Key where
  lpmKey : LPMKey
  identity : NumericIdentity
  deriving DecidableEq, Repr

/-- Matches all protocols and ports of the unknown identity. -/
def keyForDirection (direction : TrafficDirection) : Key where
  lpmKey :=
    { trafficDirection := direction
      portPrefixLen := 0
      nexthdr := 0#8
      destPort := 0#16
      portPrefixLen_le := by decide
      destPort_masked := by decide
      portPrefixLen_wildcardProto := fun _ => rfl
      portPrefixLen_wildcardPort := fun _ => rfl }
  identity := 0

def Key.withIdentity (key : Key) (nid : NumericIdentity) : Key :=
  { key with identity := nid }

/-- All ports of the protocol if the port is zero. A port can only be given with a protocol. -/
def Key.withPortProto (key : Key) (proto : BitVec 8) (port : BitVec 16)
    (specified : proto = 0#8 → port = 0#16) : Key :=
  { key with
    lpmKey :=
      { trafficDirection := key.lpmKey.trafficDirection
        portPrefixLen := if port = 0#16 then 0 else 16
        nexthdr := proto
        destPort := port
        portPrefixLen_le := by split <;> decide
        destPort_masked := by
          split
          case isTrue wildcard => rw [wildcard]; rfl
          · exact and_allOnes
        portPrefixLen_wildcardProto := fun wildcard => if_pos (specified wildcard)
        portPrefixLen_wildcardPort := fun wildcard => if_pos wildcard } }

/-- A key of a TCP port, or of all ports for port zero. -/
def tcpKey (port : BitVec 16) (id : NumericIdentity) : Key :=
  ((keyForDirection .ingress).withPortProto 6#8 port
    fun wildcard => absurd wildcard (by decide)).withIdentity id

namespace LPMKey

/-- The direction is always specified; the protocol counts when it is, and then the port prefix
does. -/
def prefixLength (key : LPMKey) : Nat :=
  if key.nexthdr = 0#8 then 1 else 9 + key.portPrefixLen

/-- Counted from the direction bit. Past the last bit the source shifts the port by a negative
number that wraps around, and nothing is left of it. -/
def bitValueAt (key : LPMKey) (position : Nat) : Bool :=
  if position = 0 then key.trafficDirection.bit
  else if position < 9 then key.nexthdr.getLsbD (8 - position)
  else if position < 25 then key.destPort.getLsbD (24 - position)
  else false

/-- The indexed bits of a key, in the order the trie reads them. -/
def path (key : LPMKey) : List Bool :=
  (List.range key.prefixLength).map key.bitValueAt

@[simp]
theorem path_length (key : LPMKey) : key.path.length = key.prefixLength := by
  rw [path, List.length_map, List.length_range]

variable {position : Nat}

section

variable (key : LPMKey)
include key

theorem path_getElem? (inside : position < key.prefixLength) :
    key.path[position]? = some (key.bitValueAt position) := by
  rw [path, List.getElem?_map, List.getElem?_range inside, Option.map_some]

theorem prefixLength_pos : 0 < key.prefixLength := by
  unfold prefixLength
  split <;> omega

theorem prefixLength_le : key.prefixLength ≤ 25 := by
  have bound := key.portPrefixLen_le
  unfold prefixLength
  split <;> omega

/-- The bits of the port below its prefix are zero. -/
theorem destPort_getLsbD_of_lt (below : position < 16 - key.portPrefixLen) :
    key.destPort.getLsbD position = false := by
  rw [← key.destPort_masked, getLsbD_and, portMask, getLsbD_shiftLeft]
  simp [below]

theorem bitValueAt_nexthdr (small : position < 8) :
    key.bitValueAt (8 - position) = key.nexthdr.getLsbD position := by
  rw [bitValueAt, if_neg (by omega), if_pos (by omega)]
  congr 1
  omega

theorem bitValueAt_destPort (small : position < 16) :
    key.bitValueAt (24 - position) = key.destPort.getLsbD position := by
  rw [bitValueAt, if_neg (by omega), if_neg (by omega), if_pos (by omega)]
  congr 1
  omega

theorem destPort_of_nexthdr_zero (wildcard : key.nexthdr = 0#8) : key.destPort = 0#16 := by
  refine eq_of_getLsbD_eq fun position small => ?_
  rw [key.destPort_getLsbD_of_lt (by rw [key.portPrefixLen_wildcardProto wildcard]; omega),
    getLsbD_zero]

end

/-- A key is determined by the bits the trie indexes. -/
theorem path_injective : Function.Injective path := by
  intro first second same
  have lengths : first.prefixLength = second.prefixLength := by
    rw [← path_length, same, path_length]
  have bits : ∀ position < first.prefixLength,
      first.bitValueAt position = second.bitValueAt position := by
    intro position inside
    have read := first.path_getElem? inside
    rw [same, second.path_getElem? (lengths ▸ inside)] at read
    exact (Option.some.inj read).symm
  have direction : first.trafficDirection = second.trafficDirection :=
    TrafficDirection.bit_injective (bits 0 first.prefixLength_pos)
  have fields : first.portPrefixLen = second.portPrefixLen ∧ first.nexthdr = second.nexthdr ∧
      first.destPort = second.destPort := by
    unfold prefixLength at lengths bits
    by_cases wildcard : first.nexthdr = 0#8
    · have other : second.nexthdr = 0#8 := by
        by_contra specified
        rw [if_pos wildcard, if_neg specified] at lengths
        omega
      rw [first.portPrefixLen_wildcardProto wildcard, second.portPrefixLen_wildcardProto other,
        first.destPort_of_nexthdr_zero wildcard, second.destPort_of_nexthdr_zero other, wildcard,
        other]
      exact ⟨rfl, rfl, rfl⟩
    · have other : second.nexthdr ≠ 0#8 := by
        intro unspecified
        rw [if_neg wildcard, if_pos unspecified] at lengths
        omega
      rw [if_neg wildcard, if_neg other] at lengths
      rw [if_neg wildcard] at bits
      refine ⟨by omega, eq_of_getLsbD_eq fun position small => ?_,
        eq_of_getLsbD_eq fun position small => ?_⟩
      · rw [← first.bitValueAt_nexthdr small, ← second.bitValueAt_nexthdr small]
        exact bits _ (by omega)
      · by_cases below : position < 16 - first.portPrefixLen
        · rw [first.destPort_getLsbD_of_lt below, second.destPort_getLsbD_of_lt (by omega)]
        · rw [← first.bitValueAt_destPort small, ← second.bitValueAt_destPort small]
          exact bits _ (by omega)
  obtain ⟨portPrefixLen, nexthdr, destPort⟩ := fields
  cases first
  cases second
  subst direction portPrefixLen nexthdr destPort
  rfl

/-- The first key stands at or above the second in the trie. -/
def IsAncestor (ancestor key : LPMKey) : Prop :=
  ancestor.path <+: key.path
  deriving Decidable

theorem IsAncestor.refl (key : LPMKey) : key.IsAncestor key :=
  List.prefix_rfl

theorem IsAncestor.trans {first second third : LPMKey} (upper : first.IsAncestor second)
    (lower : second.IsAncestor third) : first.IsAncestor third :=
  List.IsPrefix.trans upper lower

theorem IsAncestor.antisymm {first second : LPMKey} (upper : first.IsAncestor second)
    (lower : second.IsAncestor first) : first = second :=
  path_injective (List.IsPrefix.eq_of_length_le upper (List.IsPrefix.length_le lower))

end LPMKey

/-! ### Priorities and precedences -/

def maxListenerPriority : Nat := 126

def lowestPriority : Nat := 2 ^ 24 - 1

def maxPrecedence : Nat := 2 ^ 32 - 1

/-- The largest precedence of all. -/
def maxDenyPrecedence : Nat := maxPrecedence

variable (priority : Nat)

/-- The low byte is empty. -/
def Priority.toBasePrecedence : Nat :=
  (lowestPriority - min priority lowestPriority) * 256

def Priority.toPassPrecedence : Nat :=
  Priority.toBasePrecedence priority

def Priority.toDenyPrecedence : Nat :=
  Priority.toBasePrecedence priority + 255

namespace Precedence

variable (precedence : Nat)

def isDeny : Bool :=
  precedence % 256 == 255

def isPass : Bool :=
  precedence % 256 == 0

def isAllow : Bool :=
  !isDeny precedence && !isPass precedence

/-- Listener priorities run from 254 down to 129, and 2 stands for no listener priority. -/
def withListenerPriority (priority : Nat) : Nat :=
  precedence / 256 * 256 + 1 +
    if priority > 0 then 255 - 1 - min priority maxListenerPriority else 1

def allowPrecedence : Nat :=
  precedence / 256 * 256 + 1

/-- On one level, and both or none a deny: only the listener priority may differ. -/
def proxyPortPrecedenceMayDiffer (precedence other : Nat) : Bool :=
  precedence / 256 == other / 256 && isDeny precedence == isDeny other

theorem isDeny_iff : isDeny precedence = true ↔ precedence % 256 = 255 :=
  beq_iff_eq

end Precedence

/-! ### Authentication requirements -/

/-- The source keeps both in one byte, the flag in the highest bit. -/
structure AuthRequirement where
  isExplicit : Bool
  authType : Nat
  deriving DecidableEq, Repr

def noAuthRequirement : AuthRequirement := ⟨false, 0⟩

def AuthRequirement.asDerived (requirement : AuthRequirement) : AuthRequirement :=
  { requirement with isExplicit := false }

/-! ### Entries -/

structure MapStateEntry where
  precedence : Nat
  proxyPort : Nat
  invalid : Bool
  authRequirement : AuthRequirement
  cookie : Nat
  deriving DecidableEq, Repr

namespace MapStateEntry

variable (entry : MapStateEntry)

def isValid : Bool := !entry.invalid

def isDeny : Bool := Precedence.isDeny entry.precedence

def isAllow : Bool := Precedence.isAllow entry.precedence

def isRedirectEntry : Bool := entry.proxyPort != 0

def invalidate : MapStateEntry := { entry with invalid := true }

def denyEntry : MapStateEntry := ⟨maxDenyPrecedence, 0, false, noAuthRequirement, 0⟩

def invalidEntry : MapStateEntry := ⟨maxDenyPrecedence, 0, true, noAuthRequirement, 0⟩

/-- The listener priority of an entry matters for redirects only. -/
def withListenerPriority (priority : Nat) : MapStateEntry :=
  if entry.proxyPort ≠ 0 then
    { entry with precedence := Precedence.withListenerPriority entry.precedence priority }
  else entry

/-- A deny entry drops the proxy port, the listener priority and the authentication requirement it
is given. -/
def newMapStateEntry (priority : Nat) (deny : Bool) (proxyPort : Nat)
    (listenerPriority : Nat) (authReq : AuthRequirement) : MapStateEntry :=
  if deny then
    withListenerPriority
      ⟨Priority.toBasePrecedence priority + 255, 0, false, noAuthRequirement, 0⟩ 0
  else
    withListenerPriority
      ⟨Priority.toBasePrecedence priority + 1, proxyPort, false, authReq, 0⟩ listenerPriority

/-- An explicit requirement wins, and the higher type wins among equals. -/
def mergeAuthRequirement (own added : AuthRequirement) : AuthRequirement :=
  if added.isExplicit = own.isExplicit then
    if added.authType > own.authType then added else own
  else if added.isExplicit then added
  else own

def merge (own added : MapStateEntry) : MapStateEntry :=
  if own.isAllow && added.isAllow then
    let redirected :=
      if added.isRedirectEntry && (decide (added.precedence > own.precedence) ||
            (added.precedence == own.precedence && decide (added.proxyPort < own.proxyPort))) then
        { own with proxyPort := added.proxyPort, precedence := added.precedence }
      else own
    { redirected with
      authRequirement := mergeAuthRequirement own.authRequirement added.authRequirement }
  else own

end MapStateEntry

end Constellation.Policy
