/-
This file models the addresses of the load balancer. The address type of the standard library and
its text are parameters. Two addresses with the text by which Maglev sorts and hashes a backend
are the same address.
-/
import Mathlib

namespace Constellation.Loadbalancer

open List

inductive L4Type where
  | none
  | any
  | tcp
  | udp
  | sctp
  deriving DecidableEq, Repr

def L4Type.text : L4Type → String
  | .none => "NONE"
  | .any => "ANY"
  | .tcp => "TCP"
  | .udp => "UDP"
  | .sctp => "SCTP"

/-- Services from outside the node and from inside it. -/
inductive Scope where
  | external
  | internal
  deriving DecidableEq, Repr

/-- `IP` is the address type of the standard library; cluster `0` is the local cluster. -/
structure L3n4Addr (IP : Type) where
  addr : IP
  clusterID : Nat
  port : Nat
  protocol : L4Type
  scope : Scope
  deriving DecidableEq, Repr

structure AddrFormat (IP : Type) where
  string : IP → String
  is6 : IP → Bool

/-- Different addresses have different texts, and no text holds one of the characters that the load
balancer puts around it. -/
structure AddrFormat.Plain {IP : Type} (format : AddrFormat IP) : Prop where
  injective : Function.Injective format.string
  noBracket : ∀ ip, '[' ∉ (format.string ip).toList
  noCluster : ∀ ip, '@' ∉ (format.string ip).toList

section
variable {IP : Type} (format : AddrFormat IP)

def addrClusterString (ip : IP) (clusterID : Nat) : String :=
  if clusterID = 0 then format.string ip
  else format.string ip ++ "@" ++ toString clusterID

/-- The text by which Maglev sorts and hashes a backend (`BackendInfo.setHashString`). -/
def hashString (a : L3n4Addr IP) : String :=
  "[" ++ (if format.is6 a.addr then "[" ++ addrClusterString format a.addr a.clusterID ++ "]:"
    else addrClusterString format a.addr a.clusterID ++ ":")
    ++ toString a.port ++ "/" ++ a.protocol.text
    ++ (if a.scope = .internal then "/i" else "") ++ ",State:active]"

/-! ### The text determines the address -/

theorem split_unique {α : Type} {separator : α} {front front' back back' : List α}
    (absent : separator ∉ back) (absent' : separator ∉ back')
    (same : front ++ separator :: back = front' ++ separator :: back') :
    front = front' ∧ back = back' := by
  rw [append_eq_append_iff] at same
  rcases same with ⟨middle, rfl, split⟩ | ⟨middle, rfl, split⟩
  · cases middle with
    | nil =>
      simp only [nil_append, List.cons.injEq, true_and] at split
      exact ⟨by rw [append_nil], split⟩
    | cons head rest =>
      simp only [cons_append, List.cons.injEq] at split
      exact absurd (by rw [split.2]; simp) absent
  · cases middle with
    | nil =>
      simp only [nil_append, List.cons.injEq, true_and] at split
      exact ⟨by rw [append_nil], split.symm⟩
    | cons head rest =>
      simp only [cons_append, List.cons.injEq] at split
      exact absurd (by rw [split.2]; simp) absent'

theorem notMem_decimal (n : Nat) {character : Char} (other : character.isDigit = false) :
    character ∉ (toString n).toList := by
  intro member
  rw [Nat.toString_eq_repr, Nat.toList_repr] at member
  rw [Nat.isDigit_of_mem_toDigits (by decide) (by decide) member] at other
  cases other

theorem decimal_injective {n k : Nat} (same : (toString n).toList = (toString k).toList) :
    n = k := by
  rw [Nat.toString_eq_repr, Nat.toString_eq_repr, Nat.toList_repr, Nat.toList_repr] at same
  calc n = Nat.ofDigitChars 10 (Nat.toDigits 10 n) 0 :=
        (Nat.ofDigitChars_toDigits (by decide) (by decide)).symm
    _ = Nat.ofDigitChars 10 (Nat.toDigits 10 k) 0 := by rw [same]
    _ = k := Nat.ofDigitChars_toDigits (by decide) (by decide)

theorem L4Type.slash_notMem_text (protocol : L4Type) : '/' ∉ protocol.text.toList := by
  cases protocol <;> decide

theorem L4Type.text_injective {protocol other : L4Type}
    (same : protocol.text.toList = other.text.toList) : protocol = other := by
  revert same
  cases protocol <;> cases other <;> decide

theorem L4Type.text_ne_scope (protocol : L4Type) : protocol.text.toList ≠ ['i'] := by
  cases protocol <;> decide

variable {format} {a b : L3n4Addr IP}

theorem bracket_notMem_addrClusterString (plain : format.Plain) (ip : IP) (clusterID : Nat) :
    '[' ∉ (addrClusterString format ip clusterID).toList := by
  unfold addrClusterString
  split
  case isTrue isLocal => exact plain.noBracket ip
  case isFalse remote =>
    simp only [String.toList_append, mem_append, not_or]
    exact ⟨⟨plain.noBracket ip, by decide⟩, notMem_decimal clusterID (by decide)⟩

theorem addrClusterString_injective (plain : format.Plain) {ip ip' : IP}
    {clusterID clusterID' : Nat}
    (same : (addrClusterString format ip clusterID).toList
      = (addrClusterString format ip' clusterID').toList) :
    ip = ip' ∧ clusterID = clusterID' := by
  have marked : ∀ (ip : IP) (n : Nat), (format.string ip ++ "@" ++ toString n).toList
      = (format.string ip).toList ++ '@' :: (toString n).toList := by
    intro ip n
    simp [String.toList_append]
  unfold addrClusterString at same
  split at same
  case isTrue isLocal =>
    split at same
    case isTrue isLocal' =>
      exact ⟨plain.injective (String.toList_inj.mp same), isLocal.trans isLocal'.symm⟩
    case isFalse remote' =>
      refine absurd ?_ (plain.noCluster ip)
      rw [same, marked]
      simp
  case isFalse remote =>
    split at same
    case isTrue isLocal' =>
      refine absurd ?_ (plain.noCluster ip')
      rw [← same, marked]
      simp
    case isFalse remote' =>
      rw [marked, marked] at same
      obtain ⟨texts, clusters⟩ := split_unique (notMem_decimal clusterID (by decide))
        (notMem_decimal clusterID' (by decide)) same
      exact ⟨plain.injective (String.toList_inj.mp texts), decimal_injective clusters⟩

/-- The IP address and its cluster, between brackets for IPv6. -/
def located (format : AddrFormat IP) (a : L3n4Addr IP) : List Char :=
  if format.is6 a.addr then '[' :: (addrClusterString format a.addr a.clusterID).toList ++ [']']
  else (addrClusterString format a.addr a.clusterID).toList

theorem located_injective (plain : format.Plain) (same : located format a = located format b) :
    a.addr = b.addr ∧ a.clusterID = b.clusterID := by
  unfold located at same
  split at same
  case isTrue six =>
    split at same
    case isTrue six' =>
      simp only [cons_append, List.cons.injEq, true_and, append_cancel_right_eq] at same
      exact addrClusterString_injective plain same
    case isFalse four' =>
      refine absurd ?_ (bracket_notMem_addrClusterString plain b.addr b.clusterID)
      rw [← same]
      exact .head _
  case isFalse four =>
    split at same
    case isTrue six' =>
      refine absurd ?_ (bracket_notMem_addrClusterString plain a.addr a.clusterID)
      rw [same]
      exact .head _
    case isFalse four' => exact addrClusterString_injective plain same

theorem hashString_toList (format : AddrFormat IP) (a : L3n4Addr IP) :
    (hashString format a).toList = '[' :: ((located format a ++ ':' :: (toString a.port).toList)
        ++ '/' :: (a.protocol.text.toList
          ++ if a.scope = .internal then ['/', 'i'] else [])) ++ ",State:active]".toList := by
  unfold hashString located
  cases format.is6 a.addr <;> cases a.scope <;> simp [String.toList_append]

/-- The text without its fixed beginning and end determines the port, the protocol and the
scope. -/
theorem parts_injective {front front' : List Char}
    (same : (front ++ ':' :: (toString a.port).toList) ++ '/' :: (a.protocol.text.toList
          ++ if a.scope = .internal then ['/', 'i'] else [])
      = (front' ++ ':' :: (toString b.port).toList) ++ '/' :: (b.protocol.text.toList
          ++ if b.scope = .internal then ['/', 'i'] else [])) :
    front = front' ∧ a.port = b.port ∧ a.protocol = b.protocol ∧ a.scope = b.scope := by
  -- Once the scopes agree, the last slash left ends the port and the last colon begins it.
  have ports : (front ++ ':' :: (toString a.port).toList) ++ '/' :: a.protocol.text.toList
        = (front' ++ ':' :: (toString b.port).toList) ++ '/' :: b.protocol.text.toList →
      front = front' ∧ a.port = b.port ∧ a.protocol = b.protocol := by
    intro protocols
    obtain ⟨before, named⟩ := split_unique a.protocol.slash_notMem_text
      b.protocol.slash_notMem_text protocols
    obtain ⟨fronts, numbers⟩ := split_unique (notMem_decimal a.port (by decide))
      (notMem_decimal b.port (by decide)) before
    exact ⟨fronts, decimal_injective numbers, L4Type.text_injective named⟩
  have regroup : ∀ (start protocol : List Char),
      start ++ '/' :: (protocol ++ ['/', 'i']) = (start ++ '/' :: protocol) ++ '/' :: ['i'] := by
    intro start protocol
    simp only [append_assoc, cons_append]
  have slashI : '/' ∉ ['i'] := by decide
  cases scopeA : a.scope with
  | external =>
    cases scopeB : b.scope with
    | external =>
      simp only [scopeA, scopeB, reduceCtorEq, if_false, append_nil] at same
      obtain ⟨fronts, numbers, named⟩ := ports same
      exact ⟨fronts, numbers, named, rfl⟩
    | internal =>
      simp only [scopeA, scopeB, reduceCtorEq, if_false, if_true, append_nil, regroup] at same
      exact absurd (split_unique a.protocol.slash_notMem_text slashI same).2
        a.protocol.text_ne_scope
  | internal =>
    cases scopeB : b.scope with
    | external =>
      simp only [scopeA, scopeB, reduceCtorEq, if_false, if_true, append_nil, regroup] at same
      exact absurd (split_unique slashI b.protocol.slash_notMem_text same).2.symm
        b.protocol.text_ne_scope
    | internal =>
      simp only [scopeA, scopeB, if_true, regroup] at same
      obtain ⟨fronts, numbers, named⟩ := ports (split_unique slashI slashI same).1
      exact ⟨fronts, numbers, named, rfl⟩

theorem hashString_injective (plain : format.Plain) :
    Function.Injective (hashString format) := by
  intro a b same
  have lists : (hashString format a).toList = (hashString format b).toList := by rw [same]
  rw [hashString_toList, hashString_toList] at lists
  have inner := List.cons.inj (append_cancel_right lists)
  obtain ⟨fronts, numbers, named, scopes⟩ := parts_injective inner.2
  obtain ⟨addresses, clusters⟩ := located_injective plain fronts
  cases a
  cases b
  simp only at numbers named scopes addresses clusters
  rw [numbers, named, scopes, addresses, clusters]

end

end Constellation.Loadbalancer
