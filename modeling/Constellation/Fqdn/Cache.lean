/-
This file models the DNS cache of an endpoint: the addresses that names have been resolved to, the
index by second of the names that expire, and the collection of what has expired or is over the
limit of a name. The orders of loops over maps and of equal elements of a sort are left open.
-/
import Constellation.Lib.Index

namespace Constellation.Fqdn

open Lib

/-! ### Times -/

/-- Nanoseconds since the Unix epoch. -/
abbrev Time := Int

def second : Int := 1000000000

def zeroTime : Time := -62135596800 * second

def unix (time : Int) : Int := time / second

def truncate (time : Int) : Int := time / second * second

/-- A duration, in 64 bits. -/
def seconds (count : Int) : Int := (count * second).bmod (2 ^ 64)

/-! ### The cache -/

structure CacheEntry (IP : Type) where
  name : String
  lookupTime : Time
  expirationTime : Time
  ttl : Int
  ips : List IP

def CacheEntry.isExpiredBy {IP : Type} (entry : CacheEntry IP) (pointInTime : Time) : Bool :=
  decide (entry.expirationTime < pointInTime)

/-- The names that expire are not tracked if `cleanup` is nil. -/
structure DNSCache (IP : Type) where
  forward : GoMap String (GoMap IP (CacheEntry IP))
  reverse : GoMap IP (GoMap String (CacheEntry IP))
  lastCleanup : Time
  cleanup : Option (GoMap Int (List String))
  overLimit : GoSet String
  perHostLimit : Nat
  minTTL : Int

structure UpdateStatus where
  updated : Bool
  upserted : Bool
  deriving DecidableEq, Repr

abbrev Removed (IP : Type) := GoMap IP (List (CacheEntry IP))

variable {IP : Type} [DecidableEq IP]

def Removed.append (removed : Removed IP) (ip : IP) (entry : CacheEntry IP) : Removed IP :=
  removed.insert ip ((removed.lookup ip).getD [] ++ [entry])

namespace DNSCache

def newDNSCacheWithLimit (minTTL : Int) (limit : Nat) : DNSCache IP where
  forward := ∅
  reverse := ∅
  lastCleanup := zeroTime
  cleanup := some ∅
  overLimit := ∅
  perHostLimit := limit
  minTTL := minTTL

/-! ### Updates -/

variable (c : DNSCache IP)

def upsertReverse (ip : IP) (entry : CacheEntry IP) : DNSCache IP :=
  { c with
    reverse := c.reverse.insert ip (((c.reverse.lookup ip).getD ∅).insert entry.name entry) }

variable (entry : CacheEntry IP)

def addNameToCleanup : DNSCache IP :=
  match c.cleanup with
  | none => c
  | some cleanup =>
    let expiration := unix entry.expirationTime
    { c with
      lastCleanup :=
        if c.lastCleanup = zeroTime ∨ entry.expirationTime < c.lastCleanup then entry.expirationTime
        else c.lastCleanup
      cleanup :=
        some (cleanup.insert expiration ((cleanup.lookup expiration).getD [] ++ [entry.name])) }

/-- An address keeps its entry if that expires later. -/
def updateIP (result : DNSCache IP × UpdateStatus) (ip : IP) : DNSCache IP × UpdateStatus :=
  let (c, status) := result
  let entries := (c.forward.lookup entry.name).getD ∅
  match entries.lookup ip with
  | some old =>
    if old.isExpiredBy entry.expirationTime then
      ((({ c with forward := c.forward.insert entry.name (entries.insert ip entry) }).upsertReverse
        ip entry).addNameToCleanup entry, { status with updated := true })
    else (c, status)
  | none =>
    ((({ c with forward := c.forward.insert entry.name (entries.insert ip entry) }).upsertReverse
      ip entry).addNameToCleanup entry, { updated := true, upserted := true })

def updateWithEntryIPs : DNSCache IP × UpdateStatus :=
  entry.ips.foldl (updateIP entry) (c, ⟨false, false⟩)

def updateWithEntry : DNSCache IP × UpdateStatus :=
  let c := if entry.name ∈ c.forward then c
    else { c with forward := c.forward.insert entry.name ∅ }
  let (c, status) := c.updateWithEntryIPs entry
  let count := ((c.forward.lookup entry.name).getD ∅).entries.length
  if c.perHostLimit > 0 ∧ count > c.perHostLimit then
    ({ c with overLimit := c.overLimit.insert entry.name () }, status)
  else (c, status)

def update (lookupTime : Time) (name : String) (ips : List IP) (ttl : Int) :
    DNSCache IP × UpdateStatus :=
  let ttl := if c.minTTL > ttl then c.minTTL else ttl
  c.updateWithEntry
    { name := name
      lookupTime := lookupTime
      expirationTime := lookupTime + seconds ttl
      ttl := ttl
      ips := ips }

/-! ### Removal -/

/-- A name without addresses is removed as well. -/
def removeForward (ip : IP) (entry : CacheEntry IP) : DNSCache IP :=
  match c.forward.lookup entry.name with
  | none => c
  | some entries =>
    let entries := entries.erase ip
    if entries.entries.isEmpty then { c with forward := c.forward.erase entry.name }
    else { c with forward := c.forward.insert entry.name entries }

def removeReverse (ip : IP) (entry : CacheEntry IP) : DNSCache IP :=
  match c.reverse.lookup ip with
  | none => c
  | some entries =>
    let entries := entries.erase entry.name
    if entries.entries.isEmpty then { c with reverse := c.reverse.erase ip }
    else { c with reverse := c.reverse.insert ip entries }

def remove (ip : IP) (entry : CacheEntry IP) : DNSCache IP :=
  (c.removeForward ip entry).removeReverse ip entry

def deleteIP (name : String) (ip : IP) : DNSCache IP :=
  match c.forward.lookup name with
  | none => c
  | some entries => { c with forward := c.forward.insert name (entries.erase ip) }

variable (order : IterationOrder)

def removeExpired (c : DNSCache IP) (name : String)
    (entries : GoMap IP (CacheEntry IP)) (now expireLookupsBefore : Time) :
    DNSCache IP × GoMap IP (CacheEntry IP) :=
  (order.visit 0 entries.entries).foldl (fun (c, removed) visit =>
      if visit.2.isExpiredBy now || decide (visit.2.lookupTime < expireLookupsBefore) then
        ((c.deleteIP name visit.1).remove visit.1 visit.2, removed.insert visit.1 visit.2)
      else (c, removed))
    (c, ∅)

/-- Collects the names under the seconds from the last cleanup on, for a number of rounds. -/
def sweep (expires : Time) : Nat → DNSCache IP → GoSet String → DNSCache IP × GoSet String
  | 0, c, names => (c, names)
  | rounds + 1, c, names =>
    if c.lastCleanup < expires then
      let key := unix c.lastCleanup
      let later := truncate (c.lastCleanup + second)
      match c.cleanup.bind (·.lookup key) with
      | none => sweep expires rounds { c with lastCleanup := later } names
      | some expired =>
        sweep expires rounds { c with
            lastCleanup := later
            cleanup := c.cleanup.map (·.erase key) }
          (expired.foldl (fun names name => names.insert name ()) names)
    else (c, names)

/-- The number of seconds that a sweep passes, and one more. -/
def sweepRounds (expires : Time) : Nat :=
  ((expires - c.lastCleanup) / second).toNat + 2

def cleanupExpiredEntries (c : DNSCache IP) (expires : Time) :
    DNSCache IP × GoSet String × Removed IP :=
  if c.lastCleanup = zeroTime then (c, ∅, ∅)
  else
    let (c, toCleanNames) := c.sweep expires (c.sweepRounds expires) ∅
    (order.visit 1 toCleanNames.keys).foldl (fun (c, affectedNames, removed) name =>
        match c.forward.lookup name with
        | none => (c, affectedNames, removed)
        | some entries =>
          let (c, expired) := c.removeExpired order name entries c.lastCleanup zeroTime
          (c, affectedNames.insert name (), (order.visit 2 expired.entries).foldl
              (fun removed visit => removed.append visit.1 visit.2) removed))
      (c, ∅, ∅)

def sortedEntries (entries : GoMap IP (CacheEntry IP)) : List (IP × CacheEntry IP) :=
  ((order.visit 3 entries.entries).map fun visit => (visit.1, visit.2)).insertionSort
    fun first second => first.2.expirationTime ≤ second.2.expirationTime

def cleanupOverLimitEntries (c : DNSCache IP) : DNSCache IP × GoSet String × Removed IP :=
  if c.perHostLimit = 0 then (c, ∅, ∅)
  else
    let (later, affectedNames, removed) := (order.visit 4 c.overLimit.keys).foldl
      (fun (c, affectedNames, removed) dnsName =>
        match c.forward.lookup dnsName with
        | none => (c, affectedNames, removed)
        | some entries =>
          if entries.entries.length ≤ c.perHostLimit then (c, affectedNames, removed)
          else
            let excess :=
              (sortedEntries order entries).take (entries.entries.length - c.perHostLimit)
            let (c, removed) := excess.foldl (fun (c, removed) key =>
                ((c.deleteIP dnsName key.1).remove key.1 key.2, Removed.append removed key.1 key.2))
              (c, removed)
            (c, affectedNames.insert dnsName (), removed))
      (c, (∅ : GoSet String), (∅ : Removed IP))
    ({ later with overLimit := ∅ }, affectedNames, removed)

end DNSCache

end Constellation.Fqdn
