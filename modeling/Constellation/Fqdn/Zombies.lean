/-
This file models the zombies of an endpoint: the addresses that have expired from its DNS cache
and may still be in use by connections. A zombie is kept while its connection may be alive, or
that of another zombie with one of its names. What is over a limit is dead as well.
-/
import Constellation.Fqdn.Cache

namespace Constellation.Fqdn

open Lib

/-! ### Zombies -/

/-- An address that has expired or been evicted from a cache. -/
structure DNSZombieMapping (IP : Type) where
  names : List String
  ip : IP
  aliveAt : Time
  deletePendingAt : Time
  revisionAddedAt : Nat

/-- The revision is not copied. -/
def DNSZombieMapping.deepCopy {IP : Type} (zombie : DNSZombieMapping IP) : DNSZombieMapping IP :=
  { zombie with revisionAddedAt := 0 }

/-- The revision has 64 bits. -/
structure DNSZombieMappings (IP : Type) where
  deletes : GoMap IP (DNSZombieMapping IP)
  lastCTGCUpdate : Time
  nextCTGCUpdate : Time
  ctGCRevision : Nat
  max : Nat
  perHostLimit : Nat

def increment (revision : Nat) : Nat := (revision + 1) % 2 ^ 64

def unique (names : List String) : List String :=
  names.foldl (fun kept name => if name ∈ kept then kept else kept ++ [name]) []

abbrev AliveNames (IP : Type) := GoMap String (List (DNSZombieMapping IP))

variable {IP : Type} [DecidableEq IP]

namespace DNSZombieMappings

def newDNSZombieMappings (max perHostLimit : Nat) : DNSZombieMappings IP where
  deletes := ∅
  lastCTGCUpdate := zeroTime
  nextCTGCUpdate := zeroTime
  ctGCRevision := 0
  max := max
  perHostLimit := perHostLimit

/-! ### Changes -/

variable (zombies : DNSZombieMappings IP)

/-- Tells whether the address was there before. -/
def upsert (expiryTime : Time) (addr : IP) (qname : List String) : DNSZombieMappings IP × Bool :=
  match zombies.deletes.lookup addr with
  | none =>
    ({ zombies with
      deletes := zombies.deletes.insert addr
        { names := unique qname
          ip := addr
          aliveAt := zombies.lastCTGCUpdate
          deletePendingAt := expiryTime
          revisionAddedAt := zombies.ctGCRevision } }, false)
  | some zombie =>
    ({ zombies with
      deletes := zombies.deletes.insert addr { zombie with
          names := unique (zombie.names ++ qname)
          deletePendingAt :=
            if zombie.deletePendingAt < expiryTime then expiryTime else zombie.deletePendingAt
          aliveAt :=
            if zombie.aliveAt < zombies.lastCTGCUpdate then zombies.lastCTGCUpdate
            else zombie.aliveAt } }, true)

def markAlive (now : Time) (ip : IP) : DNSZombieMappings IP :=
  match zombies.deletes.lookup ip with
  | none => zombies
  | some zombie =>
    { zombies with deletes := zombies.deletes.insert ip { zombie with aliveAt := now } }

def setCTGCTime (ctGCStart estNext : Time) : DNSZombieMappings IP :=
  { zombies with
    lastCTGCUpdate := ctGCStart
    nextCTGCUpdate := estNext
    ctGCRevision := increment zombies.ctGCRevision }

/-! ### Collection -/

variable (grace : Int) (order : IterationOrder) (zombies : DNSZombieMappings IP)
  (zombie : DNSZombieMapping IP)

/-- A connection counts as alive until a grace period is over. -/
def isConnectionAlive : Bool :=
  if ¬zombie.deletePendingAt + grace < zombies.lastCTGCUpdate then true
  else if ¬zombie.aliveAt < zombies.lastCTGCUpdate then true
  else decide (zombies.ctGCRevision < (zombie.revisionAddedAt + 2) % 2 ^ 64)

variable (aliveNames : AliveNames IP)

def appendName (name : String) : AliveNames IP :=
  aliveNames.insert name ((aliveNames.lookup name).getD [] ++ [zombie])

/-- The names with a connection that is alive, each with all its zombies. -/
def getAliveNames : AliveNames IP :=
  let aliveNames := (order.visit 0 zombies.deletes.entries).foldl (fun aliveNames visit =>
      if zombies.isConnectionAlive grace visit.2 then
        visit.2.names.foldl (appendName visit.2) aliveNames
      else aliveNames) ∅
  (order.visit 1 zombies.deletes.entries).foldl (fun aliveNames visit =>
      if zombies.isConnectionAlive grace visit.2 then aliveNames
      else visit.2.names.foldl (fun aliveNames name =>
          if name ∈ aliveNames then appendName visit.2 aliveNames name else aliveNames) aliveNames)
    aliveNames

def checkNames (limit : Nat) (aliveNames : AliveNames IP) : List String → Bool → Bool × Bool
  | [], alive => (alive, false)
  | name :: rest, alive =>
    match aliveNames.lookup name with
    | none => checkNames limit aliveNames rest alive
    | some mappings =>
      if limit = 0 then (true, false)
      else if mappings.length > limit then (true, true)
      else checkNames limit aliveNames rest true

def isZombieAlive : Bool × Bool :=
  let alive := zombies.isConnectionAlive grace zombie
  if alive && zombies.perHostLimit = 0 then (true, false)
  else checkNames zombies.perHostLimit aliveNames zombie.names alive

/-- It was alive earlier, is to be deleted earlier or has fewer names. -/
def lessImportant (first second : DNSZombieMapping IP) : Bool :=
  if first.aliveAt < second.aliveAt then true
  else if second.aliveAt < first.aliveAt then false
  else if first.deletePendingAt < second.deletePendingAt then true
  else if second.deletePendingAt < first.deletePendingAt then false
  else decide (first.names.length < second.names.length)

def sortZombieMappingSlice (mappings : List (DNSZombieMapping IP)) : List (DNSZombieMapping IP) :=
  mappings.insertionSort fun first second => lessImportant second first = false

/-- Who is alive and who is dead; what is over the limit of a name is neither yet. -/
def collect : List (DNSZombieMapping IP) × List (DNSZombieMapping IP) :=
  (order.visit 2 zombies.deletes.entries).foldl (fun (alive, dead) visit =>
      match zombies.isZombieAlive grace visit.2 aliveNames with
      | (_, true) => (alive, dead)
      | (true, false) => (alive ++ [visit.2.deepCopy], dead)
      | (false, false) => (alive, dead ++ [visit.2]))
    ([], [])

/-- The least important zombies of the names that are over the limit, and the other zombies of
these. -/
def limitNames : List (DNSZombieMapping IP) × GoMap IP (DNSZombieMapping IP) :=
  (order.visit 3 aliveNames.entries).foldl (fun (dead, possibleAlive) visit =>
      if visit.2.length ≤ zombies.perHostLimit then (dead, possibleAlive)
      else
        let overLimit := visit.2.length - zombies.perHostLimit
        let sorted := sortZombieMappingSlice visit.2
        (dead ++ sorted.take overLimit, (sorted.drop overLimit).foldl
            (fun possibleAlive zombie => possibleAlive.insert zombie.ip zombie) possibleAlive))
    ([], ∅)

def limitHosts : List (DNSZombieMapping IP) × List (DNSZombieMapping IP) :=
  let aliveNames := zombies.getAliveNames grace order
  let (alive, dead) := zombies.collect grace order aliveNames
  if zombies.perHostLimit > 0 then
    let (evicted, possibleAlive) := zombies.limitNames order aliveNames
    let remaining := evicted.foldl
      (fun possibleAlive zombie => AList.erase zombie.ip possibleAlive) possibleAlive
    (alive ++ (order.visit 4 remaining.entries).map (·.2.deepCopy), dead ++ evicted)
  else (alive, dead)

def verdict : List (DNSZombieMapping IP) × List (DNSZombieMapping IP) :=
  let (alive, dead) := zombies.limitHosts grace order
  let overLimit := alive.length - zombies.max
  if overLimit > 0 then
    let sorted := sortZombieMappingSlice alive
    (sorted.drop overLimit, dead ++ sorted.take overLimit)
  else (alive, dead)

/-- Deletes the dead zombies. -/
def gc : DNSZombieMappings IP × List (DNSZombieMapping IP) × List (DNSZombieMapping IP) :=
  let (alive, dead) := zombies.verdict grace order
  ({ zombies with
    deletes := dead.foldl (fun deletes zombie => AList.erase zombie.ip deletes) zombies.deletes },
    alive, dead)

end DNSZombieMappings

/-! ### A cache with its zombies -/

/-- Collects the cache, and enters what was removed among the zombies. -/
def DNSCache.gc (order : IterationOrder) (c : DNSCache IP) (now : Time)
    (zombies : DNSZombieMappings IP) : DNSCache IP × DNSZombieMappings IP × GoSet String :=
  let (c, expiredNames, expiredEntries) := c.cleanupExpiredEntries order now
  let (c, overLimitNames, overLimitEntries) := c.cleanupOverLimitEntries order
  let zombies := [expiredEntries, overLimitEntries].foldl
    (fun zombies removed => (order.visit 5 removed.entries).foldl
      (fun zombies visit => visit.2.foldl (fun zombies entry =>
          let expireTime := if now < entry.expirationTime then entry.expirationTime else now
          (zombies.upsert expireTime visit.1 [entry.name]).1) zombies) zombies) zombies
  (c, zombies, overLimitNames.keys.foldl (fun names name => names.insert name ()) expiredNames)

structure Endpoint (IP : Type) where
  cache : DNSCache IP
  zombies : DNSZombieMappings IP

inductive Call (IP : Type)
  | update (lookupTime : Time) (name : String) (ips : List IP) (ttl : Int)
  | cacheGC (order : IterationOrder) (now : Time)
  | upsert (expiryTime : Time) (addr : IP) (qname : List String)
  | markAlive (now : Time) (ip : IP)
  | setCTGCTime (ctGCStart estNext : Time)
  | zombiesGC (order : IterationOrder)

def Endpoint.step (grace : Int) (endpoint : Endpoint IP) : Call IP → Endpoint IP
  | .update lookupTime name ips ttl =>
    { endpoint with cache := (endpoint.cache.update lookupTime name ips ttl).1 }
  | .cacheGC order now =>
    let (cache, zombies, _) := endpoint.cache.gc order now endpoint.zombies
    ⟨cache, zombies⟩
  | .upsert expiryTime addr qname =>
    { endpoint with zombies := (endpoint.zombies.upsert expiryTime addr qname).1 }
  | .markAlive now ip => { endpoint with zombies := endpoint.zombies.markAlive now ip }
  | .setCTGCTime ctGCStart estNext =>
    { endpoint with zombies := endpoint.zombies.setCTGCTime ctGCStart estNext }
  | .zombiesGC order => { endpoint with zombies := (endpoint.zombies.gc grace order).1 }

end Constellation.Fqdn
