/-
This file proves that an endpoint does not forget addresses and names early. A pair that has been
in the cache is in the cache or among the zombies until a collection returns its address as dead;
and without limits that happens only when its zombie, and every zombie with one of its names, is
past its grace period, was not alive at the last collection of connections, and has been there for
two of them. The 64-bit revisions that count these must not have wrapped around.
-/
import Constellation.Fqdn.Account
import Constellation.Lib.Run

namespace Constellation.Fqdn

open Lib List AList DNSZombieMappings IterationOrder DNSCache GoMap

variable {IP : Type} [DecidableEq IP] {ip : IP}

/-! ### Names of zombies -/

theorem mem_unique (names : List String) (name : String) : name ∈ unique names ↔ name ∈ names := by
  have general : ∀ kept : List String, name ∈ names.foldl
      (fun kept name => if name ∈ kept then kept else kept ++ [name]) kept ↔
        name ∈ kept ∨ name ∈ names := by
    induction names with
    | nil => exact fun kept => (or_iff_left not_mem_nil).symm
    | cons first rest inductionHypothesis =>
      intro kept
      rw [foldl_cons, inductionHypothesis, mem_cons]
      split
      case isTrue known =>
        refine ⟨Or.imp_right .inr, fun member => ?_⟩
        rcases member with before | rfl | later
        · exact .inl before
        · exact .inl known
        · exact .inr later
      · rw [mem_append, mem_singleton, or_assoc]
  exact (general []).trans (or_iff_right not_mem_nil)

namespace DNSZombieMappings

def Holds (zombies : DNSZombieMappings IP) (ip : IP) (name : String) : Prop :=
  ∃ zombie, zombies.deletes.lookup ip = some zombie ∧ name ∈ zombie.names

variable {zombies later : DNSZombieMappings IP} {name : String} (grace : Int)

theorem holds_upsert (expiryTime : Time) (addr : IP) (qname : List String)
    (known : zombies.Holds ip name ∨ ip = addr ∧ name ∈ qname) :
    (zombies.upsert expiryTime addr qname).1.Holds ip name := by
  unfold upsert Holds
  split
  case h_1 missing =>
    rw [lookup_insert_if]
    split
    case isTrue same =>
      refine ⟨_, rfl, (mem_unique qname name).mpr ?_⟩
      rcases known with ⟨zombie, found, _⟩ | ⟨_, member⟩
      · rw [same, missing] at found
        cases found
      · exact member
    case isFalse different => exact known.resolve_right fun this => different this.1
  case h_2 zombie found =>
    rw [lookup_insert_if]
    split
    case isTrue same =>
      refine ⟨_, rfl, (mem_unique _ name).mpr (mem_append.mpr ?_)⟩
      rcases known with ⟨other, isOther, member⟩ | ⟨_, member⟩
      · rw [same, found] at isOther
        cases isOther
        exact .inl member
      · exact .inr member
    case isFalse different => exact known.resolve_right fun this => different this.1

theorem holds_markAlive (now : Time) (other : IP) (holds : zombies.Holds ip name) :
    (zombies.markAlive now other).Holds ip name := by
  unfold markAlive
  split
  · exact holds
  case h_2 zombie found =>
    unfold Holds
    rw [lookup_insert_if]
    split
    case isTrue same =>
      obtain ⟨before, isBefore, member⟩ := holds
      rw [same, found] at isBefore
      cases isBefore
      exact ⟨_, rfl, member⟩
    · exact holds

theorem lookup_gc (order : IterationOrder) (zombies : DNSZombieMappings IP) (ip : IP) :
    (zombies.gc grace order).1.deletes.lookup ip =
      if ip ∈ (zombies.gc grace order).2.2.map (·.ip) then none else zombies.deletes.lookup ip := by
  have read := lookup_foldl_erase (fun _ => False)
    ((zombies.gc grace order).2.2.map (·.ip)) zombies.deletes ip
  simp only [foldl_map, if_false, not_false_eq_true, and_true] at read
  exact read

theorem holds_gc (order : IterationOrder) (holds : zombies.Holds ip name) :
    (zombies.gc grace order).1.Holds ip name ∨
      ∃ zombie ∈ (zombies.gc grace order).2.2, zombie.ip = ip := by
  by_cases dead : ip ∈ (zombies.gc grace order).2.2.map (·.ip)
  · obtain ⟨zombie, member, isIP⟩ := mem_map.mp dead
    exact .inr ⟨zombie, member, isIP⟩
  · unfold Holds
    rw [lookup_gc, if_neg dead]
    exact .inl holds

end DNSZombieMappings

/-! ### Pairs are remembered -/

namespace DNSCache

variable {name : String} (order : IterationOrder)

def enterRemoved (now : Time) (zombies : DNSZombieMappings IP)
    (removed : Removed IP) : DNSZombieMappings IP :=
  (order.visit 5 removed.entries).foldl (fun zombies visit => visit.2.foldl (fun zombies entry =>
        (zombies.upsert (if now < entry.expirationTime then entry.expirationTime else now) visit.1
          [entry.name]).1) zombies) zombies

/-- A rule for what every upsert keeps. -/
theorem enterRemoved_rule (invariant : DNSZombieMappings IP → Prop)
    (kept : ∀ zombies expiryTime addr qname, invariant zombies →
      invariant (zombies.upsert expiryTime addr qname).1)
    (order : IterationOrder) (now : Time) (zombies : DNSZombieMappings IP) (removed : Removed IP)
    (start : invariant zombies) : invariant (enterRemoved order now zombies removed) := by
  refine List.foldlRecOn _ _ (motive := invariant) start fun zombies before visit _ => ?_
  exact List.foldlRecOn _ _ (motive := invariant) before fun zombies before entry _ =>
    kept zombies _ visit.1 [entry.name] before

theorem holds_enterRemoved (now : Time) (zombies : DNSZombieMappings IP)
    (removed : Removed IP) (known : zombies.Holds ip name ∨ Recorded removed ip name) :
    (enterRemoved order now zombies removed).Holds ip name := by
  rcases known with holds | ⟨entry, member, rfl⟩
  · exact enterRemoved_rule (·.Holds ip name) (fun zombies expiryTime addr qname before =>
        holds_upsert expiryTime addr qname (.inl before))
      order now zombies removed holds
  · rcases found : removed.lookup ip with - | entries
    · rw [found] at member
      cases member
    · rw [found] at member
      have entered : ∀ zombies : DNSZombieMappings IP, (entries.foldl (fun zombies entry =>
            (zombies.upsert (if now < entry.expirationTime then entry.expirationTime else now) ip
              [entry.name]).1) zombies).Holds ip entry.name := by
        refine foldl_settles (fun zombies : DNSZombieMappings IP => zombies.Holds ip entry.name)
          (fun zombies => ?_) (fun zombies other before => ?_) member
        · exact holds_upsert _ ip _ (.inr ⟨rfl, mem_singleton.mpr rfl⟩)
        · exact holds_upsert _ ip _ (.inl before)
      have visited : ⟨ip, entries⟩ ∈ order.visit 5 removed.entries :=
        (order.mem_visit _ _ _).mpr (mem_lookup_iff.mp found)
      refine foldl_settles (fun zombies : DNSZombieMappings IP => zombies.Holds ip entry.name)
        (fun zombies => ?_) (fun zombies visit before => ?_) visited zombies
      · exact entered zombies
      exact List.foldlRecOn _ _ (motive := fun zombies : DNSZombieMappings IP =>
        zombies.Holds ip entry.name) before
        fun zombies before _ _ => holds_upsert _ _ _ (.inl before)

variable {c : DNSCache IP} (coherent : Coherent c) (now : Time)
include coherent now

theorem gc_coherent (zombies : DNSZombieMappings IP) : Coherent (c.gc order now zombies).1 :=
  (accounts_cleanupOverLimitEntries order
    (accounts_cleanupExpiredEntries order coherent now).coherent).coherent

/-- A collection of the cache keeps a pair, or makes a zombie of it. -/
theorem gc_remembers {zombies : DNSZombieMappings IP}
    (known : c.Forward ip name ∨ zombies.Holds ip name) :
    (c.gc order now zombies).1.Forward ip name ∨ (c.gc order now zombies).2.1.Holds ip name := by
  have expired := accounts_cleanupExpiredEntries order coherent now
  rcases known with pair | holds
  · rcases expired.kept ip name pair with still | recorded
    · rcases (accounts_cleanupOverLimitEntries order expired.coherent).kept ip name still with
        last | recorded
      · exact .inl last
      · exact .inr (holds_enterRemoved order now _ _ (.inr recorded))
    · exact .inr (holds_enterRemoved order now _ _ (.inl
        (holds_enterRemoved order now _ _ (.inr recorded))))
  · exact .inr (holds_enterRemoved order now _ _ (.inl
      (holds_enterRemoved order now _ _ (.inl holds))))

end DNSCache

namespace Endpoint

variable {grace : Int} {endpoint : Endpoint IP} {name : String}

/-- A pair is in the cache or among the zombies. -/
def Remembers (endpoint : Endpoint IP) (ip : IP) (name : String) : Prop :=
  endpoint.cache.Forward ip name ∨ endpoint.zombies.Holds ip name

def ReturnsDead (grace : Int) (endpoint : Endpoint IP) (call : Call IP) (ip : IP) : Prop :=
  ∃ order, call = .zombiesGC order ∧
    ∃ zombie ∈ (endpoint.zombies.gc grace order).2.2, zombie.ip = ip

theorem step_coherent (coherent : endpoint.cache.Coherent) (call : Call IP) :
    (endpoint.step grace call).cache.Coherent := by
  cases call with
  | update lookupTime name ips ttl =>
    exact (extends_update coherent lookupTime name ips ttl).coherent
  | cacheGC order now => exact gc_coherent order coherent now endpoint.zombies
  | upsert | markAlive | setCTGCTime | zombiesGC => exact coherent

/-- One call does not make an endpoint forget a pair, unless it returns the address as dead. -/
theorem step_remembers (coherent : endpoint.cache.Coherent)
    (remembers : endpoint.Remembers ip name) (call : Call IP) :
    (endpoint.step grace call).Remembers ip name ∨ endpoint.ReturnsDead grace call ip := by
  cases call with
  | update lookupTime looked ips ttl =>
    exact .inl (Or.imp_left
      ((extends_update coherent lookupTime looked ips ttl).forward ip name) remembers)
  | cacheGC order now => exact .inl (gc_remembers order coherent now remembers)
  | upsert expiryTime addr qname =>
    exact .inl (Or.imp_right (fun holds =>
      holds_upsert expiryTime addr qname (.inl holds)) remembers)
  | markAlive now other =>
    exact .inl (Or.imp_right (holds_markAlive now other) remembers)
  | setCTGCTime ctGCStart estNext => exact .inl remembers
  | zombiesGC order =>
    rcases remembers with pair | holds
    · exact .inl (.inl pair)
    · rcases holds_gc grace order holds with still | dead
      · exact .inl (.inr still)
      · exact .inr ⟨order, rfl, dead⟩

/-- A run does not make an endpoint forget a pair, unless a collection of the zombies returns the
address as dead. -/
theorem remembers_run (grace : Int) (coherent : endpoint.cache.Coherent)
    (remembers : endpoint.Remembers ip name) (calls : List (Call IP)) :
    (run (step grace) endpoint calls).Remembers ip name ∨
      ∃ first call rest, calls = first ++ call :: rest ∧
        (run (step grace) endpoint first).ReturnsDead grace call ip := by
  induction calls generalizing endpoint with
  | nil => exact .inl remembers
  | cons call rest inductionHypothesis =>
    have taken : (endpoint.step grace call).Remembers ip name ∨ _ :=
      step_remembers coherent remembers call
    rcases taken with still | dead
    · rcases inductionHypothesis (step_coherent coherent call) still with last | later
      · exact .inl last
      · obtain ⟨first, other, others, rfl, dead⟩ := later
        exact .inr ⟨call :: first, other, others, rfl, dead⟩
    · exact .inr ⟨[], call, rest, rfl, dead⟩

end Endpoint

/-! ### What a collection finds dead -/

namespace DNSZombieMappings

variable {grace : Int} {order : IterationOrder} {zombies : DNSZombieMappings IP}
  {zombie other : DNSZombieMapping IP} {name : String}

omit [DecidableEq IP] in
theorem mem_appendName (aliveNames : AliveNames IP) (entered : String) :
    name ∈ appendName zombie aliveNames entered ↔ name = entered ∨ name ∈ aliveNames :=
  mem_insert _

/-- A name of a zombie with a connection that is alive is alive. -/
theorem mem_getAliveNames (found : zombies.deletes.lookup ip = some other)
    (alive : zombies.isConnectionAlive grace other) (member : name ∈ other.names) :
    name ∈ zombies.getAliveNames grace order := by
  have grows : ∀ (zombie : DNSZombieMapping IP) (names : List String) (aliveNames : AliveNames IP),
      name ∈ aliveNames → name ∈ names.foldl (appendName zombie) aliveNames :=
    fun zombie names aliveNames before =>
      List.foldlRecOn names _ (motive := (name ∈ ·)) before fun aliveNames before entered _ =>
        (mem_appendName aliveNames entered).mpr (.inr before)
  unfold getAliveNames
  refine List.foldlRecOn _ _ (motive := (name ∈ ·)) ?_ fun aliveNames before visit _ => ?_
  · have visited : ⟨ip, other⟩ ∈ order.visit 0 zombies.deletes.entries :=
      (order.mem_visit _ _ _).mpr (mem_lookup_iff.mp found)
    refine foldl_settles (name ∈ ·) (fun aliveNames => ?_)
      (fun aliveNames visit before => ?_) visited ∅
    · rw [if_pos alive]
      exact foldl_settles (name ∈ ·)
        (fun aliveNames => (mem_appendName aliveNames name).mpr (.inl rfl))
        (fun aliveNames entered before => (mem_appendName aliveNames entered).mpr (.inr before))
        member aliveNames
    · split
      · exact grows visit.2 visit.2.names aliveNames before
      · exact before
  · split
    · exact before
    · refine List.foldlRecOn _ _ (motive := (name ∈ ·)) before
        fun aliveNames before entered _ => ?_
      split
      · exact (mem_appendName aliveNames entered).mpr (.inr before)
      · exact before

omit [DecidableEq IP] in
/-- Without a limit, a name that is alive makes a zombie alive. -/
theorem checkNames_false {aliveNames : AliveNames IP} {names : List String}
    (dead : (checkNames 0 aliveNames names false).1 = false) :
    ∀ name ∈ names, name ∉ aliveNames := by
  induction names with
  | nil => exact forall_mem_nil _
  | cons first rest inductionHypothesis =>
    unfold checkNames at dead
    split at dead
    case h_1 missing =>
      exact forall_mem_cons.mpr ⟨lookup_eq_none.mp missing, inductionHypothesis dead⟩
    · cases dead

theorem mem_collect_dead {aliveNames : AliveNames IP}
    (dead : zombie ∈ (zombies.collect grace order aliveNames).2) :
    (∃ key, zombies.deletes.lookup key = some zombie) ∧
      zombies.isZombieAlive grace zombie aliveNames = (false, false) := by
  suffices ∀ zombie ∈ (zombies.collect grace order aliveNames).2,
      (∃ key, zombies.deletes.lookup key = some zombie) ∧
        zombies.isZombieAlive grace zombie aliveNames = (false, false) from this zombie dead
  refine List.foldlRecOn _ _
    (motive := fun result : List (DNSZombieMapping IP) × List (DNSZombieMapping IP) =>
      ∀ zombie ∈ result.2, (∃ key, zombies.deletes.lookup key = some zombie) ∧
        zombies.isZombieAlive grace zombie aliveNames = (false, false))
    (forall_mem_nil _) ?_
  rintro ⟨alive, dead⟩ before visit visited
  dsimp only
  split
  · exact before
  · exact before
  case h_3 isDead =>
    refine forall_mem_append.mpr ⟨before, forall_mem_singleton.mpr ⟨⟨visit.1, ?_⟩, isDead⟩⟩
    exact mem_lookup_iff.mpr ((order.mem_visit _ _ _).mp visited)

/-- A zombie that a collection without limits finds dead has no name with a connection that is
alive. -/
theorem isConnectionAlive_of_dead (unlimited : zombies.perHostLimit = 0)
    (fits : (zombies.limitHosts grace order).1.length ≤ zombies.max)
    (dead : zombie ∈ (zombies.gc grace order).2.2) :
    (∃ key, zombies.deletes.lookup key = some zombie) ∧
      zombies.isConnectionAlive grace zombie = false ∧
      ∀ ip other, zombies.deletes.lookup ip = some other →
        (∃ name ∈ zombie.names, name ∈ other.names) →
          zombies.isConnectionAlive grace other = false := by
  have isDead : zombie ∈ (zombies.limitHosts grace order).2 := by
    have none : ¬(zombies.limitHosts grace order).1.length - zombies.max > 0 := by omega
    unfold gc verdict at dead
    dsimp only at dead
    rw [if_neg none] at dead
    exact dead
  have collected :
      zombie ∈ (zombies.collect grace order (zombies.getAliveNames grace order)).2 := by
    have none : ¬zombies.perHostLimit > 0 := by omega
    unfold limitHosts at isDead
    dsimp only at isDead
    rw [if_neg none] at isDead
    exact isDead
  obtain ⟨stored, notAlive⟩ := mem_collect_dead collected
  unfold isZombieAlive at notAlive
  rw [unlimited] at notAlive
  cases connection : zombies.isConnectionAlive grace zombie with
  | true =>
    rw [connection] at notAlive
    cases notAlive
  | false =>
    rw [connection] at notAlive
    refine ⟨stored, rfl, fun ip other found shared => ?_⟩
    obtain ⟨name, ofZombie, ofOther⟩ := shared
    have quiet := checkNames_false (congrArg Prod.fst notAlive) name ofZombie
    exact Bool.eq_false_iff.mpr fun alive => quiet (mem_getAliveNames found alive ofOther)

end DNSZombieMappings

/-! ### Revisions -/

namespace DNSZombieMappings

variable {zombies later last : DNSZombieMappings IP} {zombie : DNSZombieMapping IP}

/-- A zombie has been alive at the last collection of connections, if there has been one. -/
def Current (zombies : DNSZombieMappings IP) (zombie : DNSZombieMapping IP) : Prop :=
  zombies.ctGCRevision = 0 ∨ zombies.lastCTGCUpdate ≤ zombie.aliveAt

omit [DecidableEq IP] in
theorem Current.mono {before : DNSZombieMapping IP} (current : Current zombies before)
    (still : before.aliveAt ≤ zombie.aliveAt) : Current zombies zombie :=
  Or.imp_right (·.trans still) current

/-- How a zombie comes from earlier ones: it has been created since then, or it was there. -/
inductive Stems (zombies : DNSZombieMappings IP) (ip : IP) (zombie : DNSZombieMapping IP) : Prop
  | created (isIP : zombie.ip = ip) (added : zombie.revisionAddedAt = zombies.ctGCRevision)
      (alive : Current zombies zombie)
  | kept (before : DNSZombieMapping IP) (found : zombies.deletes.lookup ip = some before)
      (isIP : zombie.ip = before.ip) (added : zombie.revisionAddedAt = before.revisionAddedAt)
      (alive : before.aliveAt ≤ zombie.aliveAt ∨ Current zombies zombie)

/-- What every call but the end of a collection of connections does to the zombies. -/
structure Evolves (zombies later : DNSZombieMappings IP) : Prop where
  stems : ∀ ip zombie, later.deletes.lookup ip = some zombie → Stems zombies ip zombie
  revision : later.ctGCRevision = zombies.ctGCRevision
  lastUpdate : later.lastCTGCUpdate = zombies.lastCTGCUpdate
  max : later.max = zombies.max
  limit : later.perHostLimit = zombies.perHostLimit

theorem Stems.refl (found : zombies.deletes.lookup ip = some zombie) : Stems zombies ip zombie :=
  .kept zombie found rfl rfl (.inl le_rfl)

theorem Evolves.refl (zombies : DNSZombieMappings IP) : Evolves zombies zombies :=
  ⟨fun _ _ => Stems.refl, rfl, rfl, rfl, rfl⟩

theorem Evolves.current (evolves : Evolves zombies later) (current : Current later zombie) :
    Current zombies zombie := by
  unfold Current
  rw [← evolves.revision, ← evolves.lastUpdate]
  exact current

theorem Evolves.trans (first : Evolves zombies later) (second : Evolves later last) :
    Evolves zombies last := by
  refine ⟨fun ip zombie found => ?_, second.revision.trans first.revision,
    second.lastUpdate.trans first.lastUpdate, second.max.trans first.max,
    second.limit.trans first.limit⟩
  cases second.stems ip zombie found with
  | created isIP added alive =>
    exact .created isIP (added.trans first.revision) (first.current alive)
  | kept middle isMiddle sameIP sameRevision alive =>
    cases first.stems ip middle isMiddle with
    | created isIP added aliveThen =>
      refine .created (sameIP.trans isIP) (sameRevision.trans added) ?_
      rcases alive with still | renewed
      · exact aliveThen.mono still
      · exact first.current renewed
    | kept before found isIP added aliveThen =>
      refine .kept before found (sameIP.trans isIP) (sameRevision.trans added) ?_
      rcases alive with still | renewed
      · exact Or.imp (·.trans still) (·.mono still) aliveThen
      · exact .inr (first.current renewed)

theorem evolves_insert (stems : Stems zombies ip zombie) :
    Evolves zombies { zombies with deletes := zombies.deletes.insert ip zombie } := by
  refine ⟨fun other later found => ?_, rfl, rfl, rfl, rfl⟩
  rw [lookup_insert_if] at found
  split at found
  case isTrue same =>
    cases found
    exact same ▸ stems
  · exact Stems.refl found

theorem evolves_upsert (zombies : DNSZombieMappings IP) (expiryTime : Time) (addr : IP)
    (qname : List String) : Evolves zombies (zombies.upsert expiryTime addr qname).1 := by
  unfold upsert
  split
  · exact evolves_insert (.created rfl rfl (.inr le_rfl))
  case h_2 before isBefore =>
    refine evolves_insert (.kept before isBefore rfl rfl ?_)
    dsimp only
    split
    · exact .inr (.inr le_rfl)
    · exact .inl le_rfl

theorem evolves_markAlive (zombies : DNSZombieMappings IP) {now : Time} (addr : IP)
    (inOrder : zombies.ctGCRevision = 0 ∨ zombies.lastCTGCUpdate ≤ now) :
    Evolves zombies (zombies.markAlive now addr) := by
  unfold markAlive
  split
  · exact Evolves.refl zombies
  case h_2 before isBefore => exact evolves_insert (.kept before isBefore rfl rfl (.inr inOrder))

theorem evolves_gc (grace : Int) (order : IterationOrder) (zombies : DNSZombieMappings IP) :
    Evolves zombies (zombies.gc grace order).1 := by
  refine ⟨fun ip zombie found => ?_, rfl, rfl, rfl, rfl⟩
  rw [lookup_gc] at found
  split at found
  · cases found
  · exact Stems.refl found

/-- Zombies stand under their address, and those added at the current revision have been alive at
the last collection of connections. -/
structure Sound (zombies : DNSZombieMappings IP) : Prop where
  keyed : ∀ ip zombie, zombies.deletes.lookup ip = some zombie → zombie.ip = ip
  added : ∀ ip zombie, zombies.deletes.lookup ip = some zombie →
    zombie.revisionAddedAt ≤ zombies.ctGCRevision
  fresh : ∀ ip zombie, zombies.deletes.lookup ip = some zombie →
    zombie.revisionAddedAt = zombies.ctGCRevision → Current zombies zombie

theorem Sound.evolves (sound : Sound zombies) (evolves : Evolves zombies later) : Sound later := by
  refine ⟨fun ip zombie found => ?_, fun ip zombie found => ?_, fun ip zombie found current => ?_⟩
  · cases evolves.stems ip zombie found with
    | created isIP => exact isIP
    | kept before isBefore isIP => exact isIP.trans (sound.keyed ip before isBefore)
  · rw [evolves.revision]
    cases evolves.stems ip zombie found with
    | created _ added => exact added.le
    | kept before isBefore _ added => exact added.le.trans (sound.added ip before isBefore)
  · have alive : Current zombies zombie := by
      cases evolves.stems ip zombie found with
      | created _ _ alive => exact alive
      | kept before isBefore _ added alive =>
        rcases alive with still | renewed
        · refine (sound.fresh ip before isBefore ?_).mono still
          rw [← added, current, evolves.revision]
        · exact renewed
    unfold Current
    rw [evolves.revision, evolves.lastUpdate]
    exact alive

theorem Sound.setCTGCTime (sound : Sound zombies) (room : zombies.ctGCRevision + 1 < 2 ^ 64)
    (ctGCStart estNext : Time) : Sound (zombies.setCTGCTime ctGCStart estNext) := by
  have next : (zombies.setCTGCTime ctGCStart estNext).ctGCRevision = zombies.ctGCRevision + 1 :=
    Nat.mod_eq_of_lt room
  refine ⟨sound.keyed, fun ip zombie found => ?_, fun ip zombie found current => ?_⟩
  · rw [next]
    exact Nat.le_succ_of_le (sound.added ip zombie found)
  · rw [next] at current
    exact absurd (sound.added ip zombie found) (by omega)

structure Since (revision : Nat) (ip : IP) (zombies : DNSZombieMappings IP) : Prop where
  current : revision ≤ zombies.ctGCRevision
  added : ∀ zombie, zombies.deletes.lookup ip = some zombie → revision ≤ zombie.revisionAddedAt

variable {revision : Nat} (since : Since revision ip zombies)
include since

theorem Since.evolves (evolves : Evolves zombies later) : Since revision ip later := by
  refine ⟨since.current.trans evolves.revision.symm.le, fun zombie found => ?_⟩
  cases evolves.stems ip zombie found with
  | created _ added => exact since.current.trans added.symm.le
  | kept before isBefore _ added => exact (since.added before isBefore).trans added.symm.le

theorem Since.setCTGCTime (room : zombies.ctGCRevision + 1 < 2 ^ 64) (ctGCStart estNext : Time) :
    Since revision ip (zombies.setCTGCTime ctGCStart estNext) := by
  refine ⟨?_, since.added⟩
  have next : (zombies.setCTGCTime ctGCStart estNext).ctGCRevision = zombies.ctGCRevision + 1 :=
    Nat.mod_eq_of_lt room
  rw [next]
  exact Nat.le_succ_of_le since.current

end DNSZombieMappings

/-! ### Collections of connections in a run -/

def Call.time : Call IP → Option Time
  | .update lookupTime _ _ _ => some lookupTime
  | .cacheGC _ now => some now
  | .upsert expiryTime _ _ => some expiryTime
  | .markAlive now _ => some now
  | .setCTGCTime ctGCStart _ => some ctGCStart
  | .zombiesGC _ => none

def Call.conntrackTime : Call IP → Option Time
  | .markAlive now _ => some now
  | .setCTGCTime ctGCStart _ => some ctGCStart
  | _ => none

def Call.endsCTGC : Call IP → Bool
  | .setCTGCTime _ _ => true
  | _ => false

def ctGCs (calls : List (Call IP)) : Nat := calls.countP Call.endsCTGC

namespace Endpoint

def newEndpoint (minTTL : Int) (limit max perHostLimit : Nat) : Endpoint IP where
  cache := newDNSCacheWithLimit minTTL limit
  zombies := newDNSZombieMappings max perHostLimit

variable {grace : Int} {endpoint : Endpoint IP} {calls : List (Call IP)} {call : Call IP}

structure Tracks (endpoint : Endpoint IP) (calls : List (Call IP)) : Prop where
  sound : endpoint.zombies.Sound
  revision : endpoint.zombies.ctGCRevision = ctGCs calls
  lastUpdate : endpoint.zombies.ctGCRevision = 0 ∨
    endpoint.zombies.lastCTGCUpdate ∈ calls.filterMap Call.conntrackTime

theorem tracks_newEndpoint (minTTL : Int) (limit max perHostLimit : Nat) :
    Tracks (newEndpoint minTTL limit max perHostLimit : Endpoint IP) [] :=
  ⟨⟨fun _ _ found => (nomatch found), fun _ _ found => (nomatch found),
    fun _ _ found => (nomatch found)⟩, rfl, .inl rfl⟩

/-- A call lets the zombies evolve, or it ends a collection of connections. -/
theorem step_zombies (grace : Int) (tracks : Tracks endpoint calls)
    (inOrder : ((calls ++ [call]).filterMap Call.conntrackTime).Pairwise (· ≤ ·)) :
    call.endsCTGC = false ∧
        endpoint.zombies.Evolves (endpoint.step grace call).zombies ∨
      ∃ ctGCStart estNext, call = .setCTGCTime ctGCStart estNext := by
  cases call with
  | update => exact .inl ⟨rfl, DNSZombieMappings.Evolves.refl _⟩
  | cacheGC order now =>
    have entered := enterRemoved_rule (endpoint.zombies.Evolves ·)
      (fun zombies expiryTime addr qname before =>
        before.trans (zombies.evolves_upsert expiryTime addr qname)) order now
    exact .inl ⟨rfl, entered _ _ (entered _ _ (DNSZombieMappings.Evolves.refl _))⟩
  | upsert expiryTime addr qname =>
    exact .inl ⟨rfl, endpoint.zombies.evolves_upsert expiryTime addr qname⟩
  | markAlive now ip =>
    refine .inl ⟨rfl, endpoint.zombies.evolves_markAlive ip ?_⟩
    rw [filterMap_append] at inOrder
    exact Or.imp_right (fun member => (pairwise_append.mp inOrder).2.2 _ member now
      (mem_singleton.mpr rfl)) tracks.lastUpdate
  | setCTGCTime ctGCStart estNext => exact .inr ⟨ctGCStart, estNext, rfl⟩
  | zombiesGC order => exact .inl ⟨rfl, endpoint.zombies.evolves_gc grace order⟩

section

omit [DecidableEq IP]

theorem ctGCs_append (calls rest : List (Call IP)) :
    ctGCs (calls ++ rest) = ctGCs calls + ctGCs rest :=
  countP_append

theorem ctGCs_append_false (ends : call.endsCTGC = false) :
    ctGCs (calls ++ [call]) = ctGCs calls := by
  rw [ctGCs, countP_append, countP_singleton, ends]
  rfl

theorem ctGCs_append_true (ctGCStart estNext : Time) :
    ctGCs (calls ++ [.setCTGCTime ctGCStart estNext]) = ctGCs calls + 1 :=
  ctGCs_append calls _

theorem inOrder_of_append {rest : List (Call IP)}
    (inOrder : ((calls ++ rest).filterMap Call.conntrackTime).Pairwise (· ≤ ·)) :
    (calls.filterMap Call.conntrackTime).Pairwise (· ≤ ·) := by
  rw [filterMap_append] at inOrder
  exact (pairwise_append.mp inOrder).1

end

theorem Tracks.step (tracks : Tracks endpoint calls)
    (inOrder : ((calls ++ [call]).filterMap Call.conntrackTime).Pairwise (· ≤ ·))
    (few : ctGCs (calls ++ [call]) < 2 ^ 64) :
    Tracks (endpoint.step grace call) (calls ++ [call]) := by
  rcases step_zombies grace tracks inOrder with ⟨ends, evolves⟩ | ⟨ctGCStart, estNext, rfl⟩
  · refine ⟨tracks.sound.evolves evolves, ?_, ?_⟩
    · rw [evolves.revision, tracks.revision, ctGCs_append_false ends]
    · rw [evolves.revision, evolves.lastUpdate, filterMap_append]
      exact Or.imp_right (mem_append.mpr ∘ .inl) tracks.lastUpdate
  · rw [ctGCs_append_true, ← tracks.revision] at few
    refine ⟨tracks.sound.setCTGCTime few ctGCStart estNext, ?_, .inr ?_⟩
    · rw [ctGCs_append_true, ← tracks.revision]
      exact Nat.mod_eq_of_lt few
    · rw [filterMap_append]
      exact mem_append.mpr (.inr (mem_singleton.mpr rfl))

theorem run_append_singleton (endpoint : Endpoint IP) (calls : List (Call IP)) (call : Call IP) :
    run (step grace) endpoint (calls ++ [call]) =
      (run (step grace) endpoint calls).step grace call :=
  foldl_append

theorem tracks_run (grace : Int) (tracks : Tracks endpoint [])
    (inOrder : (calls.filterMap Call.conntrackTime).Pairwise (· ≤ ·))
    (few : ctGCs calls < 2 ^ 64) : Tracks (run (step grace) endpoint calls) calls ∧
      (run (step grace) endpoint calls).zombies.max = endpoint.zombies.max ∧
      (run (step grace) endpoint calls).zombies.perHostLimit = endpoint.zombies.perHostLimit := by
  induction calls using List.reverseRecOn with
  | nil => exact ⟨tracks, rfl, rfl⟩
  | append_singleton calls call inductionHypothesis =>
    rw [run_append_singleton]
    obtain ⟨tracked, max, limit⟩ := inductionHypothesis (inOrder_of_append inOrder)
      (by rw [ctGCs_append] at few; omega)
    refine ⟨tracked.step inOrder few, ?_⟩
    rcases step_zombies grace tracked inOrder with ⟨-, evolves⟩ | ⟨ctGCStart, estNext, rfl⟩
    · exact ⟨evolves.max.trans max, evolves.limit.trans limit⟩
    · exact ⟨max, limit⟩

/-- An address that is no zombie has to be added at the revision of that moment or later. -/
theorem since_run (tracks : Tracks endpoint []) (before : List (Call IP)) {after : List (Call IP)}
    (inOrder : ((before ++ after).filterMap Call.conntrackTime).Pairwise (· ≤ ·))
    (few : ctGCs (before ++ after) < 2 ^ 64)
    (absent : (run (step grace) endpoint before).zombies.deletes.lookup ip = none) :
    (run (step grace) endpoint (before ++ after)).zombies.Since (ctGCs before) ip := by
  induction after using List.reverseRecOn with
  | nil =>
    rw [append_nil] at inOrder few ⊢
    have revision := (tracks_run grace tracks inOrder few).1.revision
    refine ⟨revision.symm.le, fun zombie found => ?_⟩
    rw [absent] at found
    cases found
  | append_singleton after call inductionHypothesis =>
    rw [← append_assoc] at inOrder few ⊢
    have fewer : ctGCs (before ++ after) < 2 ^ 64 := by
      rw [ctGCs_append] at few
      omega
    have since := inductionHypothesis (inOrder_of_append inOrder) fewer
    have tracked := (tracks_run grace tracks (inOrder_of_append inOrder) fewer).1
    rw [run_append_singleton]
    rcases step_zombies grace tracked inOrder with
      ⟨-, evolves⟩ | ⟨ctGCStart, estNext, rfl⟩
    · exact since.evolves evolves
    · rw [ctGCs_append_true, ← tracked.revision] at few
      exact since.setCTGCTime few ctGCStart estNext

/-! ### Nothing is forgotten early -/

/-- The last collection of connections started after the grace period and after the zombie was last
alive, and since any moment at which its address was no zombie two have ended. -/
structure OutOfUse (grace : Int) (start : Endpoint IP) (calls : List (Call IP)) (ip : IP)
    (zombie : DNSZombieMapping IP) : Prop where
  expired : zombie.deletePendingAt + grace < (run (step grace) start calls).zombies.lastCTGCUpdate
  quiet : zombie.aliveAt < (run (step grace) start calls).zombies.lastCTGCUpdate
  collected : ∀ before after, calls = before ++ after →
    (run (step grace) start before).zombies.deletes.lookup ip = none → 2 ≤ ctGCs after

/-- A connection that is not alive belongs to a zombie that may be given up, before the revisions
have wrapped around. -/
theorem outOfUse_of_not_alive (tracks : Tracks endpoint [])
    (inOrder : (calls.filterMap Call.conntrackTime).Pairwise (· ≤ ·))
    (few : ctGCs calls < 2 ^ 64 - 1) {zombie : DNSZombieMapping IP}
    (found : (run (step grace) endpoint calls).zombies.deletes.lookup ip = some zombie)
    (dead : (run (step grace) endpoint calls).zombies.isConnectionAlive grace zombie = false) :
    OutOfUse grace endpoint calls ip zombie := by
  have tracked := (tracks_run grace tracks inOrder (by omega)).1
  unfold isConnectionAlive at dead
  split at dead
  · cases dead
  case isFalse expired =>
    split at dead
    · cases dead
    case isFalse quiet =>
      refine ⟨not_not.mp expired, not_not.mp quiet, ?_⟩
      rintro before after rfl absent
      have since := (since_run tracks before inOrder (by omega) absent).added zombie found
      have added := tracked.sound.added ip zombie found
      -- A zombie that was added at the current revision would count as alive.
      have older : zombie.revisionAddedAt = ctGCs (before ++ after) →
          ctGCs (before ++ after) = 0 := by
        intro current
        rcases tracked.sound.fresh ip zombie found (current.trans tracked.revision.symm) with
          none | alive
        · exact tracked.revision.symm.trans none
        · exact absurd alive (not_le.mpr (not_not.mp quiet))
      have revisions := of_decide_eq_false dead
      rw [tracked.revision] at added revisions
      rw [ctGCs_append] at added revisions older few
      omega

/-- **Nothing is forgotten early.** A pair of an address and a name that is in the cache is, after
any further calls, in the cache or among the zombies, unless a collection of the zombies has
returned the address as dead. And if there is no limit on the addresses of a name and no more
zombies are alive than there may be, a zombie is only returned as dead if it and all zombies that
share a name with it are out of use; this takes collections of connections in order, and fewer of
them than revisions. -/
theorem run_remembers (grace minTTL : Int) (limit max perHostLimit : Nat) (calls : List (Call IP)) :
    (∀ earlier later ip name, calls = earlier ++ later →
      (run (step grace) (newEndpoint minTTL limit max perHostLimit) earlier).cache.Forward ip name ∨
        (run (step grace) (newEndpoint minTTL limit max perHostLimit) earlier).cache.Reverse
          ip name →
      (run (step grace) (newEndpoint minTTL limit max perHostLimit) calls).cache.Forward ip name ∧
          (run (step grace) (newEndpoint minTTL limit max perHostLimit) calls).cache.Reverse
            ip name ∨
        (run (step grace) (newEndpoint minTTL limit max perHostLimit) calls).zombies.Holds ip name ∨
        ∃ first call rest, later = first ++ call :: rest ∧
          (run (step grace) (newEndpoint minTTL limit max perHostLimit)
            (earlier ++ first)).ReturnsDead grace call ip) ∧
    ((calls.filterMap Call.conntrackTime).Pairwise (· ≤ ·) → ctGCs calls < 2 ^ 64 - 1 →
      perHostLimit = 0 → ∀ order,
      ((run (step grace) (newEndpoint minTTL limit max perHostLimit) calls).zombies.limitHosts
        grace order).1.length ≤ max →
      ∀ zombie ∈ ((run (step grace) (newEndpoint minTTL limit max perHostLimit) calls).zombies.gc
        grace order).2.2, ∀ ip other,
      (run (step grace) (newEndpoint minTTL limit max perHostLimit) calls).zombies.deletes.lookup
        ip = some other →
      (ip = zombie.ip ∨ ∃ name ∈ zombie.names, name ∈ other.names) →
        OutOfUse grace (newEndpoint minTTL limit max perHostLimit) calls ip other) := by
  refine ⟨?_, ?_⟩
  · rintro earlier later ip name rfl pair
    have coherent : ∀ calls : List (Call IP), (run (step grace)
        (newEndpoint minTTL limit max perHostLimit) calls).cache.Coherent :=
      run_invariant (fun endpoint : Endpoint IP => endpoint.cache.Coherent)
        (fun endpoint call before => step_coherent before call)
        (coherent_newDNSCacheWithLimit minTTL limit)
    have known : (run (step grace) (newEndpoint minTTL limit max perHostLimit)
        earlier).Remembers ip name :=
      .inl (pair.elim id ((coherent earlier).mirrored ip name).mpr)
    rcases remembers_run grace (coherent earlier) known later with still | dead
    · rw [← run_append] at still
      rcases still with forward | holds
      · exact .inl ⟨forward, ((coherent (earlier ++ later)).mirrored ip name).mp forward⟩
      · exact .inr (.inl holds)
    · obtain ⟨first, call, rest, isLater, returned⟩ := dead
      rw [← run_append] at returned
      exact .inr (.inr ⟨first, call, rest, isLater, returned⟩)
  · intro inOrder few unlimited order fits zombie dead ip other found related
    have tracks : Tracks (newEndpoint minTTL limit max perHostLimit : Endpoint IP) [] :=
      tracks_newEndpoint minTTL limit max perHostLimit
    obtain ⟨tracked, sameMax, sameLimit⟩ := tracks_run grace tracks inOrder (by omega)
    obtain ⟨⟨key, stored⟩, quiet, others⟩ := isConnectionAlive_of_dead
      (sameLimit.trans unlimited) (fits.trans sameMax.symm.le) dead
    have isDead : (run (step grace) (newEndpoint minTTL limit max perHostLimit)
        calls).zombies.isConnectionAlive grace other = false := by
      rcases related with rfl | shared
      · rw [tracked.sound.keyed key zombie stored, stored] at found
        cases found
        exact quiet
      · exact others ip other found shared
    exact outOfUse_of_not_alive tracks inOrder few found isDead

/-- After any calls both maps of the cache have the same pairs. -/
theorem run_mirrored (grace minTTL : Int) (limit max perHostLimit : Nat) (calls : List (Call IP))
    (name : String) :
    let endpoint := run (step grace) (newEndpoint minTTL limit max perHostLimit) calls
    endpoint.cache.Forward ip name ↔ endpoint.cache.Reverse ip name :=
  (run_invariant (fun endpoint : Endpoint IP => endpoint.cache.Coherent)
    (fun _ call coherent => step_coherent coherent call)
    (coherent_newDNSCacheWithLimit _ _) calls).mirrored ip name

/-- A name is looked up and expires, and two collections of connections end. -/
def expiringCalls : List (Call Nat) :=
  [.update 0 "a.io" [7] 1, .cacheGC listed (5 * second),
    .setCTGCTime (60 * second) (120 * second), .setCTGCTime (120 * second) (180 * second)]

theorem expiringCalls_remembered :
    (run (step 0) (newEndpoint 0 50 100 0) (expiringCalls.take 1)).cache.Forward 7 "a.io" ∧
    (run (step 0) (newEndpoint 0 50 100 0) expiringCalls).zombies.Holds 7 "a.io" ∧
    ∃ zombie ∈ ((run (step 0) (newEndpoint 0 50 100 0) expiringCalls).zombies.gc 0
      listed).2.2, ∃ other,
      (run (step 0) (newEndpoint 0 50 100 0) expiringCalls).zombies.deletes.lookup 7 = some other ∧
        zombie.ip = 7 ∧ OutOfUse 0 (newEndpoint 0 50 100 0) expiringCalls 7 other := by
  obtain ⟨remembered, inTime⟩ := run_remembers 0 0 50 100 0 expiringCalls
  have entered : 7 ∈ (run (step 0) (newEndpoint 0 50 100 0) (expiringCalls.take 1)).cache.ofName
      "a.io" := by decide +kernel
  have left : 7 ∉ (run (step 0) (newEndpoint 0 50 100 0) expiringCalls).cache.ofName "a.io" := by
    decide +kernel
  have dead : 7 ∈ ((run (step 0) (newEndpoint 0 50 100 0) expiringCalls).zombies.gc 0
      listed).2.2.map (·.ip) := by decide +kernel
  have stored : 7 ∈ (run (step 0) (newEndpoint 0 50 100 0) expiringCalls).zombies.deletes := by
    decide +kernel
  refine ⟨entered, ?_, ?_⟩
  · rcases remembered (expiringCalls.take 1) (expiringCalls.drop 1) 7 "a.io" rfl (.inl entered)
      with cached | holds | ⟨first, call, rest, isLater, order, rfl, -⟩
    · exact absurd cached.1 left
    · exact holds
    · have member : .zombiesGC order ∈ expiringCalls.drop 1 := by
        rw [isLater]
        exact mem_append_right first (.head _)
      simp only [expiringCalls, drop_succ_cons, drop_zero, mem_cons, reduceCtorEq,
        not_mem_nil, or_self] at member
  · obtain ⟨zombie, isDead, isIP⟩ := mem_map.mp dead
    obtain ⟨other, found⟩ := lookup_of_mem stored
    exact ⟨zombie, isDead, other, found, isIP, inTime (by decide +kernel) (by decide +kernel) rfl
      listed (by decide +kernel) zombie isDead 7 other found (.inl isIP.symm)⟩

/-! ### Revisions that wrap around -/

def collectedEndpoint (minTTL : Int) (limit max perHostLimit revision : Nat)
    (ctGCStart estNext : Time) : Endpoint IP where
  cache := newDNSCacheWithLimit minTTL limit
  zombies :=
    { newDNSZombieMappings max perHostLimit with
      lastCTGCUpdate := ctGCStart
      nextCTGCUpdate := estNext
      ctGCRevision := revision % 2 ^ 64 }

theorem run_replicate (grace minTTL : Int) (limit max perHostLimit count : Nat)
    (ctGCStart estNext : Time) :
    run (step grace) (newEndpoint minTTL limit max perHostLimit : Endpoint IP)
        (List.replicate (count + 1) (.setCTGCTime ctGCStart estNext)) =
      collectedEndpoint minTTL limit max perHostLimit (count + 1) ctGCStart estNext := by
  induction count with
  | zero => rfl
  | succ count inductionHypothesis =>
    rw [replicate_succ', run_append_singleton, inductionHypothesis]
    have next : increment ((count + 1) % 2 ^ 64) = (count + 1 + 1) % 2 ^ 64 := by
      unfold increment
      omega
    unfold collectedEndpoint
    rw [← next]
    rfl

/-- Collections of connections end until one revision is left. -/
def wornCalls : List (Call Nat) := List.replicate (2 ^ 64 - 3 + 1) (.setCTGCTime 0 0)

/-- A zombie is entered, and a collection of connections ends. -/
def lastCalls : List (Call Nat) := [.upsert 0 7 ["a.io"], .setCTGCTime 10 20]

/-- The revisions wrap around, and a zombie is returned as dead after a single collection of
connections. -/
theorem wornCalls_dead :
    ((wornCalls ++ lastCalls).filterMap Call.time).Pairwise (· ≤ ·) ∧
    (run (step 0) (newEndpoint 0 50 100 0) wornCalls).zombies.deletes.lookup 7 = none ∧
    ctGCs lastCalls = 1 ∧
    ((run (step 0) (newEndpoint 0 50 100 0) (wornCalls ++ lastCalls)).zombies.limitHosts 0
      listed).1.length ≤ 100 ∧
    ∃ zombie ∈ ((run (step 0) (newEndpoint 0 50 100 0) (wornCalls ++ lastCalls)).zombies.gc 0
      listed).2.2, zombie.ip = 7 := by
  have worn : run (step 0) (newEndpoint 0 50 100 0) wornCalls =
      collectedEndpoint 0 50 100 0 (2 ^ 64 - 3 + 1) 0 0 :=
    run_replicate 0 0 50 100 0 (2 ^ 64 - 3) 0 0
  have all : run (step 0) (newEndpoint 0 50 100 0) (wornCalls ++ lastCalls) =
      run (step 0) (run (step 0) (newEndpoint 0 50 100 0) wornCalls) lastCalls := run_append _ _ _
  have dead : 7 ∈ ((run (step 0) (collectedEndpoint 0 50 100 0 (2 ^ 64 - 3 + 1) 0 0)
      lastCalls).zombies.gc 0 listed).2.2.map (·.ip) := by decide +kernel
  rw [all, worn]
  refine ⟨?_, rfl, rfl, by decide +kernel, mem_map.mp dead⟩
  have times : wornCalls.filterMap Call.time = List.replicate (2 ^ 64 - 3 + 1) 0 :=
    filterMap_replicate_of_some rfl
  rw [filterMap_append, times, pairwise_append]
  refine ⟨pairwise_replicate.mpr (.inr le_rfl), by decide, ?_⟩
  intro first isFirst second isSecond
  rw [eq_of_mem_replicate isFirst]
  have later : ∀ moment ∈ lastCalls.filterMap Call.time, 0 ≤ moment := by decide
  exact later second isSecond

end Endpoint

end Constellation.Fqdn
