/-
This file proves that the DNS cache accounts for its pairs of an address and a name. An update
loses none, and a collection records every pair that it removes, with an entry of its name.
-/
import Constellation.Fqdn.Zombies
import Constellation.Lib.FallibleLoop

namespace Constellation.Fqdn

open Lib List AList Index GoMap

variable {IP : Type}

/-! ### The loop over the seconds -/

theorem DNSCache.sweep_maps (expires : Time) (rounds : Nat) (c : DNSCache IP)
    (names : GoSet String) :
    (c.sweep expires rounds names).1.forward = c.forward ∧
      (c.sweep expires rounds names).1.reverse = c.reverse := by
  induction rounds generalizing c names with
  | zero => exact ⟨rfl, rfl⟩
  | succ rounds inductionHypothesis =>
    unfold sweep
    split
    · dsimp only
      split
      · exact inductionHypothesis { c with lastCleanup := _ } names
      · exact inductionHypothesis { c with lastCleanup := _, cleanup := _ } _
    · exact ⟨rfl, rfl⟩

theorem DNSCache.le_lastCleanup_of_rounds {expires : Int} {rounds : Nat} {c : DNSCache IP}
    {names : GoSet String} (enough : expires ≤ truncate c.lastCleanup + rounds * second) :
    expires ≤ (c.sweep expires rounds names).1.lastCleanup := by
  unfold truncate second at enough
  induction rounds generalizing c names with
  | zero =>
    change expires ≤ c.lastCleanup
    omega
  | succ rounds inductionHypothesis =>
    unfold sweep
    split
    · dsimp only [truncate, second]
      split
      · exact inductionHypothesis (by dsimp only; omega)
      · exact inductionHypothesis (by dsimp only; omega)
    case isFalse past => exact Int.not_lt.mp past

/-- The rounds of a sweep suffice. -/
theorem DNSCache.le_lastCleanup (expires : Int) (c : DNSCache IP) (names : GoSet String) :
    expires ≤ (c.sweep expires (c.sweepRounds expires) names).1.lastCleanup := by
  refine le_lastCleanup_of_rounds ?_
  unfold sweepRounds truncate second
  omega

/-! ### Pairs of an address and a name -/

namespace DNSCache

def ofName (c : DNSCache IP) (name : String) : GoMap IP (CacheEntry IP) :=
  (c.forward.lookup name).getD ∅

def Forward (c : DNSCache IP) (ip : IP) (name : String) : Prop := ip ∈ c.ofName name

variable [DecidableEq IP]

def ofIP (c : DNSCache IP) (ip : IP) : GoMap String (CacheEntry IP) :=
  (c.reverse.lookup ip).getD ∅

def Reverse (c : DNSCache IP) (ip : IP) (name : String) : Prop := name ∈ c.ofIP ip

/-- Entries stand under their own name, and both maps have the same pairs. -/
structure Coherent (c : DNSCache IP) : Prop where
  named : ∀ name ip entry, (c.ofName name).lookup ip = some entry → entry.name = name
  mirrored : ∀ ip name, c.Forward ip name ↔ c.Reverse ip name

theorem coherent_newDNSCacheWithLimit (minTTL : Int) (limit : Nat) :
    Coherent (newDNSCacheWithLimit minTTL limit : DNSCache IP) :=
  ⟨fun _ _ _ found => (nomatch found),
    fun ip name => iff_of_false (notMem_empty ip) (notMem_empty name)⟩

structure Enters (c later : DNSCache IP) (ip : IP) (entry : CacheEntry IP) : Prop where
  forward : ∀ name, later.ofName name =
    if name = entry.name then (c.ofName name).insert ip entry else c.ofName name
  reverse : ∀ other, later.ofIP other =
    if other = ip then (c.ofIP other).insert entry.name entry else c.ofIP other

structure Drops (c later : DNSCache IP) (ip : IP) (name : String) : Prop where
  forward : ∀ other, later.ofName other =
    if other = name then (c.ofName other).erase ip else c.ofName other
  reverse : ∀ other, later.ofIP other =
    if other = ip then (c.ofIP other).erase name else c.ofIP other

variable {c later : DNSCache IP} {ip other : IP} {name otherName : String} {entry : CacheEntry IP}

section

variable (enters : Enters c later ip entry)
include enters

theorem Enters.forward_iff : later.Forward other otherName ↔
    (otherName = entry.name ∧ other = ip) ∨ c.Forward other otherName := by
  rw [Forward, enters.forward, mem_insert_if]
  rfl

theorem Enters.reverse_iff : later.Reverse other otherName ↔
    (other = ip ∧ otherName = entry.name) ∨ c.Reverse other otherName := by
  rw [Reverse, enters.reverse, mem_insert_if]
  rfl

theorem Enters.coherent (coherent : Coherent c) : Coherent later := by
  refine ⟨fun name other found isEntry => ?_, fun other name => ?_⟩
  · rw [enters.forward] at isEntry
    split at isEntry
    case isTrue same =>
      rw [lookup_insert_if] at isEntry
      split at isEntry
      · cases isEntry
        exact same.symm
      · exact coherent.named name other found isEntry
    · exact coherent.named name other found isEntry
  · rw [enters.forward_iff, enters.reverse_iff, coherent.mirrored, and_comm]

end

section

variable (drops : Drops c later ip name)
include drops

theorem Drops.forward_iff : later.Forward other otherName ↔
    ¬(otherName = name ∧ other = ip) ∧ c.Forward other otherName := by
  rw [Forward, drops.forward, mem_erase_if]
  rfl

theorem Drops.reverse_iff : later.Reverse other otherName ↔
    ¬(other = ip ∧ otherName = name) ∧ c.Reverse other otherName := by
  rw [Reverse, drops.reverse, mem_erase_if]
  rfl

theorem Drops.coherent (coherent : Coherent c) : Coherent later := by
  refine ⟨fun otherName other found isEntry => ?_, fun other otherName => ?_⟩
  · rw [drops.forward] at isEntry
    split at isEntry
    · rw [lookup_erase_if] at isEntry
      split at isEntry
      · cases isEntry
      · exact coherent.named otherName other found isEntry
    · exact coherent.named otherName other found isEntry
  · rw [drops.forward_iff, drops.reverse_iff, coherent.mirrored, and_comm (b := other = ip)]

end

/-! ### Updates -/

omit [DecidableEq IP] in
theorem ofName_insert (c : DNSCache IP) (entries : GoMap IP (CacheEntry IP)) (name other : String) :
    ofName { c with forward := c.forward.insert name entries } other =
      if other = name then entries else c.ofName other := by
  unfold ofName
  rw [lookup_insert_if]
  split
  · rfl
  · rfl

omit [DecidableEq IP] in
theorem addNameToCleanup_maps (c : DNSCache IP) (entry : CacheEntry IP) :
    (c.addNameToCleanup entry).forward = c.forward ∧
      (c.addNameToCleanup entry).reverse = c.reverse := by
  unfold addNameToCleanup
  split
  · exact ⟨rfl, rfl⟩
  · exact ⟨rfl, rfl⟩

theorem enters_upsertReverse (c : DNSCache IP) (ip : IP) (entry : CacheEntry IP) :
    Enters c ((upsertReverse
        { c with forward := c.forward.insert entry.name ((c.ofName entry.name).insert ip entry) }
        ip entry).addNameToCleanup entry) ip entry := by
  refine ⟨fun name => ?_, fun other => ?_⟩
  · rw [ofName, (addNameToCleanup_maps _ _).1]
    exact getD_insert
  · rw [ofIP, (addNameToCleanup_maps _ _).2]
    exact getD_insert

/-- Nothing changes, or a pair is entered. -/
theorem updateIP_cases (c : DNSCache IP) (status : UpdateStatus) (entry : CacheEntry IP) (ip : IP) :
    (updateIP entry (c, status) ip).1 = c ∨
      Enters c (updateIP entry (c, status) ip).1 ip entry := by
  unfold updateIP
  dsimp only
  split
  · split
    · exact .inr (enters_upsertReverse c ip entry)
    · exact .inl rfl
  · exact .inr (enters_upsertReverse c ip entry)

theorem Coherent.congr (coherent : Coherent c) (forward : ∀ name, later.ofName name = c.ofName name)
    (reverse : ∀ ip, later.ofIP ip = c.ofIP ip) : Coherent later := by
  refine ⟨fun name ip entry found => ?_, fun ip name => ?_⟩
  · rw [forward] at found
    exact coherent.named name ip entry found
  · rw [Forward, forward, Reverse, reverse]
    exact coherent.mirrored ip name

structure Extends (c later : DNSCache IP) : Prop where
  coherent : Coherent later
  forward : ∀ ip name, c.Forward ip name → later.Forward ip name

theorem extends_updateIPs (coherent : Coherent c) (status : UpdateStatus) (entry : CacheEntry IP)
    (ips : List IP) : Extends c (ips.foldl (updateIP entry) (c, status)).1 := by
  have start : Extends c (c, status).1 := ⟨coherent, fun _ _ pair => pair⟩
  refine List.foldlRecOn ips (updateIP entry) (motive := fun result => Extends c result.1) start ?_
  rintro ⟨later, status⟩ extended ip -
  rcases updateIP_cases later status entry ip with same | enters
  · rw [same]
    exact extended
  · exact ⟨enters.coherent extended.coherent, fun other name pair =>
      enters.forward_iff.mpr (.inr (extended.forward other name pair))⟩

omit [DecidableEq IP] in
/-- A name without addresses may come into the map, which adds no pair. -/
theorem ofName_insert_empty (missing : name ∉ c.forward) (otherName : String) :
    ofName { c with forward := c.forward.insert name ∅ } otherName = c.ofName otherName := by
  rw [ofName_insert]
  split
  case isTrue same =>
    rw [same, ofName, lookup_eq_none.mpr missing]
    rfl
  · rfl

theorem extends_updateWithEntry (coherent : Coherent c) (entry : CacheEntry IP) :
    Extends c (c.updateWithEntry entry).1 := by
  have opened : ∃ start, (if entry.name ∈ c.forward then c
      else { c with forward := c.forward.insert entry.name ∅ }) = start ∧ Coherent start ∧
        ∀ name, start.ofName name = c.ofName name := by
    by_cases known : entry.name ∈ c.forward
    · exact ⟨c, if_pos known, coherent, fun _ => rfl⟩
    · exact ⟨_, if_neg known, coherent.congr (ofName_insert_empty known) fun _ => rfl,
        ofName_insert_empty known⟩
  obtain ⟨start, isStart, coherent, same⟩ := opened
  have extended := extends_updateIPs coherent ⟨false, false⟩ entry entry.ips
  have all : Extends c (start.updateWithEntryIPs entry).1 := by
    refine ⟨extended.coherent, fun ip name pair => extended.forward ip name ?_⟩
    rw [Forward, same]
    exact pair
  unfold updateWithEntry
  rw [isStart]
  dsimp only
  split
  · exact ⟨all.coherent.congr (fun _ => rfl) fun _ => rfl, all.forward⟩
  · exact all

theorem extends_update (coherent : Coherent c) (lookupTime : Time) (name : String) (ips : List IP)
    (ttl : Int) : Extends c (c.update lookupTime name ips ttl).1 :=
  extends_updateWithEntry coherent _

/-! ### Removal -/

section

variable (c : DNSCache IP)

theorem ofName_deleteIP (ip : IP) (other : String) :
    (c.deleteIP name ip).ofName other =
      if other = name then (c.ofName other).erase ip else c.ofName other := by
  unfold deleteIP
  split
  case h_1 missing =>
    split
    case isTrue same =>
      rw [same, ofName, missing]
      exact (erase_of_notMem (notMem_empty ip)).symm
    · rfl
  case h_2 entries found =>
    rw [ofName_insert]
    split
    case isTrue same =>
      rw [same, ofName, found]
      rfl
    · rfl

theorem removeForward_eq (ip : IP) (entry : CacheEntry IP) :
    c.removeForward ip entry = { c with forward := erase c.forward entry.name ip } := by
  unfold removeForward Index.erase
  cases c.forward.lookup entry.name with
  | none => rfl
  | some entries =>
    simp only [AList.keys, List.keys, map_eq_nil_iff, List.isEmpty_iff]
    split
    · rfl
    · rfl

theorem removeReverse_eq (ip : IP) (entry : CacheEntry IP) :
    c.removeReverse ip entry = { c with reverse := erase c.reverse ip entry.name } := by
  unfold removeReverse Index.erase
  cases c.reverse.lookup ip with
  | none => rfl
  | some entries =>
    simp only [AList.keys, List.keys, map_eq_nil_iff, List.isEmpty_iff]
    split
    · rfl
    · rfl

theorem deleteIP_reverse (ip : IP) : (c.deleteIP name ip).reverse = c.reverse := by
  unfold deleteIP
  split
  · rfl
  · rfl

/-- The removal of an entry of a name, as the collections do it. -/
theorem drops_remove (ip : IP) (entry : CacheEntry IP) :
    Drops c ((c.deleteIP entry.name ip).remove ip entry) ip entry.name := by
  refine ⟨fun other => ?_, fun other => ?_⟩
  · rw [remove, removeReverse_eq, removeForward_eq]
    refine getD_erase.trans ?_
    rw [← ofName, ofName_deleteIP]
    split
    · exact erase_erase_self _ ip
    · rfl
  · rw [remove, removeReverse_eq, removeForward_eq]
    refine getD_erase.trans ?_
    rw [deleteIP_reverse]
    rfl

end

/-! ### Collection -/

structure Accounts (c later : DNSCache IP) (recorded : IP → String → Prop) : Prop where
  coherent : Coherent later
  kept : ∀ ip name, c.Forward ip name → later.Forward ip name ∨ recorded ip name

theorem Accounts.refl (coherent : Coherent c) (recorded : IP → String → Prop) :
    Accounts c c recorded :=
  ⟨coherent, fun _ _ pair => .inl pair⟩

theorem Accounts.trans {last : DNSCache IP} {first second recorded : IP → String → Prop}
    (accounts : Accounts c later first) (then_ : Accounts later last second)
    (includesFirst : ∀ ip name, first ip name → recorded ip name)
    (includesSecond : ∀ ip name, second ip name → recorded ip name) : Accounts c last recorded := by
  refine ⟨then_.coherent, fun ip name pair => ?_⟩
  rcases accounts.kept ip name pair with still | isRecorded
  · rcases then_.kept ip name still with still | isRecorded
    · exact .inl still
    · exact .inr (includesSecond ip name isRecorded)
  · exact .inr (includesFirst ip name isRecorded)

theorem Accounts.congr_overLimit {recorded : IP → String → Prop}
    (accounts : Accounts c later recorded) (overLimit : GoSet String) :
    Accounts c { later with overLimit := overLimit } recorded :=
  ⟨accounts.coherent.congr (fun _ => rfl) fun _ => rfl, accounts.kept⟩

theorem accounts_remove (coherent : Coherent c) (ip : IP) (entry : CacheEntry IP) :
    Accounts c ((c.deleteIP entry.name ip).remove ip entry)
      fun other name => other = ip ∧ name = entry.name := by
  have drops := drops_remove c ip entry
  refine ⟨drops.coherent coherent, fun other name pair => ?_⟩
  by_cases this : name = entry.name ∧ other = ip
  · exact .inr this.symm
  · exact .inl (drops.forward_iff.mpr ⟨this, pair⟩)

def Recorded (removed : Removed IP) (ip : IP) (name : String) : Prop :=
  ∃ entry ∈ (removed.lookup ip).getD [], entry.name = name

theorem recorded_append (removed : Removed IP) (ip other : IP) (entry : CacheEntry IP)
    (name : String) :
    Recorded (removed.append ip entry) other name ↔
      Recorded removed other name ∨ other = ip ∧ name = entry.name := by
  unfold Recorded Removed.append
  rw [lookup_insert_if]
  split
  case isTrue same =>
    rw [Option.getD_some, same]
    simp only [mem_append, mem_singleton, or_and_right, exists_or, exists_eq_left, true_and]
    rw [@eq_comm _ name]
  case isFalse different => simp only [different, false_and, or_false]

variable (order : IterationOrder)

/-- The entries of a name that have expired are removed and handed back. -/
theorem accounts_removeExpired (coherent : Coherent c) (name : String)
    (now expireLookupsBefore : Time) :
    let result := c.removeExpired order name (c.ofName name) now expireLookupsBefore
    Accounts c result.1 (fun ip other => other = name ∧ ip ∈ result.2) ∧
      ∀ ip entry, result.2.lookup ip = some entry → entry.name = name := by
  refine List.foldlRecOn (order.visit 0 (c.ofName name).entries) _
    (motive := fun result : DNSCache IP × GoMap IP (CacheEntry IP) =>
      Accounts c result.1 (fun ip other => other = name ∧ ip ∈ result.2) ∧
        ∀ ip entry, result.2.lookup ip = some entry → entry.name = name)
    ⟨Accounts.refl coherent _, fun _ _ found => (nomatch found)⟩ ?_
  rintro ⟨later, removed⟩ ⟨accounts, named⟩ ⟨ip, entry⟩ visited
  dsimp only
  split
  · have isEntry : (c.ofName name).lookup ip = some entry :=
      mem_lookup_iff.mpr ((order.mem_visit _ _ _).mp visited)
    obtain rfl := coherent.named name ip entry isEntry
    refine ⟨accounts.trans (accounts_remove accounts.coherent ip entry) ?_ ?_, ?_⟩
    · rintro other _ ⟨rfl, member⟩
      exact ⟨rfl, (mem_insert _).mpr (.inr member)⟩
    · rintro _ _ ⟨rfl, rfl⟩
      exact ⟨rfl, (mem_insert _).mpr (.inl rfl)⟩
    · intro other found isFound
      rw [lookup_insert_if] at isFound
      split at isFound
      · cases isFound
        rfl
      · exact named other found isFound
  · exact ⟨accounts, named⟩

/-- What is handed back for a name is recorded, beside what has been recorded before. -/
theorem recorded_foldl_append {expired : GoMap IP (CacheEntry IP)}
    (named : ∀ ip entry, expired.lookup ip = some entry → entry.name = name)
    (order : IterationOrder) (removed : Removed IP) (ip : IP) (other : String)
    (isRecorded : Recorded removed ip other ∨ other = name ∧ ip ∈ expired) :
    Recorded ((order.visit 2 expired.entries).foldl
      (fun removed visit => removed.append visit.1 visit.2) removed) ip other := by
  rcases isRecorded with before | ⟨rfl, member⟩
  · exact List.foldlRecOn (order.visit 2 expired.entries) _
      (motive := fun removed => Recorded removed ip other) before fun removed done visit _ =>
        (recorded_append removed visit.1 ip visit.2 other).mpr (.inl done)
  · obtain ⟨entry, found⟩ := lookup_of_mem member
    obtain rfl := named ip entry found
    refine foldl_settles (fun removed => Recorded removed ip entry.name) (fun removed => ?_)
      (fun removed visit done =>
        (recorded_append removed visit.1 ip visit.2 _).mpr (.inl done))
      ((order.mem_visit _ _ _).mpr (mem_lookup_iff.mp found)) removed
    exact (recorded_append removed ip ip entry _).mpr (.inr ⟨rfl, rfl⟩)

/-- The collection of what has expired records what it removes. -/
theorem accounts_cleanupExpiredEntries (coherent : Coherent c) (expires : Time) :
    Accounts c (c.cleanupExpiredEntries order expires).1
      (Recorded (c.cleanupExpiredEntries order expires).2.2) := by
  unfold cleanupExpiredEntries
  split
  · exact Accounts.refl coherent _
  · obtain ⟨forward, reverse⟩ := c.sweep_maps expires (c.sweepRounds expires) ∅
    have sweptName : ∀ name, (c.sweep expires (c.sweepRounds expires) ∅).1.ofName name =
        c.ofName name := fun name => by rw [ofName, forward, ofName]
    have sweptIP : ∀ ip, (c.sweep expires (c.sweepRounds expires) ∅).1.ofIP ip = c.ofIP ip :=
      fun ip => by rw [ofIP, reverse, ofIP]
    have swept : Accounts c (c.sweep expires (c.sweepRounds expires) ∅).1 (Recorded ∅) := by
      refine ⟨coherent.congr sweptName sweptIP, fun ip name pair => .inl ?_⟩
      rw [Forward, sweptName]
      exact pair
    refine List.foldlRecOn _ _ (motive := fun result : DNSCache IP × GoSet String × Removed IP =>
        Accounts c result.1 (Recorded result.2.2)) swept ?_
    rintro ⟨later, affected, removed⟩ accounts name -
    dsimp only
    split
    · exact accounts
    case h_2 entries found =>
      have isEntries : later.ofName name = entries := by
        rw [ofName, found]
        rfl
      subst isEntries
      obtain ⟨expired, named⟩ :=
        accounts_removeExpired order accounts.coherent name later.lastCleanup zeroTime
      exact accounts.trans expired
        (fun ip other before => recorded_foldl_append named order removed ip other (.inl before))
        fun ip other lost => recorded_foldl_append named order removed ip other (.inr lost)

/-- The entries over a limit are removed one by one and recorded. -/
theorem accounts_removeExcess (excess : List (IP × CacheEntry IP)) (removed : Removed IP)
    (coherent : Coherent c) (named : ∀ key ∈ excess, key.2.name = name) :
    let result := excess.foldl (fun (result : DNSCache IP × Removed IP) key =>
      ((result.1.deleteIP name key.1).remove key.1 key.2,
        Removed.append result.2 key.1 key.2)) (c, removed)
    Accounts c result.1 (Recorded result.2) ∧
      ∀ ip other, Recorded removed ip other → Recorded result.2 ip other := by
  refine List.foldlRecOn excess _
    (motive := fun result : DNSCache IP × Removed IP => Accounts c result.1 (Recorded result.2) ∧
      ∀ ip other, Recorded removed ip other → Recorded result.2 ip other)
    ⟨Accounts.refl coherent _, fun _ _ before => before⟩ ?_
  rintro ⟨later, recorded⟩ ⟨accounts, before⟩ ⟨ip, entry⟩ member
  obtain rfl := named _ member
  have grows : ∀ other name, Recorded recorded other name →
      Recorded (recorded.append ip entry) other name :=
    fun other name done => (recorded_append recorded ip other entry name).mpr (.inl done)
  refine ⟨accounts.trans (accounts_remove accounts.coherent ip entry) grows ?_,
    fun other name first => grows other name (before other name first)⟩
  intro other name lost
  exact (recorded_append recorded ip other entry name).mpr (.inr lost)

/-- The collection of what is over a limit records what it removes. -/
theorem accounts_cleanupOverLimitEntries (coherent : Coherent c) :
    Accounts c (c.cleanupOverLimitEntries order).1
      (Recorded (c.cleanupOverLimitEntries order).2.2) := by
  unfold cleanupOverLimitEntries
  split
  · exact Accounts.refl coherent _
  · refine Accounts.congr_overLimit ?_ ∅
    refine List.foldlRecOn _ _ (motive := fun result : DNSCache IP × GoSet String × Removed IP =>
        Accounts c result.1 (Recorded result.2.2)) (Accounts.refl coherent _) ?_
    rintro ⟨later, affected, removed⟩ accounts name -
    dsimp only
    split
    · exact accounts
    case h_2 entries found =>
      split
      · exact accounts
      · have named : ∀ key ∈ (sortedEntries order entries).take
            (entries.entries.length - later.perHostLimit), key.2.name = name := by
          intro key member
          obtain ⟨visit, visited, rfl⟩ := mem_map.mp
            ((mem_insertionSort _).mp (mem_of_mem_take member))
          refine accounts.coherent.named name visit.1 visit.2 ?_
          rw [ofName, found]
          exact mem_lookup_iff.mpr ((order.mem_visit _ _ _).mp visited)
        obtain ⟨excess, before⟩ := accounts_removeExcess _ removed accounts.coherent named
        exact accounts.trans excess before fun _ _ lost => lost

end DNSCache

end Constellation.Fqdn
