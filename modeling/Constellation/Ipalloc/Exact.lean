/-
This file proves that the hash allocator is a set of addresses, in every run in which no address
with a zone is requested: the free blocks are the maximal runs of addresses that are not
allocated. An address with a zone is taken for one of the range, and takes addresses away that are
never given out.
-/
import Constellation.Ipalloc.Search
import Constellation.Lib.Run

namespace Constellation.Ipalloc

open Ipam (Family)
open Lib List AList Addr HashAllocator

variable {T : Type} {heap : HeapPackage} {family : Family} {start stop : Nat}

/-! ### The set of addresses -/

/-- The allocated addresses of the range, by number. -/
def Allocated (family : Family) (a : HashAllocator T) (n : Nat) : Prop :=
  ofNumber family n ∈ a.allocations
  deriving Decidable

structure MaximalRun (family : Family) (start stop : Nat) (a : HashAllocator T)
    (first last : Nat) : Prop where
  inside : start ≤ first ∧ first ≤ last ∧ last ≤ stop
  free : ∀ n, first ≤ n → n ≤ last → ¬Allocated family a n
  fromStart : first = start ∨ Allocated family a (first - 1)
  toStop : last = stop ∨ Allocated family a (last + 1)

/-- The allocated addresses are in the range, and the free blocks are the longest runs of the
others. -/
structure Exact (family : Family) (start stop : Nat) (a : HashAllocator T) : Prop where
  isStart : a.start = ofNumber family start
  isStop : a.stop = ofNumber family stop
  inRange : ∀ ip ∈ a.allocations, ∃ n, start ≤ n ∧ n ≤ stop ∧ ip = ofNumber family n
  blocks : ∃ runs, Laid family a.availableBlocks runs ∧
    runs.Pairwise (fun run other => run.last + 1 < other.first) ∧
    ∀ first last, (∃ run ∈ runs, run.first = first ∧ run.last = last) ↔
      MaximalRun family start stop a first last

structure Sound (family : Family) (start stop : Nat) (a : HashAllocator T) : Prop where
  isStart : a.start = ofNumber family start
  isStop : a.stop = ofNumber family stop
  inRange : ∀ ip ∈ a.allocations, ∃ n, start ≤ n ∧ n ≤ stop ∧ ip = ofNumber family n
  blocks : ∃ runs, Laid family a.availableBlocks runs ∧ Spaced start stop runs ∧
    ∀ n, Available runs n ↔ start ≤ n ∧ n ≤ stop ∧ ¬Allocated family a n

variable {a : HashAllocator T}

/-- Blocks with gaps between them that hold the free addresses are the longest runs of them. -/
theorem maximalRun_iff {runs : List Run} (spaced : Spaced start stop runs)
    (available : ∀ n, Available runs n ↔ start ≤ n ∧ n ≤ stop ∧ ¬Allocated family a n)
    (first last : Nat) :
    (∃ run ∈ runs, run.first = first ∧ run.last = last) ↔
      MaximalRun family start stop a first last := by
  -- An address next to a block is in no other block.
  have beside : ∀ run ∈ runs, ∀ n, n + 1 = run.first ∨ n = run.last + 1 → ¬Available runs n := by
    rintro run member n side ⟨other, otherMember, lower, upper⟩
    have inside := spaced.inside run member
    obtain ⟨front, back, rfl⟩ := append_of_mem member
    obtain ⟨-, -, frontRun, runBack⟩ := (spaced_middle_iff [run]).mp spaced
    rcases mem_append.mp otherMember with inFront | inBack
    · have gap := frontRun other inFront run (.head _)
      omega
    · rcases mem_cons.mp inBack with rfl | inBack
      · omega
      · have gap := runBack run (.head _) other inBack
        omega
  constructor
  · rintro ⟨run, member, rfl, rfl⟩
    have inside := spaced.inside run member
    have free : ∀ n, run.first ≤ n → n ≤ run.last → ¬Allocated family a n :=
      fun n lower upper => ((available n).mp ⟨run, member, lower, upper⟩).2.2
    refine ⟨inside, free, ?_, ?_⟩
    · rw [Classical.or_iff_not_imp_left]
      intro later
      by_contra notAllocated
      exact beside run member (run.first - 1) (by omega)
        ((available _).mpr ⟨by omega, by omega, notAllocated⟩)
    · rw [Classical.or_iff_not_imp_left]
      intro earlier
      by_contra notAllocated
      exact beside run member (run.last + 1) (by omega)
        ((available _).mpr ⟨by omega, by omega, notAllocated⟩)
  · rintro ⟨inside, free, fromStart, toStop⟩
    obtain ⟨run, member, lower, upper⟩ := (available first).mpr
      ⟨inside.1, by omega, free first le_rfl inside.2.1⟩
    have inBlock : ∀ n, run.first ≤ n → n ≤ run.last → ¬Allocated family a n :=
      fun n lower upper => ((available n).mp ⟨run, member, lower, upper⟩).2.2
    have within := spaced.inside run member
    have isFirst : run.first = first := by
      rcases fromStart with rfl | allocated
      · omega
      · by_contra earlier
        exact inBlock (first - 1) (by omega) (by omega) allocated
    have reaches : last ≤ run.last := by
      by_contra shorter
      exact beside run member (run.last + 1) (by omega)
        ((available _).mpr ⟨by omega, by omega, free _ (by omega) (by omega)⟩)
    refine ⟨run, member, isFirst, ?_⟩
    rcases toStop with rfl | allocated
    · omega
    · by_contra longer
      exact inBlock (last + 1) (by omega) (by omega) allocated

theorem Sound.exact (sound : Sound family start stop a) :
    Exact family start stop a := by
  obtain ⟨runs, laid, spaced, available⟩ := sound.blocks
  exact ⟨sound.isStart, sound.isStop, sound.inRange, runs, laid, spaced.apart,
    maximalRun_iff spaced available⟩

/-! ### Runs -/

inductive Action (T : Type)
  | allocAny (val : T)
  | alloc (ip : Addr) (val : T)
  | update (ip : Addr) (val : T)
  | free (ip : Addr)

/-- A call that fails leaves the allocator as it is. -/
def step (heap : HeapPackage) (a : HashAllocator T) : Action T → HashAllocator T
  | .allocAny val => match a.allocAny heap val with
    | .ok (_, after) => after
    | .error _ => a
  | .alloc ip val => (a.alloc heap ip val).toOption.getD a
  | .update ip val => (a.update ip val).toOption.getD a
  | .free ip => (a.free heap ip).toOption.getD a

def Action.Zoneless : Action T → Prop
  | .alloc ip _ => ip.zone = ""
  | _ => True

instance : (action : Action T) → Decidable action.Zoneless
  | .alloc ip _ => inferInstanceAs (Decidable (ip.zone = ""))
  | .allocAny _ | .update _ _ | .free _ => isTrue trivial

/-- No address with a zone is requested, and there are fewer free blocks than rounds of a search. -/
def Plain (a : HashAllocator T) (action : Action T) : Prop :=
  action.Zoneless ∧ a.availableBlocks.slice.length < BlockList.maxIter
  deriving Decidable

def InRange (family : Family) (start stop : Nat) (ip : Addr) : Prop :=
  ∃ n, start ≤ n ∧ n ≤ stop ∧ ip = ofNumber family n

/-- A call does what it does to a set of addresses. -/
def Served (heap : HeapPackage) (family : Family) (start stop : Nat) (a : HashAllocator T) :
    Action T → Prop
  | .allocAny val =>
    (∀ failure, a.allocAny heap val = .error failure →
      failure = .errFull ∧ ∀ n, start ≤ n → n ≤ stop → Allocated family a n) ∧
    ∀ ip after, a.allocAny heap val = .ok (ip, after) →
      InRange family start stop ip ∧ ip ∉ a.allocations ∧
        after.allocations = a.allocations.insert ip val
  | .alloc ip val =>
    ((∃ after, a.alloc heap ip val = .ok after) ↔
      InRange family start stop ip ∧ ip ∉ a.allocations) ∧
    ∀ after, a.alloc heap ip val = .ok after → after.allocations = a.allocations.insert ip val
  | .update ip val =>
    ((∃ after, a.update ip val = .ok after) ↔ ip ∈ a.allocations) ∧
    ∀ after, a.update ip val = .ok after → after.allocations = a.allocations.insert ip val
  | .free ip =>
    ((∃ after, a.free heap ip = .ok after) ↔ ip ∈ a.allocations) ∧
    ∀ after, a.free heap ip = .ok after → after.allocations = a.allocations.erase ip

/-- The statistics are the numbers of allocated and of free addresses of the range. -/
def Counted (family : Family) (start stop : Nat) (a : HashAllocator T) : Prop :=
  a.stats = (((Finset.Icc start stop).filter (Allocated family a)).card,
    (((Finset.Icc start stop).filter (fun n => ¬Allocated family a n)).card : Int))

/-! ### The calls keep the set -/

variable {ip : Addr}

/-- An address without a zone compares as being in the range exactly if it is an address of the
range. -/
theorem inRange_iff (zoneless : ip.zone = "") (ordered : start ≤ stop)
    (fits : stop < 2 ^ family.bitLen) :
    ¬(ip.compare (ofNumber family start) = .lt ∨ ip.compare (ofNumber family stop) = .gt) ↔
      InRange family start stop ip := by
  have bound : start < 2 ^ family.bitLen := ordered.trans_lt fits
  constructor
  · intro compared
    rw [not_or] at compared
    have sameLength : ip.bitLen = family.bitLen := by
      rcases Nat.lt_trichotomy ip.bitLen family.bitLen with shorter | same | longer
      · rw [← bitLen_ofNumber bound] at shorter
        exact absurd (compare_of_bitLen_lt shorter) compared.1
      · exact same
      · rw [← bitLen_ofNumber fits] at longer
        exact absurd (compare_of_lt_bitLen longer) compared.2
    obtain ⟨boundIP, isNumber⟩ := eq_ofNumber zoneless sameLength
    rw [isNumber, compare_eq_lt_iff boundIP bound, compare_eq_gt_iff boundIP fits,
      Nat.not_lt, Nat.not_lt] at compared
    exact ⟨ip.number, compared.1, compared.2, isNumber⟩
  · rintro ⟨n, lower, upper, rfl⟩
    have boundN : n < 2 ^ family.bitLen := upper.trans_lt fits
    rw [compare_eq_lt_iff boundN bound, compare_eq_gt_iff boundN fits]
    omega

variable {n : Nat} {initial : HashAllocator T}

theorem allocated_taken (bound : n < 2 ^ family.bitLen) (val : T) (blocks : BlockList) (k : Nat) :
    Allocated family (a.taken (ofNumber family n) val blocks) k ↔ k = n ∨ Allocated family a k := by
  show _ ∈ a.allocations.insert _ _ ↔ _
  rw [mem_insert, eq_comm, ofNumber_inj bound, eq_comm]
  rfl

section

variable (sound : Sound family start stop a)
include sound

theorem Sound.slice_ne_nil (above : start ≤ n) (below : n ≤ stop) (free : ¬Allocated family a n) :
    a.availableBlocks.slice ≠ [] := by
  obtain ⟨runs, laid, -, available⟩ := sound.blocks
  obtain ⟨run, member, -⟩ := (available n).mpr ⟨above, below, free⟩
  exact ne_nil_of_mem (laid.perm.mem_iff.mpr (pointer_mem member))

theorem Sound.serves {call : Except Failure (HashAllocator T)} {fit : Prop} {later : GoMap Addr T}
    (works : fit → ∃ after, call = .ok after ∧ after.allocations = later ∧
      Sound family start stop after)
    (fails : ¬fit → ∃ failure, call = .error failure) :
    (((∃ after, call = .ok after) ↔ fit) ∧ ∀ after, call = .ok after → after.allocations = later) ∧
      Sound family start stop (call.toOption.getD a) := by
  by_cases isFit : fit
  · obtain ⟨after, rfl, isLater, soundAfter⟩ := works isFit
    refine ⟨⟨⟨fun _ => isFit, fun _ => ⟨after, rfl⟩⟩, fun other isOk => ?_⟩, soundAfter⟩
    cases isOk
    exact isLater
  · obtain ⟨failure, rfl⟩ := fails isFit
    exact ⟨⟨⟨nofun, fun fits => absurd fits isFit⟩, nofun⟩, sound⟩

/-- Giving an allocated address another value changes no block. -/
theorem Sound.updated (member : ip ∈ a.allocations) (val : T) :
    Sound family start stop { a with allocations := a.allocations.insert ip val } := by
  have same : ∀ other, other ∈ a.allocations.insert ip val ↔ other ∈ a.allocations := by
    intro other
    rw [mem_insert]
    exact ⟨fun cases => cases.elim (fun isIP => isIP ▸ member) id, .inr⟩
  obtain ⟨runs, laid, spaced, available⟩ := sound.blocks
  refine ⟨sound.isStart, sound.isStop, ?_, runs, laid, spaced, ?_⟩
  · exact fun other listed => sound.inRange other ((same other).mp listed)
  · intro n
    rw [available]
    show _ ↔ _ ∧ _ ∧ ¬(_ ∈ _)
    rw [same]
    rfl

theorem Sound.update_served (ip : Addr) (val : T) :
    Served heap family start stop a (.update ip val) ∧
      Sound family start stop (step heap a (.update ip val)) :=
  sound.serves (fun member => ⟨_, if_pos member, rfl, sound.updated member val⟩)
    fun absent => ⟨_, if_neg absent⟩

variable (fits : stop < 2 ^ family.bitLen)
include fits

/-- Allocating any other address fails. -/
theorem Sound.alloc_error (ordered : start ≤ stop) (zoneless : ip.zone = "")
    (unfit : ¬(InRange family start stop ip ∧ ip ∉ a.allocations)) (val : T) :
    ∃ failure, a.alloc heap ip val = .error failure := by
  have compared := inRange_iff zoneless ordered fits
  unfold HashAllocator.alloc
  rw [sound.isStart, sound.isStop]
  split
  case isTrue outside => exact ⟨_, rfl⟩
  case isFalse inside =>
    rw [if_pos]
    · exact ⟨_, rfl⟩
    · by_contra free
      exact unfit ⟨compared.mp inside, free⟩

theorem Sound.counted (ordered : start ≤ stop) :
    Counted family start stop a := by
  have numbers : (Finset.Icc start stop).filter (Allocated family a)
      = (a.allocations.keys.map number).toFinset := by
    ext n
    rw [Finset.mem_filter, Finset.mem_Icc, mem_toFinset, mem_map]
    constructor
    · rintro ⟨⟨above, below⟩, allocated⟩
      exact ⟨ofNumber family n, allocated, number_ofNumber (below.trans_lt fits)⟩
    · rintro ⟨ip, member, rfl⟩
      obtain ⟨n, above, below, rfl⟩ := sound.inRange ip member
      rw [number_ofNumber (below.trans_lt fits)]
      exact ⟨⟨above, below⟩, member⟩
  have distinct : (a.allocations.keys.map number).Nodup := by
    refine List.Nodup.map_on ?_ a.allocations.keys_nodup
    intro ip member other member' same
    obtain ⟨n, -, below, rfl⟩ := sound.inRange ip member
    obtain ⟨k, -, below', rfl⟩ := sound.inRange other member'
    rw [number_ofNumber (below.trans_lt fits),
      number_ofNumber (Nat.lt_of_le_of_lt below' fits)] at same
    rw [same]
  have allocated : a.allocations.entries.length
      = ((Finset.Icc start stop).filter (Allocated family a)).card := by
    rw [numbers, toFinset_card_of_nodup distinct, length_map]
    exact (length_map _).symm
  have split := Finset.card_filter_add_card_filter_not (s := Finset.Icc start stop)
    (p := Allocated family a)
  rw [Nat.card_Icc] at split
  unfold Counted stats
  rw [sound.isStart, sound.isStop, number_ofNumber fits,
    number_ofNumber (ordered.trans_lt fits), allocated]
  refine congrArg₂ Prod.mk rfl ?_
  omega

variable (lawful : heap.Lawful)
include lawful

theorem Sound.taken (above : start ≤ n) (below : n ≤ stop) (free : ¬Allocated family a n)
    (val : T) :
    ∃ blocks, a.availableBlocks.take heap (ofNumber family n) = .ok blocks ∧
      Sound family start stop (a.taken (ofNumber family n) val blocks) := by
  obtain ⟨runs, laid, spaced, available⟩ := sound.blocks
  have bound : n < 2 ^ family.bitLen := below.trans_lt fits
  obtain ⟨blocks, later, taken, laidAfter, spacedAfter, availableAfter⟩ :=
    take_of_available lawful laid spaced fits ((available n).mpr ⟨above, below, free⟩)
  refine ⟨blocks, taken, sound.isStart, sound.isStop, ?_, later, laidAfter, spacedAfter, ?_⟩
  · intro ip member
    rcases (mem_insert _).mp member with rfl | before
    · exact ⟨n, above, below, rfl⟩
    · exact sound.inRange ip before
  · intro k
    rw [availableAfter, available, allocated_taken bound, not_or]
    tauto

theorem Sound.freed (member : ip ∈ a.allocations)
    (few : a.availableBlocks.slice.length < BlockList.maxIter) :
    ∃ after, a.free heap ip = .ok after ∧ after.allocations = a.allocations.erase ip ∧
      Sound family start stop after := by
  obtain ⟨runs, laid, spaced, available⟩ := sound.blocks
  obtain ⟨n, above, below, rfl⟩ := sound.inRange ip member
  have bound : n < 2 ^ family.bitLen := below.trans_lt fits
  have absent : ¬Available runs n := fun free => ((available n).mp free).2.2 member
  obtain ⟨blocks, later, put, laidAfter, spacedAfter, availableAfter⟩ :=
    put_of_absent lawful fits laid spaced above below absent few
  refine ⟨{ a with
    allocations := a.allocations.erase (ofNumber family n)
    peakAllocations := if (a.allocations.erase (ofNumber family n)).entries.length * 3
      < a.peakAllocations then (a.allocations.erase (ofNumber family n)).entries.length
      else a.peakAllocations
    availableBlocks := blocks }, ?_, rfl, sound.isStart, sound.isStop, ?_, later, laidAfter,
    spacedAfter, ?_⟩
  · unfold free
    rw [if_neg (not_not.mpr member), put]
    rfl
  · intro ip stillMember
    exact sound.inRange ip (mem_erase.mp stillMember).2
  · intro k
    have remaining : ofNumber family k ∈ a.allocations.erase (ofNumber family n) ↔
        k ≠ n ∧ Allocated family a k := by
      rw [mem_erase, Ne, eq_comm, ofNumber_inj bound, eq_comm]
      rfl
    rw [availableAfter, available]
    show _ ↔ _ ∧ _ ∧ ¬(_ ∈ _)
    rw [remaining]
    by_cases same : k = n
    · subst same
      simp [above, below]
    · simp [same]

/-- Allocating any address: the range is full, or a free address is returned. -/
theorem Sound.allocAny (val : T) :
    (a.allocAny heap val = .error .errFull ∧ ∀ n, start ≤ n → n ≤ stop → Allocated family a n) ∨
    ∃ n blocks, start ≤ n ∧ n ≤ stop ∧ ¬Allocated family a n ∧
      a.allocAny heap val = .ok (ofNumber family n, a.taken (ofNumber family n) val blocks) ∧
      Sound family start stop (a.taken (ofNumber family n) val blocks) := by
  cases isSlice : a.availableBlocks.slice with
  | nil =>
    left
    refine ⟨?_, ?_⟩
    · unfold HashAllocator.allocAny
      rw [isSlice]
    · intro n above below
      by_contra free
      exact sound.slice_ne_nil above below free isSlice
  | cons first rest =>
    right
    obtain ⟨runs, laid, spaced, available⟩ := sound.blocks
    have inSlice : first ∈ a.availableBlocks.slice := by
      rw [isSlice]
      exact .head _
    obtain ⟨run, member, rfl⟩ := mem_map.mp (laid.perm.mem_iff.mp inSlice)
    have ordered := (spaced.inside run member).2.1
    obtain ⟨above, below, free⟩ :=
      (available run.first).mp ⟨run, member, le_rfl, ordered⟩
    obtain ⟨blocks, taken, soundAfter⟩ := sound.taken fits lawful above below free val
    refine ⟨run.first, blocks, above, below, free, ?_, soundAfter⟩
    unfold HashAllocator.allocAny
    rw [isSlice]
    dsimp only
    rw [laid.fromIP_eq member, taken]
    rfl

theorem Sound.alloc (ordered : start ≤ stop) (zoneless : ip.zone = "")
    (inRange : InRange family start stop ip) (free : ip ∉ a.allocations) (val : T) :
    ∃ blocks, a.alloc heap ip val = .ok (a.taken ip val blocks) ∧
      Sound family start stop (a.taken ip val blocks) := by
  have compared := (inRange_iff zoneless ordered fits).mpr inRange
  obtain ⟨n, above, below, rfl⟩ := inRange
  obtain ⟨blocks, taken, soundAfter⟩ := sound.taken fits lawful above below free val
  refine ⟨blocks, ?_, soundAfter⟩
  unfold alloc
  rw [sound.isStart, sound.isStop, if_neg compared, if_neg free,
    if_neg (sound.slice_ne_nil above below free), taken]
  rfl

theorem Sound.allocAny_served (val : T) :
    Served heap family start stop a (.allocAny val) ∧
      Sound family start stop (step heap a (.allocAny val)) := by
  rcases sound.allocAny fits lawful val with ⟨failed, full⟩ | ⟨n, blocks, above, below, free,
    result, soundAfter⟩
  · rw [Served, step, failed]
    refine ⟨⟨fun failure isFailure => ?_, nofun⟩, sound⟩
    cases isFailure
    exact ⟨rfl, full⟩
  · rw [Served, step, result]
    refine ⟨⟨nofun, fun ip after isOk => ?_⟩, soundAfter⟩
    cases isOk
    exact ⟨⟨n, above, below, rfl⟩, free, rfl⟩

theorem Sound.alloc_served (ordered : start ≤ stop) (zoneless : ip.zone = "") (val : T) :
    Served heap family start stop a (.alloc ip val) ∧
      Sound family start stop (step heap a (.alloc ip val)) := by
  refine sound.serves (fun fit => ?_) fun unfit =>
    sound.alloc_error fits ordered zoneless unfit val
  obtain ⟨blocks, result, soundAfter⟩ := sound.alloc fits lawful ordered zoneless fit.1 fit.2 val
  exact ⟨_, result, rfl, soundAfter⟩

theorem Sound.free_served (ip : Addr)
    (few : a.availableBlocks.slice.length < BlockList.maxIter) :
    Served heap family start stop a (.free ip) ∧
      Sound family start stop (step heap a (.free ip)) :=
  sound.serves (fun member => sound.freed fits lawful member few)
    fun absent => ⟨_, if_pos absent⟩

theorem Sound.served (ordered : start ≤ stop) {action : Action T}
    (plain : Plain a action) :
    Served heap family start stop a action ∧ Sound family start stop (step heap a action) := by
  cases action with
  | allocAny val => exact sound.allocAny_served fits lawful val
  | alloc ip val => exact sound.alloc_served fits lawful ordered plain.1 val
  | update ip val => exact sound.update_served ip val
  | free ip => exact sound.free_served fits lawful ip plain.2

end

theorem sound_newHashAllocator (ordered : start ≤ stop)
    (created : newHashAllocator (ofNumber family start) (ofNumber family stop) = some initial) :
    Sound family start stop initial := by
  unfold newHashAllocator at created
  split at created
  · cases created
  · split at created
    · cases created
    · split at created
      · cases created
      · cases created
        refine ⟨rfl, rfl, ?_, [⟨0, start, stop⟩], ?_, ?_, ?_⟩
        · exact fun ip member => absurd member (notMem_empty _)
        · refine ⟨.refl _, nodup_singleton _, ?_, ⟨rfl, rfl, trivial⟩, ?_⟩
          · simp
          · exact forall_mem_singleton.mpr rfl
        · exact spaced_single.mpr ⟨le_rfl, ordered, le_rfl⟩
        · intro n
          rw [available_single]
          exact ⟨fun between => ⟨between.1, between.2, notMem_empty _⟩,
            fun free => ⟨free.1, free.2.1⟩⟩

theorem bounds_of_created {startIP stopIP : Addr} (zonelessStart : startIP.zone = "")
    (zonelessStop : stopIP.zone = "") (created : newHashAllocator startIP stopIP = some initial) :
    ∃ family, startIP.bitLen = Family.bitLen family ∧ startIP = ofNumber family startIP.number ∧
      stopIP = ofNumber family stopIP.number ∧
      startIP.number ≤ stopIP.number ∧ stopIP.number < 2 ^ family.bitLen := by
  unfold newHashAllocator at created
  cases startIP with
  | none => cases created
  | some ip =>
    split at created
    · cases created
    · split at created
      · cases created
      case isFalse sameLength =>
        split at created
        · cases created
        case isFalse notAfter =>
          have lengths : bitLen (some ip) = ip.family.bitLen := rfl
          rw [not_not] at sameLength
          obtain ⟨boundStart, isStart⟩ := eq_ofNumber zonelessStart lengths
          obtain ⟨boundStop, isStop⟩ :=
            eq_ofNumber zonelessStop (sameLength.symm.trans lengths)
          refine ⟨ip.family, lengths, isStart, isStop, ?_, boundStop⟩
          rw [isStart, isStop, compare_eq_gt_iff boundStart boundStop] at notAfter
          exact Nat.not_lt.mp notAfter

/-- In every run in which no address with a zone is requested, on a range between addresses
without a zone, the allocator is the set of the allocated addresses and every call does what it
does to the set. -/
theorem run_exact (heap : HeapPackage) (lawful : heap.Lawful) (startIP stopIP : Addr)
    (zonelessStart : startIP.zone = "") (zonelessStop : stopIP.zone = "")
    (initial : HashAllocator T)
    (created : newHashAllocator startIP stopIP = some initial)
    (actions : List (Action T)) (meets : Meets (step heap) Plain initial actions) :
    ∃ family, startIP.bitLen = Family.bitLen family ∧
      Exact family startIP.number stopIP.number (run (step heap) initial actions) ∧
      Counted family startIP.number stopIP.number (run (step heap) initial actions) ∧
      ∀ action, Plain (run (step heap) initial actions) action →
        Served heap family startIP.number stopIP.number (run (step heap) initial actions)
          action := by
  obtain ⟨family, length, isStart, isStop, ordered, fits⟩ :=
    bounds_of_created zonelessStart zonelessStop created
  rw [isStart, isStop] at created
  have sound : Sound family startIP.number stopIP.number (run (step heap) initial actions) :=
    meets.invariant (Sound family startIP.number stopIP.number)
      (fun a action sound plain => (sound.served fits lawful ordered plain).2)
      (sound_newHashAllocator ordered created)
  refine ⟨family, length, sound.exact, sound.counted fits ordered, ?_⟩
  exact fun action plain => (sound.served fits lawful ordered plain).1

/-! ### The heap of the standard library -/

namespace HeapPackage

section

variable (less : Nat → Nat → Bool)

def lessAt (slice : List Nat) (i j : Nat) : Bool := less (slice.getD i 0) (slice.getD j 0)

/-- The loop is bounded by a number of rounds, as that of `down` is. -/
def up : Nat → List Nat → Nat → List Nat
  | 0, slice, _ => slice
  | rounds + 1, slice, j =>
    let i := (j - 1) / 2
    if i = j || !lessAt less slice j i then slice else up rounds (slice.swap i j) i

/-- Of a left child and the right child next to it. -/
def lesserChild (slice : List Nat) (left : Nat) : Nat :=
  if left + 1 < slice.length && lessAt less slice (left + 1) left then left + 1 else left

/-- Returns where the element comes to. -/
def down : Nat → List Nat → Nat → List Nat × Nat
  | 0, slice, i => (slice, i)
  | rounds + 1, slice, i =>
    let left := 2 * i + 1
    let j := lesserChild less slice left
    if slice.length ≤ left || !lessAt less slice j i then (slice, i)
    else down rounds (slice.swap i j) j

def fixed (slice : List Nat) (i : Nat) : List Nat :=
  let (later, last) := down less slice.length slice i
  if i < last then later else up less slice.length later i

/-- The last element takes the place of the removed one. -/
def removed (slice : List Nat) (i : Nat) : List Nat :=
  if slice.length = i + 1 then slice.dropLast
  else fixed less (slice.dropLast.set i (slice.getLastD 0)) i

theorem up_perm (rounds : Nat) (slice : List Nat) (j : Nat) :
    (up less rounds slice j).Perm slice := by
  induction rounds generalizing slice j with
  | zero => exact .refl _
  | succ rounds inductionHypothesis =>
    unfold up
    dsimp only
    split
    · exact .refl _
    · exact (inductionHypothesis _ _).trans (swap_perm _ _ _)

theorem down_perm (rounds : Nat) (slice : List Nat) (i : Nat) :
    (down less rounds slice i).1.Perm slice := by
  induction rounds generalizing slice i with
  | zero => exact .refl _
  | succ rounds inductionHypothesis =>
    unfold down
    dsimp only
    split
    · exact .refl _
    · exact (inductionHypothesis _ _).trans (swap_perm _ _ _)

theorem fixed_perm (slice : List Nat) (i : Nat) : (fixed less slice i).Perm slice := by
  unfold fixed
  dsimp only
  split
  · exact down_perm ..
  · exact (up_perm ..).trans (down_perm ..)

theorem removed_perm {slice : List Nat} {i : Nat} (inside : i < slice.length) :
    (removed less slice i).Perm (slice.eraseIdx i) := by
  obtain ⟨front, last, rfl⟩ := eq_nil_or_concat' slice |>.resolve_left (by rintro rfl; cases inside)
  unfold removed
  simp only [length_append, length_singleton, Nat.add_right_cancel_iff, dropLast_concat] at inside ⊢
  split
  case isTrue isLast =>
    rw [← isLast, eraseIdx_append_of_length_le le_rfl]
    simp
  case isFalse inner =>
    have within : i < front.length := by omega
    rw [eraseIdx_append_of_lt_length within]
    refine (fixed_perm ..).trans ((set_perm_cons_eraseIdx within _).trans ?_)
    simpa using (perm_append_singleton last _).symm

end

end HeapPackage

/-- The package `container/heap`. -/
def containerHeap : HeapPackage where
  push less slice pointer :=
    HeapPackage.up less (slice.length + 1) (slice ++ [pointer]) slice.length
  fix := HeapPackage.fixed
  remove := HeapPackage.removed

theorem containerHeap_lawful : containerHeap.Lawful where
  push_perm less _ _ := (HeapPackage.up_perm less ..).trans (perm_append_singleton _ _)
  fix_perm less _ _ _ := HeapPackage.fixed_perm less ..
  remove_perm less _ _ := HeapPackage.removed_perm less

/-! ### Runs with and without a zone -/

def linkLocal (last : Fin 16) (zone : String) : Addr :=
  some ⟨.ipv6, 0xfe80 * 2 ^ 112 + last, zone, by
    have small := last.isLt
    show _ < 2 ^ 128
    omega, by rintro ⟨⟩⟩

def nineAddresses : HashAllocator Unit where
  start := linkLocal 1 ""
  stop := linkLocal 9 ""
  peakAllocations := 0
  allocations := ∅
  availableBlocks :=
    { memory := fun _ => LinkedBlock.calcSize
        { fromIP := linkLocal 1 "", toIP := linkLocal 9 "", size := 0, prev := none, next := none }
      fresh := 1
      slice := [0] }

/-- An address in the middle and another one are allocated, and the first of them is freed. -/
def plainCalls : List (Action Unit) :=
  [.alloc (linkLocal 5 "") (), .allocAny (), .free (linkLocal 5 "")]

/-- A run without a zone, in which a block is split and two are merged. -/
theorem plainCalls_exact :
    Meets (step containerHeap) Plain nineAddresses plainCalls ∧
    ∃ family, (linkLocal 1 "").bitLen = Family.bitLen family ∧
      Exact family (linkLocal 1 "").number (linkLocal 9 "").number
        (run (step containerHeap) nineAddresses plainCalls) ∧
      Counted family (linkLocal 1 "").number (linkLocal 9 "").number
        (run (step containerHeap) nineAddresses plainCalls) ∧
      ∀ action, Plain (run (step containerHeap) nineAddresses plainCalls) action →
        Served containerHeap family (linkLocal 1 "").number (linkLocal 9 "").number
          (run (step containerHeap) nineAddresses plainCalls) action :=
  have meets : Meets (step containerHeap) Plain nineAddresses plainCalls := by decide +kernel
  ⟨meets, run_exact containerHeap containerHeap_lawful (linkLocal 1 "") (linkLocal 9 "") rfl rfl
    nineAddresses rfl plainCalls meets⟩

/-- After an address with a zone has been allocated, the address without the zone is an address of
the range that is not allocated and can not be allocated. -/
theorem zone_loses_address :
    newHashAllocator (linkLocal 1 "") (linkLocal 9 "") = some nineAddresses ∧
    linkLocal 5 "" ∉
      (step containerHeap nineAddresses (.alloc (linkLocal 5 "eth0") ())).allocations ∧
    (step containerHeap nineAddresses (.alloc (linkLocal 5 "eth0") ())).alloc containerHeap
      (linkLocal 5 "") () = .error .errInUse := by
  refine ⟨rfl, by decide +kernel, ?_⟩
  rfl

end Constellation.Ipalloc
