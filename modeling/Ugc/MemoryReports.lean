import Ugc.AllocationAccounting
import Ugc.Footprint
import Ugc.Interface
import Ugc.ObjectAlignment

/-!
What the heap reports of itself. Every size it reports is one 64-bit count, cast to
`size_t` in places. Objects are never reclaimed and never overlap, so on a target of at
most 64 bits neither the count nor a cast ever wraps, and the count stays within a factor
of the memory that is really held.
-/
namespace UgcMemoryReports
open ByteExtents ExtentTotals StepRuns RunTallies UgcAllocator UgcHeapSafety UgcFootprint UgcGcHeap
open UgcGcHeapSteps UgcAllocationAccounting UgcInterface
variable {w : Nat} {ι : Type}

/-- The values that `GetMemoryInfo` writes through its pointers. -/
structure MemoryInfo where
  highMemLoadThresholdBytes : BitVec 64
  totalAvailableMemoryBytes : BitVec 64
  lastRecordedMemLoadBytes : BitVec 64
  lastRecordedHeapSizeBytes : BitVec 64
  lastRecordedFragmentationBytes : BitVec 64
  totalCommittedBytes : BitVec 64
  promotedBytes : BitVec 64
  pinnedObjectCount : BitVec 64
  finalizationPendingCount : BitVec 64
  index : BitVec 64
  generation : BitVec 32
  pauseTimePct : BitVec 32
  isCompaction : Bool
  isConcurrent : Bool
  genInfoRaw : BitVec 64
  pauseInfoRaw : BitVec 64

def getMemoryInfo (s : GcHeap w ι) (_kind : Int) : MemoryInfo where
  highMemLoadThresholdBytes := 0
  totalAvailableMemoryBytes := 0
  lastRecordedMemLoadBytes := 0
  lastRecordedHeapSizeBytes := s.allocatedBytes
  lastRecordedFragmentationBytes := 0
  totalCommittedBytes := s.allocatedBytes
  promotedBytes := 0
  pinnedObjectCount := 0
  finalizationPendingCount := 0
  index := 0
  generation := 0
  pauseTimePct := 0
  isCompaction := false
  isConcurrent := false
  genInfoRaw := 0
  pauseInfoRaw := 0

def getTotalBytesInUse (s : GcHeap w ι) : Word w := s.allocatedBytes.setWidth w

def getCurrentObjSize (s : GcHeap w ι) : Word w := s.allocatedBytes.setWidth w

/-- Objects fit the address space together. -/
theorem objects_fit {cfg : Config w} {s : UgcHeapRuns.Heap w ι} (sound : Sound cfg s)
    (nowrap : ∀ b ∈ s.arena.blocks, b.stop < 2 ^ w) : total s.objects < 2 ^ w := by
  have room : total s.objects ≤ 2 ^ w - 1 - 0 := by
    refine total_le_room sound.apart fun o member => ⟨Nat.zero_le _, ?_⟩
    obtain ⟨b, block, placed⟩ := sound.placed o member
    have last := nowrap b block
    have inside := placed.2
    omega
  have pos := Nat.two_pow_pos w
  omega

theorem core_size (build : Build w) (e : Event w ι) : (coreEvent build e).size = requested e := by
  cases e <;> rfl

section Runs
variable [DecidableEq ι] [Fintype ι]

/-- A heap of the core that the heap mirrors has all of its memory accounted for, and
    `handed` bytes of objects. -/
def Backs (build : Build w) (g : GcHeap w ι) (handed : Nat) : Prop :=
  ∃ s lost, Mirrors g s ∧ Sound build.config s ∧
    Accounted build.config s.contexts s.objects s.arena.blocks lost ∧ total s.objects = handed

theorem step_backs (build : Build w) (g : GcHeap w ι) (e : Event w ι) (handed : Nat)
    (backs : Backs build g handed) (contract : ZallocContract (step build g e).arena) :
    Backs build (step build g e) (handed + weigh build (fun _ => true) BitVec.toNat g e) := by
  obtain ⟨s, lost, mirrors, sound, accounted, rfl⟩ := backs
  obtain ⟨object, after⟩ := step_mirrors build mirrors e
  rw [after.arena] at contract
  refine ⟨_, _, after, step_sound build.config s _ sound contract,
    step_accounted sound contract accounted, ?_⟩
  rw [UgcHeapRuns.step_objects, ← object, core_size]
  unfold weigh
  by_cases null : returned build g e = 0#w
  · simp [null]
  · rw [UgcHeapRuns.record_returned _ null, total_cons, if_pos ⟨rfl, null⟩, Nat.add_comm]

theorem run_backs {build : Build w} {answers : List (Word w)} {bytes : Nat → UInt8}
    {events : List (Event w ι)}
    (contract : ZallocContract (run (step build) (initial ⟨answers, [], bytes⟩) events).arena) :
    Backs build (run (step build) (initial ⟨answers, [], bytes⟩) events)
      (handedOut build (fun _ => true) (initial ⟨answers, [], bytes⟩) events) := by
  refine tally_invariant (Backs build) (step_backs build) ?_
    (admitted_of_final (fun g : GcHeap w ι => ZallocContract g.arena)
      (contract_step_back build) contract)
  refine ⟨UgcHeapRuns.initial answers bytes, 0, ⟨fun _ => rfl, rfl⟩,
    initial_sound build.config answers bytes, ?_, rfl⟩
  refine ⟨?_, Nat.le_refl 0, Nat.le_refl 0⟩
  simp [UgcHeapRuns.initial, Arena.blocks, inWindows, spare]

/-- What is reported of a heap, against what `Alloc` and the inline bumps have handed out of
    it and the blocks that it holds. -/
structure Reported (build : Build w) (g : GcHeap w ι) (allocated bumped : Nat) : Prop where
  count : (getTotalAllocatedBytes g).toNat = allocated
  inUse : (getTotalBytesInUse g).toNat = allocated
  objSize : (getCurrentObjSize g).toNat = allocated
  info : ∀ kind, (getMemoryInfo g kind).lastRecordedHeapSizeBytes.toNat = allocated ∧
    (getMemoryInfo g kind).totalCommittedBytes.toNat = allocated
  held : allocated + bumped + g.arena.blocks.length * build.config.header.toNat ≤
    total g.arena.blocks
  bound : total g.arena.blocks ≤
    2 * (allocated + bumped) + g.arena.blocks.length * build.config.header.toNat +
      Fintype.card ι * (build.config.quantum.toNat - build.config.header.toNat)

/-- In every run of calls of `Alloc` and inline bumps on a finite family of contexts. -/
theorem memory_reported (build : Build w) (answers : List (Word w)) (bytes : Nat → UInt8)
    (events : List (Event w ι)) (narrow : w ≤ 64)
    (contract : ZallocContract (run (step build) (initial ⟨answers, [], bytes⟩) events).arena) :
    Reported build (run (step build) (initial ⟨answers, [], bytes⟩) events)
      (handedOut build slowPath (initial ⟨answers, [], bytes⟩) events)
      (handedOut build inlinePath (initial ⟨answers, [], bytes⟩) events) := by
  obtain ⟨s, lost, mirrors, sound, accounted, handed⟩ := run_backs contract
  have count := total_run build ⟨answers, [], bytes⟩ events
  rw [handed_out_inline] at handed
  have fit := objects_fit sound (mirrors.arena ▸ contract.2)
  have wide : 2 ^ w ≤ 2 ^ 64 := Nat.pow_le_pow_right (by decide) narrow
  rw [Nat.mod_eq_of_lt (by omega)] at count
  have cast : (BitVec.setWidth w (getTotalAllocatedBytes
      (run (step build) (initial ⟨answers, [], bytes⟩) events))).toNat =
      handedOut build slowPath (initial ⟨answers, [], bytes⟩) events := by
    rw [BitVec.toNat_setWidth, count, Nat.mod_eq_of_lt (by omega)]
  have balance := accounted.balance
  have charged := accounted.charged
  have windows := in_windows_bound sound
  rw [← mirrors.arena] at balance
  exact ⟨count, cast, cast, fun _ => ⟨count, count⟩, by omega, by omega⟩

end Runs

/-- A refill, a bump, a large object and one without a context on a 32-bit target. -/
def sampleCalls : List (Event 32 Unit) :=
  [.alloc (some ()) 24#32 0#32, .bump () 16#32, .alloc (some ()) 70000#32 0#32,
    .alloc none 40#32 0x60#32]

theorem memory_reported_sample :
    handedOut UgcObjectAlignment.build32 slowPath
        (initial ⟨[4096#32, 131072#32, 262144#32], [], fun _ => 0⟩) sampleCalls = 70064 ∧
      (getTotalBytesInUse (run (step UgcObjectAlignment.build32)
        (initial ⟨[4096#32, 131072#32, 262144#32], [], fun _ => 0⟩) sampleCalls)).toNat =
        handedOut UgcObjectAlignment.build32 slowPath
          (initial ⟨[4096#32, 131072#32, 262144#32], [], fun _ => 0⟩) sampleCalls :=
  ⟨by decide +kernel, (memory_reported UgcObjectAlignment.build32
    [4096#32, 131072#32, 262144#32] (fun _ => 0) sampleCalls (by decide) (by decide +kernel)).inUse⟩

end UgcMemoryReports
