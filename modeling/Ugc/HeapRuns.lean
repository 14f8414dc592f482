import Mathlib.Logic.Function.Basic
import Ugc.ExactAllocation
import Ugc.StepRuns

/-!
Whole runs of the heap: any family of allocation contexts, calls of
`ugc_core_alloc` with a context or with none, the runtime's inline bumps and
the mutator's byte writes, in any order. The heap also remembers every object
handed out, which the code forgets. `step_effect` says once what a step does;
every invariant of the heap is derived from it.
-/
namespace UgcHeapRuns
open ByteExtents StepRuns UgcAllocator UgcExactAllocation
variable {w : Nat} {ι : Type} [DecidableEq ι]

structure Heap (w : Nat) (ι : Type) where
  contexts : ι → Window w
  objects : List Extent
  arena : Arena w

inductive Event (w : Nat) (ι : Type) where
  | alloc (context : Option ι) (size : Word w) (bypass : Bool)
  | bump (context : ι) (size : Word w)
  | write (address : Nat) (value : UInt8)

def Event.size : Event w ι → Word w
  | .alloc _ size _ => size
  | .bump _ size => size
  | .write _ _ => 0#w

def initial (answers : List (Word w)) (bytes : Nat → UInt8) : Heap w ι :=
  ⟨fun _ => ⟨0#w, 0#w⟩, [], ⟨answers, [], bytes⟩⟩

def coreAlloc (cfg : Config w) (s : Heap w ι) (context : Option ι) (size : Word w)
    (bypass : Bool) : Served w :=
  ugcCoreAlloc cfg.quantum (context.map s.contexts) size bypass cfg.header s.arena

def record (object size : Word w) (objects : List Extent) : List Extent :=
  if object = 0#w then objects else ⟨object.toNat, size.toNat⟩ :: objects

/-- The contexts after a call has written back the window of the one it was given. -/
def writeBack (contexts : ι → Window w) : Option ι → Option (Window w) → ι → Window w
  | some i, some window => Function.update contexts i window
  | _, _ => contexts

def step (cfg : Config w) (s : Heap w ι) : Event w ι → Heap w ι
  | .alloc context size bypass =>
    let served := coreAlloc cfg s context size bypass
    { contexts := writeBack s.contexts context served.window
      objects := record served.object size s.objects
      arena := served.arena }
  | .bump i size =>
    match inlineBump (s.contexts i) size with
    | some (object, window) =>
      { contexts := Function.update s.contexts i window
        objects := record object size s.objects
        arena := s.arena }
    | none => s
  | .write address value =>
    { s with arena := { s.arena with bytes := Function.update s.arena.bytes address value } }

/-- The pointer an event hands out, null if none. -/
def returned (cfg : Config w) (s : Heap w ι) : Event w ι → Word w
  | .alloc context size bypass => (coreAlloc cfg s context size bypass).object
  | .bump i size => ((inlineBump (s.contexts i) size).map Prod.fst).getD 0#w
  | .write _ _ => 0#w

theorem write_back_same (contexts : ι → Window w) (context : Option ι) :
    writeBack contexts context (context.map contexts) = contexts := by
  cases context with
  | none => rfl
  | some i => exact Function.update_eq_self i contexts

theorem step_objects (cfg : Config w) (s : Heap w ι) (e : Event w ι) :
    (step cfg s e).objects = record (returned cfg s e) e.size s.objects := by
  cases e with
  | alloc context size bypass => rfl
  | bump i size =>
    cases bumped : inlineBump (s.contexts i) size <;>
      simp [step, returned, Event.size, record, bumped]
  | write address value => simp [step, returned, record]

@[simp] theorem record_null (size : Word w) (objects : List Extent) :
    record 0#w size objects = objects := if_pos rfl

theorem record_returned {object size : Word w} (objects : List Extent) (nonnull : object ≠ 0#w) :
    record object size objects = ⟨object.toNat, size.toNat⟩ :: objects := if_neg nonnull

/-- Everything a step can do to the contexts, the objects, the blocks and the bytes. -/
inductive Effect (cfg : Config w) (s : Heap w ι) (e : Event w ι) (t : Heap w ι) : Prop where
  | idle (contexts : t.contexts = s.contexts) (objects : t.objects = s.objects)
      (blocks : t.arena.blocks = s.arena.blocks) (bytes : t.arena.bytes = s.arena.bytes)
  | direct (base size : Nat) (contexts : t.contexts = s.contexts)
      (objects : t.objects = ⟨base + cfg.header.toNat, size⟩ :: s.objects)
      (blocks : t.arena.blocks = ⟨base, size + cfg.header.toNat⟩ :: s.arena.blocks)
      (bytes : t.arena.bytes = fill ⟨base, size + cfg.header.toNat⟩ 0 s.arena.bytes)
  | bump (i : ι) (size : Nat) (window : Window w)
      (live : (s.contexts i).allocPtr ≠ 0#w)
      (fits : (s.contexts i).allocPtr.toNat + size ≤ (s.contexts i).allocLimit.toNat)
      (moved : window.allocPtr.toNat = (s.contexts i).allocPtr.toNat + size)
      (kept : window.allocLimit = (s.contexts i).allocLimit)
      (contexts : t.contexts = Function.update s.contexts i window)
      (objects : t.objects = ⟨(s.contexts i).allocPtr.toNat, size⟩ :: s.objects)
      (blocks : t.arena.blocks = s.arena.blocks) (bytes : t.arena.bytes = s.arena.bytes)
  | refill (i : ι) (base size : Nat) (window : Window w)
      (small : size + cfg.header.toNat ≤ cfg.quantum.toNat)
      (moved : window.allocPtr.toNat = base + cfg.header.toNat + size)
      (ended : window.allocLimit.toNat = base + cfg.quantum.toNat)
      (contexts : t.contexts = Function.update s.contexts i window)
      (objects : t.objects = ⟨base + cfg.header.toNat, size⟩ :: s.objects)
      (blocks : t.arena.blocks = ⟨base, cfg.quantum.toNat⟩ :: s.arena.blocks)
      (bytes : t.arena.bytes = fill ⟨base, cfg.quantum.toNat⟩ 0 s.arena.bytes)
  | write (address : Nat) (value : UInt8) (event : e = .write address value)
      (contexts : t.contexts = s.contexts) (objects : t.objects = s.objects)
      (blocks : t.arena.blocks = s.arena.blocks)
      (bytes : t.arena.bytes = Function.update s.arena.bytes address value)

theorem alloc_effect (cfg : Config w) (s : Heap w ι) (context : Option ι) (size : Word w)
    (bypass : Bool) (ordered : ∀ i, Ordered (s.contexts i))
    (nowrap : ∀ b ∈ (step cfg s (.alloc context size bypass)).arena.blocks, b.stop < 2 ^ w) :
    Effect cfg s (.alloc context size bypass) (step cfg s (.alloc context size bypass)) := by
  have inOrder : ∀ window, context.map s.contexts = some window → Ordered window := by
    intro window found
    obtain ⟨i, _, same⟩ := Option.map_eq_some_iff.mp found
    exact same ▸ ordered i
  have outcome := core_alloc_outcome cfg (context.map s.contexts) size bypass s.arena inOrder nowrap
  have same := write_back_same s.contexts context
  change Outcome cfg _ size bypass s.arena (coreAlloc cfg s context size bypass) at outcome
  have headerPos := cfg.header_pos
  simp only [step]
  generalize coreAlloc cfg s context size bypass = served at outcome
  cases outcome with
  | overflow wraps => exact Effect.idle same (record_null size s.objects) rfl rfl
  | outOfMemory n null =>
    refine Effect.idle same (record_null size s.objects) ?_ ?_
    · simp [blocks_after, null]
    · simp [bytes_after, null]
  | direct n object aside granted bytes placed =>
    have nonnull : object ≠ 0#w := ne_null_of_pos (by omega)
    refine Effect.direct s.arena.next.toNat size.toNat same ?_ ?_ ?_
    · rw [← placed]
      exact record_returned s.objects nonnull
    · rw [blocks_after, if_neg granted, bytes]
    · rw [bytes_after, if_neg granted, bytes]
  | bump window ptr given small live fits moved =>
    obtain ⟨i, rfl, rfl⟩ := Option.map_eq_some_iff.mp given
    exact Effect.bump i size.toNat ⟨ptr, (s.contexts i).allocLimit⟩ live fits moved rfl rfl
      (record_returned s.objects live) rfl rfl
  | refill window object ptr limit given small unfit granted placed moved ended =>
    obtain ⟨i, rfl, rfl⟩ := Option.map_eq_some_iff.mp given
    have nonnull : object ≠ 0#w := ne_null_of_pos (by omega)
    refine Effect.refill i s.arena.next.toNat size.toNat ⟨ptr, limit⟩ small moved ended rfl ?_ ?_ ?_
    · rw [← placed]
      exact record_returned s.objects nonnull
    · rw [blocks_after, if_neg granted]
    · rw [bytes_after, if_neg granted]

theorem step_effect (cfg : Config w) (s : Heap w ι) (e : Event w ι)
    (ordered : ∀ i, Ordered (s.contexts i))
    (nowrap : ∀ b ∈ (step cfg s e).arena.blocks, b.stop < 2 ^ w) :
    Effect cfg s e (step cfg s e) := by
  cases e with
  | alloc context size bypass => exact alloc_effect cfg s context size bypass ordered nowrap
  | bump i size =>
    cases bumped : inlineBump (s.contexts i) size with
    | none =>
      have same : step cfg s (.bump i size) = s := by simp [step, bumped]
      rw [same]
      exact Effect.idle rfl rfl rfl rfl
    | some pair =>
      obtain ⟨object, window⟩ := pair
      have shape : step cfg s (.bump i size) =
          { contexts := Function.update s.contexts i window
            objects := record object size s.objects
            arena := s.arena } := by simp [step, bumped]
      obtain ⟨rfl, live, kept, fits, moved⟩ := inline_bump_exact (ordered i) bumped
      rw [shape]
      exact Effect.bump i size.toNat window live fits moved kept rfl
        (record_returned s.objects live) rfl rfl
  | write address value => exact Effect.write address value rfl rfl rfl rfl rfl

/-- Blocks are only added, so an earlier heap meets the contract a later one meets. -/
theorem contract_step_back (cfg : Config w) (s : Heap w ι) (e : Event w ι)
    (contract : ZallocContract (step cfg s e).arena) : ZallocContract s.arena := by
  cases e with
  | alloc context size bypass => exact core_alloc_contract_back contract
  | bump i size =>
    cases bumped : inlineBump (s.contexts i) size <;> simpa [step, bumped] using contract
  | write address value => exact contract

end UgcHeapRuns
