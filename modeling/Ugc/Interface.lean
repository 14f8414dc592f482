import Ugc.Collector
import Ugc.GcHeapSteps

/-!
The collector as the runtime calls it. `uGCHeap::Alloc` and the handle manager wrap the
functions of `ugc_core.h`: they answer what the core answers to the calls they pass down,
and they leave its memory, its windows and its handles as the core does.
-/
namespace UgcInterface
open StepRuns UgcAllocator UgcGcHeap UgcHandleStore UgcHandleManager UgcCollector
variable {w : Nat} {ι : Type}

structure Process (w : Nat) (ι : Type) where
  heap : GcHeap w ι
  store : Store w

inductive Request (w : Nat) (ι : Type) where
  | heap (e : Event w ι)
  | write (address : Nat) (value : UInt8)
  | handles (op : ManagerOp w)

def began (arena : Arena w) : Process w ι := ⟨UgcGcHeap.initial arena, UgcHandleStore.initial⟩

/-- What the wrapper of the heap passes down: of the flags, whether the old heap is meant. -/
def coreEvent (build : Build w) : Event w ι → UgcHeapRuns.Event w ι
  | .alloc acontext size flags => .alloc acontext size (build.oldHeap flags)
  | .bump i size => .bump i size

def coreCall (build : Build w) : Request w ι → UgcCollector.Call w ι
  | .heap e => .heap (coreEvent build e)
  | .write address value => .heap (.write address value)
  | .handles op => .handles op

/-- A heap of the interface over a heap of the core: it adds the counters only. -/
structure Mirrors (g : GcHeap w ι) (s : UgcHeapRuns.Heap w ι) : Prop where
  contexts : ∀ i, (g.contexts i).window = s.contexts i
  arena : g.arena = s.arena

variable (build : Build w) {g : GcHeap w ι} {s : UgcHeapRuns.Heap w ι}

theorem served_mirrors (mirrors : Mirrors g s) (acontext : Option ι) (size : Word w)
    (flags : BitVec 32) : coreServed build g acontext size flags =
      UgcHeapRuns.coreAlloc build.config s acontext size (build.oldHeap flags) := by
  have windows : (acontext.map fun i => (g.contexts i).window) = acontext.map s.contexts := by
    cases acontext with
    | none => rfl
    | some i => exact congrArg some (mirrors.contexts i)
  unfold coreServed UgcHeapRuns.coreAlloc
  rw [windows, mirrors.arena]
  rfl

variable [DecidableEq ι]

/-- A request to a manager that leaves its arrays has no answer and no effect. -/
def perform (build : Build w) (image : Image w) (p : Process w ι) :
    Request w ι → Option (Answer w) × Process w ι
  | .heap e => (some (.pointer (UgcGcHeapSteps.returned build p.heap e)),
      { p with heap := UgcGcHeap.step build p.heap e })
  | .write address value => (some .done, { p with heap := { p.heap with
      arena := { p.heap.arena with bytes := Function.update p.heap.arena.bytes address value } } })
  | .handles op => ((managerStep image p.store op).map Prod.fst,
      { p with store := ((managerStep image p.store op).map Prod.snd).getD p.store })

def coreAnswer (cfg : Config w) (image : Image w) (c : Collector w ι) :
    UgcCollector.Call w ι → Option (Answer w)
  | .heap (.write _ _) => some .done
  | .heap e => some (.pointer (UgcHeapRuns.returned cfg c.heap e))
  | .handles op => (managerStep image c.store op).map Prod.fst

def corePerform (cfg : Config w) (image : Image w) (c : Collector w ι)
    (call : UgcCollector.Call w ι) : Option (Answer w) × Collector w ι :=
  (coreAnswer cfg image c call, UgcCollector.step cfg image c call)

theorem written_mirrors (mirrors : Mirrors g s) (i j : ι) (served : Served w) (size : Word w)
    (flags : BitVec 32) :
    (Function.update g.contexts j (chargeContext build served size flags (g.contexts j)) i).window =
      UgcHeapRuns.writeBack s.contexts (some j) served.window i := by
  have here := mirrors.contexts i
  by_cases same : i = j
  · subst same
    rw [Function.update_self, UgcGcHeapSteps.charge_window]
    cases served.window with
    | none => exact here
    | some window => exact (Function.update_self i window s.contexts).symm
  · rw [Function.update_of_ne same]
    cases served.window with
    | none => exact here
    | some window =>
      have kept : Function.update s.contexts j window i = s.contexts i :=
        Function.update_of_ne same _ _
      exact here.trans kept.symm

theorem alloc_mirrors (mirrors : Mirrors g s) (acontext : Option ι) (size : Word w)
    (flags : BitVec 32) : Mirrors (UgcGcHeap.step build g (.alloc acontext size flags))
      (UgcHeapRuns.step build.config s (.alloc acontext size (build.oldHeap flags))) := by
  have served := served_mirrors build mirrors acontext size flags
  refine ⟨fun i => ?_, congrArg Served.arena served⟩
  simp only [UgcGcHeap.step, uGCHeapAlloc, UgcHeapRuns.step, served]
  cases acontext with
  | none => exact mirrors.contexts i
  | some j => exact written_mirrors build mirrors i j _ size flags

theorem bump_mirrors (mirrors : Mirrors g s) (j : ι) (size : Word w) :
    Mirrors (UgcGcHeap.step build g (.bump j size))
      (UgcHeapRuns.step build.config s (.bump j size)) := by
  have window := mirrors.contexts j
  cases bumped : inlineBump (s.contexts j) size with
  | none => simpa [UgcGcHeap.step, UgcHeapRuns.step, window, bumped] using mirrors
  | some pair =>
    simp only [UgcGcHeap.step, UgcHeapRuns.step, window, bumped]
    refine ⟨fun i => ?_, mirrors.arena⟩
    by_cases same : i = j
    · subst same
      simp
    · simpa [same] using mirrors.contexts i

theorem step_mirrors (mirrors : Mirrors g s) (e : Event w ι) :
    UgcGcHeapSteps.returned build g e =
        UgcHeapRuns.returned build.config s (coreEvent build e) ∧
      Mirrors (UgcGcHeap.step build g e)
        (UgcHeapRuns.step build.config s (coreEvent build e)) := by
  cases e with
  | alloc acontext size flags =>
    exact ⟨congrArg Served.object (served_mirrors build mirrors acontext size flags),
      alloc_mirrors build mirrors acontext size flags⟩
  | bump j size =>
    refine ⟨?_, bump_mirrors build mirrors j size⟩
    simp only [UgcGcHeapSteps.returned, UgcHeapRuns.returned, coreEvent, mirrors.contexts j]

/-- A process over a collector of the core. -/
def Wraps (c : Collector w ι) (p : Process w ι) : Prop := Mirrors p.heap c.heap ∧ p.store = c.store

theorem perform_wraps {image : Image w} {c : Collector w ι} {p : Process w ι} (wraps : Wraps c p)
    (request : Request w ι) :
    (perform build image p request).1 =
        (corePerform build.config image c (coreCall build request)).1 ∧
      Wraps (corePerform build.config image c (coreCall build request)).2
        (perform build image p request).2 := by
  obtain ⟨mirrors, stores⟩ := wraps
  cases request with
  | heap e =>
    obtain ⟨object, after⟩ := step_mirrors build mirrors e
    have answer : coreAnswer build.config image c (.heap (coreEvent build e)) =
        some (.pointer (UgcHeapRuns.returned build.config c.heap (coreEvent build e))) := by
      cases e <;> rfl
    exact ⟨(congrArg (fun v => some (Answer.pointer v)) object).trans answer.symm, after, stores⟩
  | write address value =>
    refine ⟨rfl, ⟨mirrors.contexts, ?_⟩, stores⟩
    simp only [perform, corePerform, coreCall, UgcCollector.step, UgcHeapRuns.step, mirrors.arena]
  | handles op =>
    unfold perform corePerform
    rw [stores]
    exact ⟨rfl, mirrors, rfl⟩

end UgcInterface
