import Mathlib.Logic.Function.Basic
import Ugc.CoreAllocator
import Ugc.StepRuns

/-!
`uGCHeap::Alloc` over any family of `gc_alloc_context`s, interleaved with the
runtime's inline bumps. The wrapper unpacks the context, calls the core with
`ObjectGap` as the header size, and credits the counters of what was served.
The signed counters are exact integers: their overflow has no defined result.
-/
namespace UgcGcHeap
open UgcAllocator StepRuns
variable {w : Nat} {ι : Type}

/-- The room left before each object, `sizeof(ObjHeader)` rounded up to 8. -/
def objectGap (sizeofObjHeader : Word w) : Word w := (sizeofObjHeader + 7#w) &&& ~~~7#w

/-- What a build fixes: the quantum, the size of `ObjHeader` and the mask
    `GC_ALLOC_USER_OLD_HEAP`, which the runtime's headers define. -/
structure Build (w : Nat) where
  quantum : Word w
  sizeofObjHeader : Word w
  userOldHeap : BitVec 32
  gap_pos : 1 ≤ (objectGap sizeofObjHeader).toNat
  gap_half : (objectGap sizeofObjHeader).toNat ≤ quantum.toNat / 2

def Build.config (build : Build w) : Config w :=
  ⟨build.quantum, objectGap build.sizeofObjHeader, build.gap_pos, build.gap_half⟩

structure AllocContext (w : Nat) where
  window : Window w
  allocBytes : Int
  allocBytesUoh : Int
  deriving DecidableEq, Repr

structure GcHeap (w : Nat) (ι : Type) where
  contexts : ι → AllocContext w
  allocatedBytes : BitVec 64
  arena : Arena w

inductive Event (w : Nat) (ι : Type) where
  | alloc (acontext : Option ι) (size : Word w) (flags : BitVec 32)
  | bump (context : ι) (size : Word w)

def initial (arena : Arena w) : GcHeap w ι := ⟨fun _ => ⟨⟨0#w, 0#w⟩, 0, 0⟩, 0#64, arena⟩

/-- The conversion `(int64_t)size`. -/
def int64OfSize (size : Word w) : Int := (size.setWidth 64).toInt

def Build.oldHeap (build : Build w) (flags : BitVec 32) : Bool := flags &&& build.userOldHeap != 0#32

def coreServed (build : Build w) (s : GcHeap w ι) (acontext : Option ι) (size : Word w)
    (flags : BitVec 32) : Served w :=
  ugcCoreAlloc build.quantum (acontext.map fun i => (s.contexts i).window) size
    (build.oldHeap flags) (objectGap build.sizeofObjHeader) s.arena

/-- The caller's context after the call: the window the core left, and the counter
    of the object's heap credited if there is an object. -/
def chargeContext (build : Build w) (served : Served w) (size : Word w) (flags : BitVec 32)
    (context : AllocContext w) : AllocContext w :=
  let after := { context with window := served.window.getD context.window }
  if served.object = 0#w then after
  else if build.oldHeap flags then
    { after with allocBytesUoh := after.allocBytesUoh + int64OfSize size }
  else { after with allocBytes := after.allocBytes + int64OfSize size }

variable [DecidableEq ι]

def uGCHeapAlloc (build : Build w) (s : GcHeap w ι) (acontext : Option ι) (size : Word w)
    (flags : BitVec 32) : Word w × GcHeap w ι :=
  let served := coreServed build s acontext size flags
  (served.object,
    { contexts := match acontext with
        | some i =>
          Function.update s.contexts i (chargeContext build served size flags (s.contexts i))
        | none => s.contexts
      allocatedBytes :=
        if served.object = 0#w then s.allocatedBytes
        else s.allocatedBytes + size.setWidth 64
      arena := served.arena })

def step (build : Build w) (s : GcHeap w ι) : Event w ι → GcHeap w ι
  | .alloc acontext size flags => (uGCHeapAlloc build s acontext size flags).2
  | .bump i size =>
    match inlineBump (s.contexts i).window size with
    | some (_, window) =>
      { s with contexts := Function.update s.contexts i { s.contexts i with window := window } }
    | none => s

theorem contract_step_back (build : Build w) (s : GcHeap w ι) (e : Event w ι)
    (contract : ZallocContract (step build s e).arena) : ZallocContract s.arena := by
  cases e with
  | alloc acontext size flags => exact core_alloc_contract_back contract
  | bump i size =>
    cases bumped : inlineBump (s.contexts i).window size <;> simpa [step, bumped] using contract

end UgcGcHeap
