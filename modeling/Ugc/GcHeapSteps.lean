import Ugc.GcHeap
import Ugc.InlineFastPath

/-!
What a step of the heap can do, said once: `Moved` for the window of a context,
`Handed` for the pointer an event hands out, and the frame of what it leaves
alone. Both hold in wrapping words, whatever the allocator answers.
-/
namespace UgcGcHeapSteps
open ByteExtents StepRuns UgcAllocator UgcExactAllocation UgcInlineFastPath UgcGcHeap
variable {w : Nat} {ι : Type}

def requested : Event w ι → Word w
  | .alloc _ size _ => size
  | .bump _ size => size

/-- The context an event works on, if any. -/
def target : Event w ι → Option ι
  | .alloc acontext _ _ => acontext
  | .bump i _ => some i

theorem core_served_branch (build : Build w) (s : GcHeap w ι) (acontext : Option ι)
    (size : Word w) (flags : BitVec 32) :
    ∃ alloc, Branch build.config (acontext.map fun i => (s.contexts i).window) size
      (build.oldHeap flags) alloc ∧ coreServed build s acontext size flags = alloc s.arena :=
  ⟨_, core_alloc_branch build.config _ size (build.oldHeap flags), rfl⟩

@[simp] theorem charge_window (build : Build w) (served : Served w) (size : Word w)
    (flags : BitVec 32) (context : AllocContext w) :
    (chargeContext build served size flags context).window =
      served.window.getD context.window := by
  unfold chargeContext
  split
  · rfl
  · split <;> rfl

variable [DecidableEq ι]

/-- The pointer an event hands out, null if none. -/
def returned (build : Build w) (s : GcHeap w ι) : Event w ι → Word w
  | .alloc acontext size flags => (uGCHeapAlloc build s acontext size flags).1
  | .bump i size => ((inlineBump (s.contexts i).window size).map Prod.fst).getD 0#w

theorem step_other (build : Build w) (s : GcHeap w ι) (e : Event w ι) {i : ι}
    (other : target e ≠ some i) : (step build s e).contexts i = s.contexts i := by
  cases e with
  | alloc acontext size flags =>
    cases acontext with
    | none => rfl
    | some j =>
      have apart : i ≠ j := fun same => other (congrArg some same.symm)
      exact Function.update_of_ne apart _ _
  | bump j size =>
    have apart : i ≠ j := fun same => other (congrArg some same.symm)
    cases bumped : inlineBump (s.contexts j).window size <;> simp [step, bumped, apart]

theorem step_arena (build : Build w) (s : GcHeap w ι) (e : Event w ι) :
    (step build s e).arena = s.arena ∨ ∃ n, (step build s e).arena = s.arena.after n := by
  cases e with
  | alloc acontext size flags =>
    exact core_alloc_arena build.quantum _ size (build.oldHeap flags) _ s.arena
  | bump i size =>
    cases bumped : inlineBump (s.contexts i).window size <;> simp [step, bumped]

theorem blocks_grow (build : Build w) (s : GcHeap w ι) (e : Event w ι) {b : Extent}
    (member : b ∈ s.arena.blocks) : b ∈ (step build s e).arena.blocks := by
  rcases step_arena build s e with same | ⟨n, called⟩
  · rwa [same]
  · rw [called]
    exact blocks_kept member n

inductive Moved (build : Build w) (s : GcHeap w ι) (e : Event w ι) (window : Window w) :
    Window w → Prop where
  | kept : Moved build s e window window
  | bumped (live : window.allocPtr ≠ 0#w)
      (fits : requested e ≤ window.allocLimit - window.allocPtr) :
      Moved build s e window ⟨window.allocPtr + requested e, window.allocLimit⟩
  | refilled (granted : s.arena.next ≠ 0#w)
      (small : (requested e).toNat + build.config.header.toNat ≤ build.config.quantum.toNat)
      (called : (step build s e).arena = s.arena.after build.quantum) :
      Moved build s e window ⟨s.arena.next + build.config.header + requested e,
        s.arena.next + build.config.quantum⟩

theorem alloc_moved (build : Build w) (s : GcHeap w ι) (i : ι) (size : Word w)
    (flags : BitVec 32) :
    Moved build s (.alloc (some i) size flags) (s.contexts i).window
      ((step build s (.alloc (some i) size flags)).contexts i).window := by
  have shape : ((step build s (.alloc (some i) size flags)).contexts i).window =
      (coreServed build s (some i) size flags).window.getD (s.contexts i).window := by
    simp [step, uGCHeapAlloc]
  have arena : (step build s (.alloc (some i) size flags)).arena =
      (coreServed build s (some i) size flags).arena := rfl
  obtain ⟨alloc, branch, served⟩ := core_served_branch build s (some i) size flags
  rw [shape, served]
  rw [served] at arena
  cases branch with
  | overflow wraps => exact Moved.kept
  | direct room aside => exact Moved.kept
  | bump context given shared small live fits =>
    obtain rfl := Option.some.inj given
    exact Moved.bumped live fits
  | refill context given shared small unfit =>
    obtain rfl := Option.some.inj given
    by_cases null : s.arena.next = 0#w
    · rw [ctx_refill_null null]
      exact Moved.kept
    · rw [ctx_refill_granted null] at arena ⊢
      exact Moved.refilled null small arena

theorem step_moved (build : Build w) (s : GcHeap w ι) (e : Event w ι) (i : ι) :
    Moved build s e (s.contexts i).window ((step build s e).contexts i).window := by
  by_cases here : target e = some i
  · cases e with
    | alloc acontext size flags =>
      obtain rfl : acontext = some i := here
      exact alloc_moved build s i size flags
    | bump j size =>
      obtain rfl := Option.some.inj here
      by_cases fits : (s.contexts j).window.allocPtr ≠ 0#w ∧
          size ≤ (s.contexts j).window.allocLimit - (s.contexts j).window.allocPtr
      · simp only [step, inlineBump, if_pos fits, Function.update_self]
        exact Moved.bumped fits.1 fits.2
      · simp only [step, inlineBump, if_neg fits]
        exact Moved.kept
  · rw [step_other build s e here]
    exact Moved.kept

theorem step_narrow (build : Build w) (s : GcHeap w ι) (e : Event w ι)
    (narrow : ∀ i, Narrow build.config (s.contexts i).window) :
    ∀ i, Narrow build.config ((step build s e).contexts i).window := by
  intro i
  have moved := step_moved build s e i
  generalize ((step build s e).contexts i).window = window at moved
  cases moved with
  | kept => exact narrow i
  | bumped live fits => exact bump_narrow (narrow i) live fits
  | refilled granted small called => exact refill_narrow small

inductive Handed (build : Build w) (s : GcHeap w ι) (e : Event w ι) : Word w → Prop where
  | null : Handed build s e 0#w
  | fresh (n : Word w) (granted : s.arena.next ≠ 0#w)
      (bytes : (requested e).toNat + build.config.header.toNat ≤ n.toNat)
      (called : (step build s e).arena = s.arena.after n) :
      Handed build s e (s.arena.next + build.config.header)
  | within (i : ι) (live : (s.contexts i).window.allocPtr ≠ 0#w)
      (fits : requested e ≤ (s.contexts i).window.allocLimit - (s.contexts i).window.allocPtr) :
      Handed build s e (s.contexts i).window.allocPtr

theorem step_handed (build : Build w) (s : GcHeap w ι) (e : Event w ι) :
    Handed build s e (returned build s e) := by
  cases e with
  | alloc acontext size flags =>
    have arena : (step build s (.alloc acontext size flags)).arena =
        (coreServed build s acontext size flags).arena := rfl
    obtain ⟨alloc, branch, served⟩ := core_served_branch build s acontext size flags
    change Handed build s _ (coreServed build s acontext size flags).object
    rw [served] at arena ⊢
    cases branch with
    | overflow wraps => exact Handed.null
    | direct room aside =>
      by_cases null : s.arena.next = 0#w
      · simp only [alloc_direct_null null]
        exact Handed.null
      · simp only [alloc_direct_granted null] at arena ⊢
        exact Handed.fresh _ null (Nat.le_of_eq (add_exact room).symm) arena
    | bump context given shared small live fits =>
      obtain ⟨i, rfl, rfl⟩ := Option.map_eq_some_iff.mp given
      exact Handed.within i live fits
    | refill context given shared small unfit =>
      by_cases null : s.arena.next = 0#w
      · rw [ctx_refill_null null]
        exact Handed.null
      · rw [ctx_refill_granted null] at arena ⊢
        exact Handed.fresh _ null small arena
  | bump i size =>
    by_cases fits : (s.contexts i).window.allocPtr ≠ 0#w ∧
        size ≤ (s.contexts i).window.allocLimit - (s.contexts i).window.allocPtr
    · simp only [returned, inlineBump, if_pos fits, Option.map_some, Option.getD_some]
      exact Handed.within i fits.1 fits.2
    · simp only [returned, inlineBump, if_neg fits, Option.map_none, Option.getD_none]
      exact Handed.null

end UgcGcHeapSteps
