import Mathlib.Algebra.BigOperators.ModEq
import Ugc.GcHeapSteps
import Ugc.RunTallies

/-!
Allocation accounting over whole runs of the heap. Bytes handed to objects are
added up event by event, by the kind of the event that handed them out, and
the three counters the code keeps are compared with these sums. The counters
of a context are credited with `(int64_t)size`, which is the size itself when
no block the allocator grants reaches 2^63 bytes.
-/
namespace UgcAllocationAccounting
open ByteExtents StepRuns RunTallies UgcAllocator UgcExactAllocation UgcInlineFastPath UgcGcHeap
open UgcGcHeapSteps
variable {w : Nat} {ι : Type} [DecidableEq ι]

def getTotalAllocatedBytes (s : GcHeap w ι) : BitVec 64 := s.allocatedBytes

def slowPath : Event w ι → Bool
  | .alloc _ _ _ => true
  | .bump _ _ => false

def inlinePath (e : Event w ι) : Bool := !slowPath e

def contextless : Event w ι → Bool
  | .alloc none _ _ => true
  | _ => false

/-- A call of `Alloc` on context i, with a `GC_ALLOC_USER_OLD_HEAP` bit or without. -/
def onContext (build : Build w) (i : ι) (uoh : Bool) : Event w ι → Bool
  | .alloc (some j) _ flags => decide (j = i) && build.oldHeap flags == uoh
  | _ => false

/-- The value of the object an event of this kind hands out, 0 if there is none. -/
def weigh {A : Type} [Zero A] (build : Build w) (kind : Event w ι → Bool) (value : Word w → A)
    (s : GcHeap w ι) (e : Event w ι) : A :=
  if kind e ∧ returned build s e ≠ 0#w then value (requested e) else 0

/-- The bytes the events of one kind hand to objects along a run. -/
def handedOut (build : Build w) (kind : Event w ι → Bool) (s : GcHeap w ι)
    (events : List (Event w ι)) : Nat :=
  tally (step build) (weigh build kind BitVec.toNat) s events

def counter (context : AllocContext w) (uoh : Bool) : Int :=
  if uoh then context.allocBytesUoh else context.allocBytes

/-- The contexts that some call of `Alloc` in the list is given. -/
def usedContexts (events : List (Event w ι)) : Finset ι :=
  (events.filterMap fun e => match e with
    | .alloc acontext _ _ => acontext
    | .bump _ _ => none).toFinset

theorem int64_mod (n : Word w) : int64OfSize n ≡ n.toNat [ZMOD 2 ^ 64] := by
  have value := BitVec.toInt_eq_toNat_cond (n.setWidth 64)
  have width : (n.setWidth 64).toNat = n.toNat % 2 ^ 64 := BitVec.toNat_setWidth 64 n
  unfold int64OfSize Int.ModEq
  split at value <;> omega

theorem int64_exact {n : Word w} (small : n.toNat < 2 ^ 63) : int64OfSize n = n.toNat := by
  have value := BitVec.toInt_eq_toNat_cond (n.setWidth 64)
  have width : (n.setWidth 64).toNat = n.toNat % 2 ^ 64 := BitVec.toNat_setWidth 64 n
  unfold int64OfSize
  split at value <;> omega

theorem step_total (build : Build w) (s : GcHeap w ι) (e : Event w ι) :
    (getTotalAllocatedBytes (step build s e)).toNat =
      ((getTotalAllocatedBytes s).toNat + weigh build slowPath BitVec.toNat s e) % 2 ^ 64 := by
  have last := s.allocatedBytes.isLt
  cases e with
  | alloc acontext n flags =>
    simp only [getTotalAllocatedBytes, step, weigh, slowPath, returned, requested, true_and]
    by_cases null : (uGCHeapAlloc build s acontext n flags).1 = 0#w
    · have kept : (uGCHeapAlloc build s acontext n flags).2.allocatedBytes = s.allocatedBytes :=
        if_pos null
      rw [kept, if_neg (not_not_intro null), Nat.add_zero, Nat.mod_eq_of_lt last]
    · have raised : (uGCHeapAlloc build s acontext n flags).2.allocatedBytes =
          s.allocatedBytes + n.setWidth 64 := if_neg null
      rw [raised, if_pos null, BitVec.toNat_add, BitVec.toNat_setWidth]
      omega
  | bump i n =>
    have kept : (step build s (.bump i n)).allocatedBytes = s.allocatedBytes := by
      cases bumped : inlineBump (s.contexts i).window n <;> simp [step, bumped]
    simp [getTotalAllocatedBytes, kept, weigh, slowPath, Nat.mod_eq_of_lt last]

theorem charge_counter (build : Build w) (served : Served w) (n : Word w) (flags : BitVec 32)
    (context : AllocContext w) (uoh : Bool) :
    counter (chargeContext build served n flags context) uoh =
      counter context uoh +
        if build.oldHeap flags = uoh ∧ served.object ≠ 0#w then int64OfSize n else 0 := by
  unfold chargeContext counter
  by_cases null : served.object = 0#w
  · simp [null]
  · cases heap : build.oldHeap flags <;> cases uoh <;> simp [null]

theorem step_counter (build : Build w) (i : ι) (uoh : Bool) (s : GcHeap w ι) (e : Event w ι) :
    counter ((step build s e).contexts i) uoh =
      counter (s.contexts i) uoh + weigh build (onContext build i uoh) int64OfSize s e := by
  cases e with
  | alloc acontext n flags =>
    cases acontext with
    | none => simp [step, uGCHeapAlloc, weigh, onContext]
    | some j =>
      by_cases same : j = i
      · subst same
        simp [step, uGCHeapAlloc, charge_counter, weigh, onContext, returned, requested]
      · simp [step, uGCHeapAlloc, weigh, onContext, same, Ne.symm same]
  | bump j n =>
    cases bumped : inlineBump (s.contexts j).window n with
    | none => simp [step, bumped, weigh, onContext]
    | some pair =>
      by_cases same : i = j
      · subst same
        simp [step, bumped, weigh, onContext, counter]
      · simp [step, bumped, weigh, onContext, same]

/-- A window in use lies in a granted quantum and holds less than all of it. -/
def Backed (build : Build w) (s : GcHeap w ι) : Prop :=
  ∀ i, Narrow build.config (s.contexts i).window ∧
    ((s.contexts i).window.allocPtr ≠ 0#w → ∃ b ∈ s.arena.blocks, b.size = build.quantum.toNat)

def SmallBlocks (s : GcHeap w ι) : Prop := ∀ b ∈ s.arena.blocks, b.size < 2 ^ 63

theorem step_backed (build : Build w) (s : GcHeap w ι) (e : Event w ι)
    (backed : Backed build s) : Backed build (step build s e) := by
  intro i
  have source := (backed i).2
  refine ⟨step_narrow build s e (fun j => (backed j).1) i, ?_⟩
  have older : (s.contexts i).window.allocPtr ≠ 0#w →
      ∃ b ∈ (step build s e).arena.blocks, b.size = build.quantum.toNat := by
    intro live
    obtain ⟨b, member, sized⟩ := source live
    exact ⟨b, blocks_grow build s e member, sized⟩
  have moved := step_moved build s e i
  generalize ((step build s e).contexts i).window = window at moved
  cases moved with
  | kept => exact older
  | bumped live fits => exact fun _ => older live
  | refilled granted small called =>
    have block := granted_block granted build.quantum
    rw [← called] at block
    exact fun _ => ⟨_, block, rfl⟩

theorem handed_small (build : Build w) (s : GcHeap w ι) (e : Event w ι)
    (backed : Backed build s) (small : SmallBlocks (step build s e))
    (nonnull : returned build s e ≠ 0#w) : (requested e).toNat < 2 ^ 63 := by
  have handed := step_handed build s e
  generalize returned build s e = object at handed nonnull
  cases handed with
  | null => exact absurd rfl nonnull
  | fresh n granted bytes called =>
    have block := small _ (called ▸ granted_block granted n)
    simp only at block
    omega
  | within i live fits =>
    obtain ⟨narrow, source⟩ := backed i
    obtain ⟨b, member, sized⟩ := source live
    have block := small b (blocks_grow build s e member)
    have room := narrow live
    have le := BitVec.le_def.mp fits
    change _ ≤ build.quantum.toNat at room
    omega

/-- A call of `Alloc` is charged to one counter of one context, or to none of them. -/
theorem weigh_split (build : Build w) (s : GcHeap w ι) (e : Event w ι) (used : Finset ι)
    (listed : ∀ i, slowPath e = true → target e = some i → i ∈ used) :
    weigh build slowPath BitVec.toNat s e =
      (∑ i ∈ used, (weigh build (onContext build i false) BitVec.toNat s e +
        weigh build (onContext build i true) BitVec.toNat s e)) +
      weigh build contextless BitVec.toNat s e := by
  cases e with
  | alloc acontext n flags =>
    cases acontext with
    | none => simp [weigh, onContext, slowPath, contextless]
    | some j =>
      have elsewhere : ∀ i ∈ used, i ≠ j →
          weigh build (onContext build i false) BitVec.toNat s (.alloc (some j) n flags) +
            weigh build (onContext build i true) BitVec.toNat s (.alloc (some j) n flags) = 0 := by
        intro i _ apart
        simp [weigh, onContext, Ne.symm apart]
      have here : j ∈ used := listed j rfl rfl
      rw [Finset.sum_eq_single j elsewhere (fun missing => absurd here missing)]
      cases heap : build.oldHeap flags <;>
        simp [weigh, onContext, slowPath, contextless, heap]
  | bump i n => simp [weigh, onContext, slowPath, contextless]

theorem weigh_inline (build : Build w) (s : GcHeap w ι) (e : Event w ι) :
    weigh build (fun _ => true) BitVec.toNat s e =
      weigh build slowPath BitVec.toNat s e + weigh build inlinePath BitVec.toNat s e := by
  cases e <;> simp [weigh, slowPath, inlinePath]

theorem used_contexts_listed {events : List (Event w ι)} {e : Event w ι} (member : e ∈ events)
    {i : ι} (slow : slowPath e = true) (works : target e = some i) : i ∈ usedContexts events := by
  cases e with
  | alloc acontext n flags =>
    obtain rfl : acontext = some i := works
    exact List.mem_toFinset.mpr (List.mem_filterMap.mpr ⟨_, member, rfl⟩)
  | bump j n => exact Bool.noConfusion slow

section Runs
variable (build : Build w) (arena : Arena w) (events : List (Event w ι))

theorem total_run : (getTotalAllocatedBytes (run (step build) (initial arena) events)).toNat =
    handedOut build slowPath (initial arena) events % 2 ^ 64 := by
  refine tally_invariant
    (fun (s : GcHeap w ι) a => (getTotalAllocatedBytes s).toNat = a % 2 ^ 64) ?_ rfl
    (admitted_true (step build) (initial arena) events)
  intro s e a total _
  rw [step_total, total]
  omega

theorem counter_run (i : ι) (uoh : Bool) :
    counter ((run (step build) (initial arena) events).contexts i) uoh =
      tally (step build) (weigh build (onContext build i uoh) int64OfSize)
        (initial arena) events := by
  refine tally_invariant (fun (s : GcHeap w ι) a => counter (s.contexts i) uoh = a) ?_ ?_
    (admitted_true (step build) (initial arena) events)
  · intro s e a counted _
    rw [step_counter, counted]
  · cases uoh <;> rfl

theorem counter_mod (i : ι) (uoh : Bool) :
    counter ((run (step build) (initial arena) events).contexts i) uoh ≡
      handedOut build (onContext build i uoh) (initial arena) events [ZMOD 2 ^ 64] := by
  rw [counter_run]
  refine tally_related (fun (a : Int) (b : Nat) => a ≡ b [ZMOD 2 ^ 64]) rfl ?_ ?_
  · intro a b c d first second
    rw [Nat.cast_add]
    exact first.add second
  · refine admitted_mono ?_ (admitted_true (step build) (initial arena) events)
    intro s e _
    unfold weigh
    split
    · exact int64_mod (requested e)
    · rfl

theorem counter_exact (i : ι) (uoh : Bool)
    (small : SmallBlocks (run (step build) (initial arena) events)) :
    counter ((run (step build) (initial arena) events).contexts i) uoh =
      handedOut build (onContext build i uoh) (initial arena) events := by
  rw [counter_run]
  refine tally_related (fun (a : Int) (b : Nat) => a = b) rfl ?_ ?_
  · intro a b c d first second
    rw [Nat.cast_add, first, second]
  · have start : Backed build (initial arena : GcHeap w ι) :=
      fun _ => ⟨narrow_of_null _ rfl, fun live => absurd rfl live⟩
    refine admitted_under (Backed build) (fun s e backed _ => step_backed build s e backed) ?_
      start (admitted_of_final SmallBlocks ?_ small)
    · intro s e backed blocks
      unfold weigh
      split
      · rename_i handed
        exact int64_exact (handed_small build s e backed blocks handed.2)
      · rfl
    · intro s e blocks b member
      exact blocks b (blocks_grow build s e member)

theorem handed_out_split :
    handedOut build slowPath (initial arena) events =
      (∑ i ∈ usedContexts events,
        (handedOut build (onContext build i false) (initial arena) events +
          handedOut build (onContext build i true) (initial arena) events)) +
      handedOut build contextless (initial arena) events := by
  have each : Admitted (step build) (fun s e => weigh build slowPath BitVec.toNat s e =
      (∑ i ∈ usedContexts events, (weigh build (onContext build i false) BitVec.toNat s e +
        weigh build (onContext build i true) BitVec.toNat s e)) +
      weigh build contextless BitVec.toNat s e) (initial arena) events := by
    refine admitted_mono (fun s e listed => weigh_split build s e _ listed)
      (admitted_of_forall ?_ (initial arena))
    intro e member i slow works
    exact used_contexts_listed member slow works
  unfold handedOut
  rw [tally_congr each, tally_add, tally_sum]
  simp only [tally_add]

theorem handed_out_inline :
    handedOut build (fun _ => true) (initial arena) events =
      handedOut build slowPath (initial arena) events +
        handedOut build inlinePath (initial arena) events := by
  unfold handedOut
  rw [← tally_add]
  refine tally_congr (admitted_mono ?_ (admitted_true (step build) (initial arena) events))
  intro s e _
  exact weigh_inline build s e

theorem unused_zero {i : ι} (unused : i ∉ usedContexts events) (uoh : Bool) :
    counter ((run (step build) (initial arena) events).contexts i) uoh = 0 := by
  have other : ∀ e ∈ events, onContext build i uoh e = false := by
    intro e member
    rcases e with ⟨_ | j, n, flags⟩ | ⟨j, n⟩
    · rfl
    · have apart : j ≠ i := fun same =>
        unused (used_contexts_listed member rfl (congrArg some same))
      simp [onContext, apart]
    · rfl
  refine invariant_run (fun s : GcHeap w ι => counter (s.contexts i) uoh = 0) ?_ ?_
    (admitted_of_forall other (initial arena))
  · intro s e zero silent
    rw [step_counter, zero]
    simp [weigh, silent]
  · cases uoh <;> rfl

/-- The counters of a state against the bytes a run has handed out since `start`. -/
structure Accounts (start : GcHeap w ι) (s : GcHeap w ι) : Prop where
  total : (getTotalAllocatedBytes s).toNat = handedOut build slowPath start events % 2 ^ 64
  modulo : ∀ i, (s.contexts i).allocBytes ≡
      handedOut build (onContext build i false) start events [ZMOD 2 ^ 64] ∧
    (s.contexts i).allocBytesUoh ≡
      handedOut build (onContext build i true) start events [ZMOD 2 ^ 64]
  exact : SmallBlocks s → ∀ i,
    (s.contexts i).allocBytes = handedOut build (onContext build i false) start events ∧
    (s.contexts i).allocBytesUoh = handedOut build (onContext build i true) start events
  unused : ∀ i ∉ usedContexts events,
    (s.contexts i).allocBytes = 0 ∧ (s.contexts i).allocBytesUoh = 0
  summed : ((getTotalAllocatedBytes s).toNat : Int) ≡
    (∑ i ∈ usedContexts events, ((s.contexts i).allocBytes + (s.contexts i).allocBytesUoh)) +
      handedOut build contextless start events [ZMOD 2 ^ 64]
  shortfall : handedOut build (fun _ => true) start events =
    handedOut build slowPath start events + handedOut build inlinePath start events

theorem summed_run :
    ((getTotalAllocatedBytes (run (step build) (initial arena) events)).toNat : Int) ≡
    (∑ i ∈ usedContexts events,
      (((run (step build) (initial arena) events).contexts i).allocBytes +
        ((run (step build) (initial arena) events).contexts i).allocBytesUoh)) +
      handedOut build contextless (initial arena) events [ZMOD 2 ^ 64] := by
  have total := total_run build arena events
  rw [handed_out_split] at total
  rw [total]
  push_cast
  refine (Int.mod_modEq _ _).trans (Int.ModEq.add_right _ (Int.ModEq.sum fun i _ => ?_))
  exact ((counter_mod build arena events i false).add
    (counter_mod build arena events i true)).symm

end Runs

end UgcAllocationAccounting
