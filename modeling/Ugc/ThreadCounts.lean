import Ugc.ExactAllocation
import Ugc.GcHeap

/-!
The count of bytes the runtime derives for a thread: both counters of its
context less the unspent window. The interface credits the counter with the
whole window when it is handed out; `uGCHeap::Alloc` credits the object alone,
so a refill that opens a large window for a small object takes the count down.
-/
namespace UgcThreadCounts
open StepRuns UgcAllocator UgcExactAllocation UgcGcHeap
variable {w : Nat} {ι : Type}

def unspent (window : Window w) : Int := (window.allocLimit - window.allocPtr).toNat

def derivedCount (context : AllocContext w) : Int :=
  context.allocBytes + context.allocBytesUoh - unspent context.window

/-- The calls that do not take the derived count down: those that fail or fit the
    window, direct allocations below 2^63 bytes, and refills whose object, counted
    twice, makes up together with the abandoned remainder for the new window. -/
def Credited (cfg : Config w) (bypass : Bool) (window : Window w) (size : Word w)
    (arena : Arena w) : Prop :=
  size > sizeMax w - cfg.header ∨ arena.next = 0#w ∨
    if bypass = true ∨ size + cfg.header > cfg.quantum then 0 ≤ int64OfSize size
    else (window.allocPtr ≠ 0#w ∧ window.allocLimit - window.allocPtr ≥ size) ∨
      (cfg.quantum.toNat : Int) - cfg.header.toNat ≤
        int64OfSize size + size.toNat + unspent window

/-- What a call adds to the derived count of its context. -/
def gain (served : Served w) (size : Word w) (window : Window w) : Int :=
  (if served.object = 0#w then 0 else int64OfSize size) +
    unspent window - unspent (served.window.getD window)

theorem charge_count (build : Build w) (served : Served w) (size : Word w) (flags : BitVec 32)
    (context : AllocContext w) :
    derivedCount (chargeContext build served size flags context) =
      derivedCount context + gain served size context.window := by
  unfold chargeContext derivedCount gain
  by_cases null : served.object = 0#w
  · simp only [null, ↓reduceIte]
    omega
  · cases heap : build.oldHeap flags <;> simp only [null, Bool.false_eq_true, ↓reduceIte] <;> omega

theorem int64_of_size_bound (size : Word w) : 0 ≤ int64OfSize size + size.toNat := by
  have low := BitVec.le_toInt (size.setWidth 64)
  have value := BitVec.toInt_eq_toNat_cond (size.setWidth 64)
  have width : (size.setWidth 64).toNat = size.toNat % 2 ^ 64 := BitVec.toNat_setWidth 64 size
  unfold int64OfSize
  split at value <;> omega

theorem unspent_bump {window : Window w} {size : Word w}
    (fits : size ≤ window.allocLimit - window.allocPtr) :
    unspent ⟨window.allocPtr + size, window.allocLimit⟩ = unspent window - size.toNat := by
  have rest := rest_after_bump fits
  simp only [unspent]
  omega

theorem direct_gain (cfg : Config w) (window : Window w) (size : Word w) (arena : Arena w)
    (room : ¬ size > sizeMax w - cfg.header)
    (nowrap : ∀ b ∈ (ugcAllocDirect size cfg.header arena).2.blocks, b.stop < 2 ^ w) :
    gain ⟨(ugcAllocDirect size cfg.header arena).1, some window,
        (ugcAllocDirect size cfg.header arena).2⟩ size window =
      if arena.next = 0#w then 0 else int64OfSize size := by
  unfold gain
  by_cases null : arena.next = 0#w
  · simp [alloc_direct_null null, null]
  · rw [alloc_direct_granted null] at nowrap ⊢
    have summed := add_exact (fits_with_header room)
    have object := granted_object cfg null (by omega) nowrap
    simp [object, null]

theorem refill_gain (cfg : Config w) (window : Window w) (size : Word w) (arena : Arena w)
    (room : ¬ size > sizeMax w - cfg.header)
    (small : ¬ size + cfg.header > cfg.quantum)
    (nowrap : ∀ b ∈ (ugcCtxRefill cfg.quantum window size cfg.header arena).arena.blocks,
      b.stop < 2 ^ w) :
    gain (ugcCtxRefill cfg.quantum window size cfg.header arena) size window =
      if arena.next = 0#w then 0
      else int64OfSize size + unspent window -
        ((cfg.quantum.toNat : Int) - (size.toNat + cfg.header.toNat)) := by
  unfold gain
  by_cases null : arena.next = 0#w
  · simp [ctx_refill_null null, null]
  · rw [ctx_refill_granted null] at nowrap ⊢
    have le : size.toNat + cfg.header.toNat ≤ cfg.quantum.toNat :=
      Nat.le_of_not_lt fun large => small ((large_test (fits_with_header room)).mpr large)
    have object := granted_object cfg null (header_le_quantum cfg) nowrap
    have rest := rest_after_refill arena.next le
    simp only [object, null, ↓reduceIte, Option.getD_some, unspent]
    omega

theorem core_gain_iff (cfg : Config w) (window : Window w) (size : Word w) (bypass : Bool)
    (arena : Arena w)
    (nowrap : ∀ b ∈
      (ugcCoreAlloc cfg.quantum (some window) size bypass cfg.header arena).arena.blocks,
      b.stop < 2 ^ w) :
    0 ≤ gain (ugcCoreAlloc cfg.quantum (some window) size bypass cfg.header arena) size window ↔
      Credited cfg bypass window size arena := by
  unfold Credited
  by_cases wraps : size > sizeMax w - cfg.header
  · simp [core_alloc_overflow wraps, gain, wraps]
  · by_cases aside : bypass = true ∨ size + cfg.header > cfg.quantum
    · rw [core_alloc_aside wraps aside] at nowrap ⊢
      rw [direct_gain cfg window size arena wraps nowrap]
      by_cases null : arena.next = 0#w <;> simp [wraps, aside, null]
    · rw [if_neg aside]
      by_cases fits : window.allocPtr ≠ 0#w ∧ window.allocLimit - window.allocPtr ≥ size
      · have credit := int64_of_size_bound size
        have object := fits.1
        rw [core_alloc_bump wraps aside fits]
        refine iff_of_true ?_ (Or.inr (Or.inr (Or.inl fits)))
        simp only [gain, object, ↓reduceIte, Option.getD_some, unspent_bump fits.2]
        omega
      · have small : ¬ size + cfg.header > cfg.quantum := fun large => aside (Or.inr large)
        rw [core_alloc_refill wraps aside fits] at nowrap ⊢
        rw [refill_gain cfg window size arena wraps small nowrap]
        by_cases null : arena.next = 0#w
        · simp [null]
        · simp only [wraps, null, fits, ↓reduceIte, false_or]
          omega

theorem bump_count {context : AllocContext w} {size object : Word w} {window : Window w}
    (bumped : inlineBump context.window size = some (object, window)) :
    derivedCount context ≤ derivedCount { context with window := window } := by
  unfold inlineBump at bumped
  split at bumped
  · rename_i fits
    obtain ⟨rfl, rfl⟩ := Prod.mk.inj (Option.some.inj bumped)
    simp only [derivedCount, unspent_bump fits.2]
    omega
  · simp at bumped

/-- Only a call of `Alloc` on the context itself can take its count down. -/
def CreditedStep (build : Build w) (i : ι) (s : GcHeap w ι) : Event w ι → Prop
  | .alloc (some j) size flags =>
    j = i → Credited build.config (build.oldHeap flags) (s.contexts j).window size s.arena
  | _ => True

section Runs
variable [DecidableEq ι]

theorem step_count_iff (build : Build w) (i : ι) (s : GcHeap w ι) (e : Event w ι)
    (contract : ZallocContract (step build s e).arena) :
    derivedCount (s.contexts i) ≤ derivedCount ((step build s e).contexts i) ↔
      CreditedStep build i s e := by
  cases e with
  | bump j size =>
    refine iff_of_true ?_ trivial
    cases bumped : inlineBump (s.contexts j).window size with
    | none => simp [step, bumped]
    | some pair =>
      simp only [step, bumped]
      by_cases same : i = j
      · subst same
        rw [Function.update_self]
        exact bump_count bumped
      · exact Int.le_of_eq (by rw [Function.update_of_ne same])
  | alloc acontext size flags =>
    cases acontext with
    | none => exact iff_of_true (Int.le_refl _) trivial
    | some j =>
      simp only [step, uGCHeapAlloc, CreditedStep]
      by_cases same : j = i
      · subst same
        have core := core_gain_iff build.config (s.contexts j).window size (build.oldHeap flags)
          s.arena contract.2
        rw [Function.update_self, charge_count]
        simp only [forall_const]
        rw [← core]
        simp only [coreServed, Build.config, Option.map_some]
        omega
      · rw [Function.update_of_ne (Ne.symm same)]
        exact iff_of_true (Int.le_refl _) fun equal => absurd equal same

/-- The derived count of a context is never negative in a run and no step takes it down. -/
def CountMeaningful (build : Build w) (s : GcHeap w ι) (i : ι) (events : List (Event w ι)) : Prop :=
  (∀ before after, events = before ++ after →
    0 ≤ derivedCount ((run (step build) s before).contexts i)) ∧
  ∀ before e after, events = before ++ e :: after →
    derivedCount ((run (step build) s before).contexts i) ≤
      derivedCount ((run (step build) s (before ++ [e])).contexts i)

theorem count_nonneg (build : Build w) (i : ι) {s : GcHeap w ι} {events : List (Event w ι)}
    (start : 0 ≤ derivedCount (s.contexts i))
    (grows : Admitted (step build) (fun s e =>
      derivedCount (s.contexts i) ≤ derivedCount ((step build s e).contexts i)) s events) :
    0 ≤ derivedCount ((run (step build) s events).contexts i) :=
  invariant_run (fun s : GcHeap w ι => 0 ≤ derivedCount (s.contexts i))
    (fun _ _ low up => Int.le_trans low up) start grows

theorem contract_each (build : Build w) {s : GcHeap w ι} {events : List (Event w ι)}
    (contract : ZallocContract (run (step build) s events).arena) :
    Admitted (step build) (fun s e => ZallocContract (step build s e).arena) s events :=
  admitted_of_final (fun s : GcHeap w ι => ZallocContract s.arena)
    (contract_step_back build) contract

end Runs

def build64 : Build 64 := ⟨65536#64, 8#64, 0x60#32, by decide, by decide⟩

def emptyArena64 (answers : List (Word 64)) : Arena 64 := ⟨answers, [], fun _ => 0⟩

end UgcThreadCounts
