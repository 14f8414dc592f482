import Mathlib.Algebra.Group.Action.Defs
import Mathlib.Algebra.Order.BigOperators.Group.Finset
import Mathlib.Algebra.Ring.Nat
import Ugc.ExtentTotals
import Ugc.HeapSafety
import Ugc.RunTallies

/-!
Where the memory of the whole heap is: in headers, in objects, in the windows of the
contexts and in the remainders that refills abandoned. No more is abandoned than was
handed out, so the heap never holds much more than twice what was asked of it.
-/
namespace UgcFootprint
open ByteExtents ExtentTotals StepRuns RunTallies UgcAllocator UgcExactAllocation UgcHeapRuns
open UgcHeapSafety
variable {w : Nat} {ι : Type}

/-- The bytes of a window that are still to be handed out. -/
def spare (window : Window w) : Nat := window.allocLimit.toNat - window.allocPtr.toNat

/-- A quantum just granted is none that a context already has. -/
theorem fresh_limit {cfg : Config w} {s : Heap w ι} (sound : Sound cfg s) {i : ι} {base : Nat}
    {window : Window w}
    (ended : window.allocLimit.toNat = base + cfg.quantum.toNat)
    (fresh : ∀ b ∈ s.arena.blocks, Extent.Apart ⟨base, cfg.quantum.toNat⟩ b) :
    window.allocLimit ≠ (s.contexts i).allocLimit := by
  intro same
  have pos := cfg.header_pos
  have half := cfg.header_half
  rcases sound.window i with idle | carved
  · rw [same, idle.2, BitVec.toNat_zero] at ended
    omega
  · have apart := fresh _ carved.block
    have whole := carved.whole
    rw [← same] at whole
    simp only [Extent.Apart, quantumOf, stop_mk, ← same] at apart
    omega

section Step
variable [DecidableEq ι] {cfg : Config w} {s : Heap w ι} {e : Event w ι}

/-- The context has been given another quantum. -/
def Refilled (cfg : Config w) (s : Heap w ι) (e : Event w ι) (i : ι) : Prop :=
  ((step cfg s e).contexts i).allocLimit ≠ (s.contexts i).allocLimit

instance (cfg : Config w) (s : Heap w ι) (e : Event w ι) (i : ι) :
    Decidable (Refilled cfg s e i) := inferInstanceAs (Decidable (_ ≠ _))

theorem step_size {p n : Nat} (objects : (step cfg s e).objects = ⟨p, n⟩ :: s.objects) :
    n = e.size.toNat := by
  rw [step_objects] at objects
  by_cases null : returned cfg s e = 0#w
  · rw [null, record_null] at objects
    exact absurd objects.symm (List.cons_ne_self _ _)
  · rw [record_returned _ null] at objects
    exact congrArg Extent.size (List.cons.inj objects).1.symm

theorem alloc_refilled (sound : Sound cfg s) {context : Option ι} {size : Word w} {bypass : Bool}
    (nowrap : ∀ b ∈ (step cfg s (.alloc context size bypass)).arena.blocks, b.stop < 2 ^ w) {i : ι}
    (refilled : Refilled cfg s (.alloc context size bypass) i) :
    (s.contexts i).allocPtr ≠ 0#w → spare (s.contexts i) ≤ size.toNat := by
  have inOrder : ∀ window, context.map s.contexts = some window → Ordered window := by
    intro window found
    obtain ⟨j, _, same⟩ := Option.map_eq_some_iff.mp found
    exact same ▸ ordered_of_inv sound j
  have outcome := core_alloc_outcome cfg (context.map s.contexts) size bypass s.arena inOrder nowrap
  have same := write_back_same s.contexts context
  change Outcome cfg _ size bypass s.arena (coreAlloc cfg s context size bypass) at outcome
  simp only [Refilled, step] at refilled
  generalize coreAlloc cfg s context size bypass = served at outcome refilled
  cases outcome with
  | overflow wraps => exact absurd (by rw [same]) refilled
  | outOfMemory n null => exact absurd (by rw [same]) refilled
  | direct n object aside granted bytes placed => exact absurd (by rw [same]) refilled
  | bump window ptr given small live fits moved =>
    obtain ⟨j, rfl, rfl⟩ := Option.map_eq_some_iff.mp given
    refine absurd ?_ refilled
    by_cases here : i = j <;> simp [writeBack, here]
  | refill window object ptr limit given small unfit granted placed moved ended =>
    obtain ⟨j, rfl, rfl⟩ := Option.map_eq_some_iff.mp given
    by_cases here : i = j
    · subst here
      intro live
      have short := unfit live
      unfold spare
      omega
    · exact absurd (by simp [writeBack, here]) refilled

/-- A window is replaced only for a request that it has no room for. -/
theorem refilled_unfit (sound : Sound cfg s)
    (nowrap : ∀ b ∈ (step cfg s e).arena.blocks, b.stop < 2 ^ w) {i : ι}
    (refilled : Refilled cfg s e i) : spare (s.contexts i) ≤ e.size.toNat := by
  rcases sound.window i with idle | carved
  · simp [spare, idle.1, idle.2]
  cases e with
  | write address value => exact absurd rfl refilled
  | bump j size =>
    refine absurd ?_ refilled
    cases bumped : inlineBump (s.contexts j) size with
    | none => simp [step, bumped]
    | some pair =>
      obtain ⟨-, -, kept, -, -⟩ := inline_bump_exact (ordered_of_inv sound j) bumped
      by_cases same : i = j <;> simp [step, bumped, same, kept]
  | alloc context size bypass => exact alloc_refilled sound nowrap refilled carved.live

end Step

section Family
variable [Fintype ι]

def inWindows (contexts : ι → Window w) : Nat := ∑ i, spare (contexts i)

theorem in_windows_bound {cfg : Config w} {s : Heap w ι} (sound : Sound cfg s) :
    inWindows s.contexts ≤ Fintype.card ι * (cfg.quantum.toNat - cfg.header.toNat) := by
  refine (Finset.sum_le_card_nsmul _ _ _ fun i _ => ?_).trans_eq (smul_eq_mul _ _)
  rcases sound.window i with idle | carved
  · simp [spare, idle.1, idle.2]
  · exact window_room carved

variable [DecidableEq ι]

/-- What a step leaves behind of the windows that it replaces. -/
def abandoned (cfg : Config w) (s : Heap w ι) (e : Event w ι) : Nat :=
  ∑ i, if Refilled cfg s e i then spare (s.contexts i) else 0

/-- What a run has left behind. -/
def abandonedTotal (cfg : Config w) (s : Heap w ι) (events : List (Event w ι)) : Nat :=
  tally (step cfg) (abandoned cfg) s events

variable {cfg : Config w} {s : Heap w ι} {e : Event w ι}

theorem in_windows_update (contexts : ι → Window w) (i : ι) (window : Window w) :
    inWindows (Function.update contexts i window) + spare (contexts i) =
      inWindows contexts + spare window := by
  unfold inWindows
  rw [← Finset.add_sum_erase _ _ (Finset.mem_univ i),
    ← Finset.add_sum_erase _ (fun j => spare (contexts j)) (Finset.mem_univ i),
    Function.update_self]
  have others : ∑ j ∈ Finset.univ.erase i, spare (Function.update contexts i window j) =
      ∑ j ∈ Finset.univ.erase i, spare (contexts j) := by
    refine Finset.sum_congr rfl fun j member => ?_
    rw [Function.update_of_ne (Finset.ne_of_mem_erase member)]
  omega

theorem abandoned_none (kept : ∀ i, ((step cfg s e).contexts i).allocLimit =
    (s.contexts i).allocLimit) : abandoned cfg s e = 0 :=
  Finset.sum_eq_zero fun i _ => if_neg (not_not_intro (kept i))

theorem abandoned_same (contexts : (step cfg s e).contexts = s.contexts) :
    abandoned cfg s e = 0 :=
  abandoned_none fun i => by rw [contexts]

theorem abandoned_one {i : ι} (refilled : Refilled cfg s e i)
    (others : ∀ j, j ≠ i → (step cfg s e).contexts j = s.contexts j) :
    abandoned cfg s e = spare (s.contexts i) := by
  unfold abandoned
  rw [Finset.sum_eq_single_of_mem i (Finset.mem_univ i), if_pos refilled]
  intro j _ apart
  exact if_neg (not_not_intro (congrArg Window.allocLimit (others j apart)))

/-- The blocks granted so far, when `lost` bytes of them are abandoned. -/
structure Accounted (cfg : Config w) (contexts : ι → Window w) (objects blocks : List Extent)
    (lost : Nat) : Prop where
  balance : total blocks =
    blocks.length * cfg.header.toNat + total objects + lost + inWindows contexts
  charged : lost ≤ total objects
  served : blocks.length ≤ objects.length

theorem accounted_same {lost : Nat} (contexts : (step cfg s e).contexts = s.contexts)
    (objects : (step cfg s e).objects = s.objects)
    (blocks : (step cfg s e).arena.blocks = s.arena.blocks)
    (accounted : Accounted cfg s.contexts s.objects s.arena.blocks lost) :
    Accounted cfg (step cfg s e).contexts (step cfg s e).objects (step cfg s e).arena.blocks
      (lost + abandoned cfg s e) := by
  rw [abandoned_same contexts, contexts, objects, blocks]
  exact accounted

theorem step_accounted {lost : Nat} (sound : Sound cfg s)
    (contract : ZallocContract (step cfg s e).arena)
    (accounted : Accounted cfg s.contexts s.objects s.arena.blocks lost) :
    Accounted cfg (step cfg s e).contexts (step cfg s e).objects (step cfg s e).arena.blocks
      (lost + abandoned cfg s e) := by
  have separate := contract.1
  have ⟨balance, charged, served⟩ := accounted
  cases effect_of_sound sound contract with
  | idle contexts objects blocks bytes => exact accounted_same contexts objects blocks accounted
  | direct base size contexts objects blocks bytes =>
    rw [abandoned_same contexts, contexts, objects, blocks]
    refine ⟨?_, ?_, Nat.succ_le_succ served⟩
    · rw [total_cons, total_cons, List.length_cons, Nat.succ_mul]
      omega
    · rw [total_cons]
      omega
  | bump i size window live fits moved kept contexts objects blocks bytes =>
    have limits : ∀ j, ((step cfg s e).contexts j).allocLimit = (s.contexts j).allocLimit := by
      intro j
      rw [contexts]
      by_cases same : j = i
      · rw [same, Function.update_self, kept]
      · rw [Function.update_of_ne same]
    have windows := in_windows_update s.contexts i window
    rw [abandoned_none limits, contexts, objects, blocks]
    refine ⟨?_, ?_, Nat.le_succ_of_le served⟩
    · unfold spare at windows
      rw [kept] at windows
      rw [total_cons]
      omega
    · rw [total_cons]
      omega
  | refill i base size window small moved ended contexts objects blocks bytes =>
    rw [blocks] at separate
    have fresh := (List.pairwise_cons.mp separate).1
    have refilled : Refilled cfg s e i := by
      unfold Refilled
      rw [contexts, Function.update_self]
      exact fresh_limit sound ended fresh
    have others : ∀ j, j ≠ i → (step cfg s e).contexts j = s.contexts j := by
      intro j apart
      rw [contexts, Function.update_of_ne apart]
    have short := refilled_unfit sound contract.2 refilled
    rw [← step_size objects] at short
    have windows := in_windows_update s.contexts i window
    have room : spare window + cfg.header.toNat + size = cfg.quantum.toNat := by
      unfold spare
      omega
    rw [abandoned_one refilled others, contexts, objects, blocks]
    refine ⟨?_, ?_, Nat.succ_le_succ served⟩
    · rw [total_cons, total_cons, List.length_cons, Nat.succ_mul]
      omega
    · rw [total_cons]
      omega
  | write address value event contexts objects blocks bytes =>
    exact accounted_same contexts objects blocks accounted

theorem run_accounted {answers : List (Word w)} {bytes : Nat → UInt8} {events : List (Event w ι)}
    (contract : ZallocContract (run (step cfg) (initial answers bytes) events).arena) :
    Sound cfg (run (step cfg) (initial answers bytes) events) ∧
      Accounted cfg (run (step cfg) (initial answers bytes) events).contexts
        (run (step cfg) (initial answers bytes) events).objects
        (run (step cfg) (initial answers bytes) events).arena.blocks
        (abandonedTotal cfg (initial answers bytes) events) := by
  refine tally_invariant (fun (s : Heap w ι) lost =>
    Sound cfg s ∧ Accounted cfg s.contexts s.objects s.arena.blocks lost) ?_ ?_
    (contract_each cfg contract)
  · rintro s e lost ⟨sound, accounted⟩ fresh
    exact ⟨step_sound cfg s e sound fresh, step_accounted sound fresh accounted⟩
  · refine ⟨initial_sound cfg answers bytes, ?_, Nat.le_refl 0, Nat.le_refl 0⟩
    simp [initial, Arena.blocks, inWindows, spare]

/-- In every run on a finite family of contexts all memory is accounted for, and bounded by
    what was handed out, a header for each object and a window for each context. -/
theorem heap_footprint (cfg : Config w) (answers : List (Word w)) (bytes : Nat → UInt8)
    (events : List (Event w ι))
    (contract : ZallocContract (run (step cfg) (initial answers bytes) events).arena) :
    Accounted cfg (run (step cfg) (initial answers bytes) events).contexts
      (run (step cfg) (initial answers bytes) events).objects
      (run (step cfg) (initial answers bytes) events).arena.blocks
      (abandonedTotal cfg (initial answers bytes) events) ∧
    total (run (step cfg) (initial answers bytes) events).arena.blocks ≤
      2 * total (run (step cfg) (initial answers bytes) events).objects +
      (run (step cfg) (initial answers bytes) events).objects.length * cfg.header.toNat +
      Fintype.card ι * (cfg.quantum.toNat - cfg.header.toNat) := by
  obtain ⟨sound, accounted⟩ := run_accounted contract
  refine ⟨accounted, ?_⟩
  have balance := accounted.balance
  have charged := accounted.charged
  have headers := Nat.mul_le_mul_right cfg.header.toNat accounted.served
  have windows := in_windows_bound sound
  omega

/-- The refill in the midst of the run abandons most of a quantum. -/
theorem heap_footprint_sample :
    abandonedTotal config64 (initial sampleAnswers fun _ => 255) sampleEvents = 65404 ∧
      abandonedTotal config64 (initial sampleAnswers fun _ => 255) sampleEvents ≤
        total (run (step config64) (initial sampleAnswers fun _ => 255) sampleEvents).objects :=
  ⟨by decide +kernel,
    (heap_footprint config64 sampleAnswers (fun _ => 255) sampleEvents
      (by decide +kernel)).1.charged⟩

end Family

end UgcFootprint
