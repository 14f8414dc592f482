import Ugc.GcHeapSteps

/-!
Alignment of objects. Nothing in the code checks it: blocks and sizes are
multiples of 8 by assumption, the gap is one by its mask, and every pointer the
heap keeps or hands out is a sum of these, on a target of any width.
-/
namespace UgcObjectAlignment
open ByteExtents StepRuns UgcAllocator UgcExactAllocation UgcInlineFastPath UgcGcHeap
open UgcGcHeapSteps
variable {w : Nat} {ι : Type}

def Aligned (x : Word w) : Prop := 8 ∣ x.toNat

theorem eight_dvd_width (wide : 3 ≤ w) : 8 ∣ 2 ^ w := Nat.pow_dvd_pow 2 wide

theorem aligned_add (wide : 3 ≤ w) {x y : Word w} (hx : Aligned x) (hy : Aligned y) :
    Aligned (x + y) := by
  unfold Aligned
  rw [BitVec.toNat_add, Nat.dvd_mod_iff (eight_dvd_width wide)]
  exact Nat.dvd_add hx hy

/-- Masking with `~(size_t)7` rounds down to a multiple of 8. -/
theorem aligned_mask (wide : 3 ≤ w) (x : Word w) : Aligned (x &&& ~~~7#w) := by
  obtain ⟨k, width⟩ := eight_dvd_width wide
  have pos := Nat.two_pow_pos w
  have seven : (7#w).toNat = 7 := by
    rw [BitVec.toNat_ofNat, Nat.mod_eq_of_lt (by omega)]
  have mask : (~~~7#w).toNat % 2 ^ 3 = 0 := by
    rw [BitVec.toNat_not, seven, width]
    omega
  apply Nat.dvd_of_mod_eq_zero
  change _ % 2 ^ 3 = 0
  rw [BitVec.toNat_and, Nat.and_mod_two_pow, mask, Nat.and_zero]

theorem object_gap_aligned (wide : 3 ≤ w) (sizeofObjHeader : Word w) :
    Aligned (objectGap sizeofObjHeader) := aligned_mask wide _

example : objectGap 4#32 = 8#32 ∧ objectGap 8#64 = 8#64 := by decide

/-- Every block the allocator has granted begins at a multiple of 8. -/
def GrantsAligned (s : GcHeap w ι) : Prop := ∀ b ∈ s.arena.blocks, 8 ∣ b.start

instance (x : Word w) : Decidable (Aligned x) := inferInstanceAs (Decidable (8 ∣ x.toNat))

instance (s : GcHeap w ι) : Decidable (GrantsAligned s) :=
  inferInstanceAs (Decidable (∀ b ∈ s.arena.blocks, 8 ∣ b.start))

def WindowsAligned (s : GcHeap w ι) : Prop := ∀ i, Aligned (s.contexts i).window.allocPtr

variable [DecidableEq ι]

/-- What a run is permitted: aligned grants, and sizes rounded to 8 by the caller. -/
def Rounded (build : Build w) (s : GcHeap w ι) (e : Event w ι) : Prop :=
  GrantsAligned (step build s e) ∧ Aligned (requested e)

theorem answer_aligned (build : Build w) {s : GcHeap w ι} {e : Event w ι} {n : Word w}
    (grants : GrantsAligned (step build s e)) (granted : s.arena.next ≠ 0#w)
    (called : (step build s e).arena = s.arena.after n) : Aligned s.arena.next := by
  apply grants ⟨s.arena.next.toNat, n.toNat⟩
  rw [called]
  exact granted_block granted n

theorem step_aligned (build : Build w) (wide : 3 ≤ w) (s : GcHeap w ι) (e : Event w ι)
    (windows : WindowsAligned s) (rounded : Rounded build s e) :
    WindowsAligned (step build s e) := by
  intro i
  have moved := step_moved build s e i
  generalize ((step build s e).contexts i).window = window at moved
  cases moved with
  | kept => exact windows i
  | bumped live fits => exact aligned_add wide (windows i) rounded.2
  | refilled granted small called =>
    have base := answer_aligned build rounded.1 granted called
    exact aligned_add wide (aligned_add wide base (object_gap_aligned wide _)) rounded.2

theorem returned_aligned (build : Build w) (wide : 3 ≤ w) (s : GcHeap w ι) (e : Event w ι)
    (windows : WindowsAligned s) (rounded : Rounded build s e) :
    Aligned (returned build s e) := by
  have handed := step_handed build s e
  generalize returned build s e = object at handed
  cases handed with
  | null => exact Nat.dvd_zero 8
  | fresh n granted bytes called =>
    exact aligned_add wide (answer_aligned build rounded.1 granted called)
      (object_gap_aligned wide _)
  | within i live fits => exact windows i

/-- In every run on any contexts, with any flags and failures: every pointer handed
    out and every `alloc_ptr` is a multiple of 8. -/
theorem objects_aligned (build : Build w) (wide : 3 ≤ w) (arena : Arena w)
    (events : List (Event w ι))
    (grants : GrantsAligned (run (step build) (initial arena) events))
    (sizes : ∀ e ∈ events, Aligned (requested e)) :
    (∀ before e after, events = before ++ e :: after →
      Aligned (returned build (run (step build) (initial arena) before) e)) ∧
    ∀ before after, events = before ++ after →
      WindowsAligned (run (step build) (initial arena) before) := by
  have back : ∀ (s : GcHeap w ι) e, GrantsAligned (step build s e) → GrantsAligned s :=
    fun s e grants b member => grants b (blocks_grow build s e member)
  have rounded : Admitted (step build) (Rounded build) (initial arena) events :=
    admitted_and (admitted_of_final GrantsAligned back grants)
      (admitted_of_forall sizes (initial arena))
  have windows : ∀ before after, events = before ++ after →
      WindowsAligned (run (step build) (initial arena) before) := by
    intro before after split
    subst split
    exact invariant_run WindowsAligned (step_aligned build wide) (fun _ => Nat.dvd_zero 8)
      ((admitted_append _ _ _ before after).mp rounded).1
  refine ⟨?_, windows⟩
  intro before e after split
  exact returned_aligned build wide _ e (windows before (e :: after) split)
    ((admitted_iff_each _ _ _ _).mp rounded before e after split)

def build32 : Build 32 := ⟨65536#32, 4#32, 0x60#32, by decide, by decide⟩

/-- A 32-bit run: a refill, an inline bump and a direct object. -/
theorem objects_aligned_sample :
    Aligned (returned build32 (run (step build32) (initial ⟨[4096#32, 131072#32], [], fun _ => 0⟩)
      [.alloc (some ()) 24#32 0#32, .bump () 16#32]) (.alloc none 40#32 0#32)) :=
  (objects_aligned build32 (by decide) ⟨[4096#32, 131072#32], [], fun _ => 0⟩
    [.alloc (some ()) 24#32 0#32, .bump () 16#32, .alloc none 40#32 0#32]
    (by decide +kernel) (by decide)).1
      [.alloc (some ()) 24#32 0#32, .bump () 16#32] _ [] rfl

end UgcObjectAlignment
