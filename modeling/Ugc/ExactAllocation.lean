import Ugc.CoreAllocator

/-!
What one call of `ugc_core_alloc` does. `Branch` is the inversion of the code in
wrapping words and holds of every call; `Outcome` lists the five ways a call can
end in unbounded integers, and `core_alloc_outcome` shows that on a window whose
pointers are in order, and with answers that do not wrap, the wrapping code
takes one of them and all its sums and differences are exact.
-/
namespace UgcExactAllocation
open ByteExtents UgcAllocator
variable {w : Nat}

theorem add_exact {x y : Word w} (fits : x.toNat + y.toNat < 2 ^ w) :
    (x + y).toNat = x.toNat + y.toNat := BitVec.toNat_add_of_lt fits

theorem sub_exact {x y : Word w} (le : y.toNat ≤ x.toNat) :
    (x - y).toNat = x.toNat - y.toNat := BitVec.toNat_sub_of_le (BitVec.le_def.mpr le)

theorem null_iff (x : Word w) : x.toNat = 0 ↔ x = 0#w := by
  constructor
  · intro zero
    exact BitVec.eq_of_toNat_eq (by simpa using zero)
  · intro null
    simp [null]

theorem pos_of_ne_null {x : Word w} (nonnull : x ≠ 0#w) : 0 < x.toNat :=
  Nat.pos_of_ne_zero ((null_iff x).not.mpr nonnull)

theorem ne_null_of_pos {x : Word w} (pos : 0 < x.toNat) : x ≠ 0#w :=
  (null_iff x).not.mp (Nat.ne_of_gt pos)

/-- The code's overflow test rejects exactly the sizes that do not fit with their header. -/
theorem overflow_test (size header : Word w) :
    size > sizeMax w - header ↔ 2 ^ w ≤ size.toNat + header.toNat := by
  have hs := size.isLt
  have hh := header.isLt
  have room : header.toNat ≤ (sizeMax w).toNat := by
    simp only [sizeMax, BitVec.toNat_allOnes]
    omega
  have last : (sizeMax w).toNat = 2 ^ w - 1 := BitVec.toNat_allOnes
  rw [gt_iff_lt, BitVec.lt_def, sub_exact room, last]
  omega

theorem fits_with_header {size header : Word w} (room : ¬ size > sizeMax w - header) :
    size.toNat + header.toNat < 2 ^ w :=
  Nat.lt_of_not_le fun wraps => room ((overflow_test size header).mpr wraps)

/-- The code's test for a request that does not go through a quantum. -/
theorem large_test {size header quantum : Word w} (room : size.toNat + header.toNat < 2 ^ w) :
    size + header > quantum ↔ quantum.toNat < size.toNat + header.toNat := by
  rw [gt_iff_lt, BitVec.lt_def, add_exact room]

/-- The code's test for a window that holds the request. -/
theorem fits_test {size ptr limit : Word w} (le : ptr.toNat ≤ limit.toNat) :
    size ≤ limit - ptr ↔ ptr.toNat + size.toNat ≤ limit.toNat := by
  rw [BitVec.le_def, sub_exact le]
  omega

/-- What a bump leaves of a window, in wrapping words. -/
theorem rest_after_bump {size ptr limit : Word w} (fits : size ≤ limit - ptr) :
    (limit - (ptr + size)).toNat + size.toNat = (limit - ptr).toNat := by
  have rest : limit - (ptr + size) = limit - ptr - size := by grind
  have le := BitVec.le_def.mp fits
  rw [rest, sub_exact le]
  omega

/-- What a refill leaves of a quantum, in wrapping words. -/
theorem rest_after_refill {quantum header size : Word w} (base : Word w)
    (small : size.toNat + header.toNat ≤ quantum.toNat) :
    (base + quantum - (base + header + size)).toNat + header.toNat + size.toNat =
      quantum.toNat := by
  have last := quantum.isLt
  have summed : (size + header).toNat = size.toNat + header.toNat := add_exact (by omega)
  have rest : base + quantum - (base + header + size) = quantum - (size + header) := by grind
  have le : (size + header).toNat ≤ quantum.toNat := by omega
  rw [rest, sub_exact le, summed]
  omega

theorem header_le_quantum (cfg : Config w) : cfg.header.toNat ≤ cfg.quantum.toNat := by
  have := cfg.header_half
  omega

/-- The branch a call takes, before it has seen the allocator: the tests it has
    passed, read over the integers, and what it does, in wrapping words. -/
inductive Branch (cfg : Config w) (window : Option (Window w)) (size : Word w)
    (bypass : Bool) : (Arena w → Served w) → Prop where
  | overflow (wraps : 2 ^ w ≤ size.toNat + cfg.header.toNat) :
      Branch cfg window size bypass fun arena => ⟨0#w, window, arena⟩
  | direct (room : size.toNat + cfg.header.toNat < 2 ^ w)
      (aside : window = none ∨ bypass = true ∨
        cfg.quantum.toNat < size.toNat + cfg.header.toNat) :
      Branch cfg window size bypass fun arena =>
        ⟨(ugcAllocDirect size cfg.header arena).1, window,
          (ugcAllocDirect size cfg.header arena).2⟩
  | bump (context : Window w) (given : window = some context) (shared : bypass = false)
      (small : size.toNat + cfg.header.toNat ≤ cfg.quantum.toNat)
      (live : context.allocPtr ≠ 0#w) (fits : size ≤ context.allocLimit - context.allocPtr) :
      Branch cfg window size bypass fun arena =>
        ⟨context.allocPtr, some ⟨context.allocPtr + size, context.allocLimit⟩, arena⟩
  | refill (context : Window w) (given : window = some context) (shared : bypass = false)
      (small : size.toNat + cfg.header.toNat ≤ cfg.quantum.toNat)
      (unfit : context.allocPtr ≠ 0#w → ¬ size ≤ context.allocLimit - context.allocPtr) :
      Branch cfg window size bypass (ugcCtxRefill cfg.quantum context size cfg.header)

theorem core_alloc_branch (cfg : Config w) (window : Option (Window w)) (size : Word w)
    (bypass : Bool) :
    Branch cfg window size bypass (ugcCoreAlloc cfg.quantum window size bypass cfg.header) := by
  by_cases wraps : size > sizeMax w - cfg.header
  · have taken : ugcCoreAlloc cfg.quantum window size bypass cfg.header = _ :=
      funext fun arena => core_alloc_overflow wraps
    rw [taken]
    exact Branch.overflow ((overflow_test size cfg.header).mp wraps)
  · have room := fits_with_header wraps
    cases window with
    | none =>
      have taken : ugcCoreAlloc cfg.quantum none size bypass cfg.header = _ :=
        funext fun arena => core_alloc_no_context wraps
      rw [taken]
      exact Branch.direct room (Or.inl rfl)
    | some context =>
      by_cases aside : bypass = true ∨ size + cfg.header > cfg.quantum
      · have taken : ugcCoreAlloc cfg.quantum (some context) size bypass cfg.header = _ :=
          funext fun arena => core_alloc_aside wraps aside
        rw [taken]
        refine Branch.direct room (Or.inr ?_)
        rwa [large_test room] at aside
      · have shared : bypass = false := Bool.eq_false_iff.mpr fun h => aside (Or.inl h)
        have small : size.toNat + cfg.header.toNat ≤ cfg.quantum.toNat :=
          Nat.le_of_not_lt fun large => aside (Or.inr ((large_test room).mpr large))
        by_cases fits : context.allocPtr ≠ 0#w ∧ context.allocLimit - context.allocPtr ≥ size
        · have taken : ugcCoreAlloc cfg.quantum (some context) size bypass cfg.header = _ :=
            funext fun arena => core_alloc_bump wraps aside fits
          rw [taken]
          exact Branch.bump context rfl shared small fits.1 fits.2
        · have taken : ugcCoreAlloc cfg.quantum (some context) size bypass cfg.header = _ :=
            funext fun arena => core_alloc_refill wraps aside fits
          rw [taken]
          exact Branch.refill context rfl shared small fun live held => fits ⟨live, held⟩

/-- A call either asks the allocator for nothing, or asks for n bytes and serves what
    the answer allows; a null answer leaves the window as it is. -/
theorem core_alloc_asks (cfg : Config w) (window : Option (Window w)) (size : Word w)
    (bypass : Bool) :
    (∃ object after, (object = 0#w → after = window) ∧
      ugcCoreAlloc cfg.quantum window size bypass cfg.header =
        fun arena => ⟨object, after, arena⟩) ∨
    ∃ (n : Word w) (reply : Word w → Word w × Option (Window w)),
      cfg.header.toNat ≤ n.toNat ∧ reply 0#w = (0#w, window) ∧
      (∀ answer, answer ≠ 0#w → (reply answer).1 = answer + cfg.header) ∧
      ugcCoreAlloc cfg.quantum window size bypass cfg.header =
        fun arena => ⟨(reply arena.next).1, (reply arena.next).2, arena.after n⟩ := by
  have branch := core_alloc_branch cfg window size bypass
  generalize ugcCoreAlloc cfg.quantum window size bypass cfg.header = alloc at branch ⊢
  cases branch with
  | overflow wraps => exact Or.inl ⟨0#w, window, fun _ => rfl, rfl⟩
  | direct room aside =>
    refine Or.inr ⟨size + cfg.header,
      fun answer => (if answer = 0#w then 0#w else answer + cfg.header, window),
      ?_, rfl, fun answer granted => if_neg granted, funext fun arena => ?_⟩
    · rw [add_exact room]
      omega
    · by_cases null : arena.next = 0#w
      · simp only [alloc_direct_null null, if_pos null]
      · simp only [alloc_direct_granted null, if_neg null]
  | bump context given shared small live fits =>
    exact Or.inl ⟨_, _, fun null => absurd null live, rfl⟩
  | refill context given shared small unfit =>
    subst given
    refine Or.inr ⟨cfg.quantum,
      fun answer => if answer = 0#w then (0#w, some context)
        else (answer + cfg.header,
          some ⟨answer + cfg.header + size, answer + cfg.quantum⟩),
      header_le_quantum cfg, if_pos rfl,
      fun answer granted => by simp only [if_neg granted], funext fun arena => ?_⟩
    by_cases null : arena.next = 0#w
    · simp only [ctx_refill_null null, if_pos null]
    · simp only [ctx_refill_granted null, if_neg null]

/-- Pointers of a window that is in use are in order. -/
def Ordered (window : Window w) : Prop :=
  window.allocPtr ≠ 0#w → window.allocPtr.toNat ≤ window.allocLimit.toNat

inductive Outcome (cfg : Config w) (window : Option (Window w)) (size : Word w)
    (bypass : Bool) (arena : Arena w) : Served w → Prop where
  | overflow (wraps : 2 ^ w ≤ size.toNat + cfg.header.toNat) :
      Outcome cfg window size bypass arena ⟨0#w, window, arena⟩
  | outOfMemory (n : Word w) (null : arena.next = 0#w) :
      Outcome cfg window size bypass arena ⟨0#w, window, arena.after n⟩
  | direct (n object : Word w)
      (aside : window = none ∨ bypass = true ∨
        cfg.quantum.toNat < size.toNat + cfg.header.toNat)
      (granted : arena.next ≠ 0#w) (bytes : n.toNat = size.toNat + cfg.header.toNat)
      (placed : object.toNat = arena.next.toNat + cfg.header.toNat) :
      Outcome cfg window size bypass arena ⟨object, window, arena.after n⟩
  | bump (context : Window w) (ptr : Word w) (given : window = some context)
      (small : size.toNat + cfg.header.toNat ≤ cfg.quantum.toNat)
      (live : context.allocPtr ≠ 0#w)
      (fits : context.allocPtr.toNat + size.toNat ≤ context.allocLimit.toNat)
      (moved : ptr.toNat = context.allocPtr.toNat + size.toNat) :
      Outcome cfg window size bypass arena
        ⟨context.allocPtr, some ⟨ptr, context.allocLimit⟩, arena⟩
  | refill (context : Window w) (object ptr limit : Word w) (given : window = some context)
      (small : size.toNat + cfg.header.toNat ≤ cfg.quantum.toNat)
      (unfit : context.allocPtr ≠ 0#w →
        context.allocLimit.toNat < context.allocPtr.toNat + size.toNat)
      (granted : arena.next ≠ 0#w)
      (placed : object.toNat = arena.next.toNat + cfg.header.toNat)
      (moved : ptr.toNat = arena.next.toNat + cfg.header.toNat + size.toNat)
      (ended : limit.toNat = arena.next.toNat + cfg.quantum.toNat) :
      Outcome cfg window size bypass arena ⟨object, some ⟨ptr, limit⟩, arena.after cfg.quantum⟩

theorem granted_end {arena : Arena w} {n : Word w} (granted : arena.next ≠ 0#w)
    (nowrap : ∀ b ∈ (arena.after n).blocks, b.stop < 2 ^ w) :
    arena.next.toNat + n.toNat < 2 ^ w := by
  apply nowrap ⟨arena.next.toNat, n.toNat⟩
  rw [blocks_after, if_neg granted]
  exact List.mem_cons_self

theorem granted_object (cfg : Config w) {arena : Arena w} {n : Word w}
    (granted : arena.next ≠ 0#w) (holds : cfg.header.toNat ≤ n.toNat)
    (nowrap : ∀ b ∈ (arena.after n).blocks, b.stop < 2 ^ w) :
    arena.next + cfg.header ≠ 0#w := by
  have last := granted_end granted nowrap
  have headerPos := cfg.header_pos
  apply ne_null_of_pos
  rw [add_exact (by omega)]
  omega

theorem direct_outcome (cfg : Config w) (window : Option (Window w)) (size : Word w)
    (bypass : Bool) (arena : Arena w)
    (room : size.toNat + cfg.header.toNat < 2 ^ w)
    (aside : window = none ∨ bypass = true ∨
      cfg.quantum.toNat < size.toNat + cfg.header.toNat)
    (nowrap : ∀ b ∈ (ugcAllocDirect size cfg.header arena).2.blocks, b.stop < 2 ^ w) :
    Outcome cfg window size bypass arena
      ⟨(ugcAllocDirect size cfg.header arena).1, window,
        (ugcAllocDirect size cfg.header arena).2⟩ := by
  have bytes := add_exact room
  by_cases null : arena.next = 0#w
  · rw [alloc_direct_null null]
    exact Outcome.outOfMemory _ null
  · rw [alloc_direct_granted null] at nowrap ⊢
    have last := granted_end null nowrap
    exact Outcome.direct _ _ aside null bytes (add_exact (by omega))

theorem refill_outcome (cfg : Config w) (context : Window w) (size : Word w)
    (bypass : Bool) (arena : Arena w)
    (small : size.toNat + cfg.header.toNat ≤ cfg.quantum.toNat)
    (unfit : context.allocPtr ≠ 0#w →
      context.allocLimit.toNat < context.allocPtr.toNat + size.toNat)
    (nowrap : ∀ b ∈ (ugcCtxRefill cfg.quantum context size cfg.header arena).arena.blocks,
      b.stop < 2 ^ w) :
    Outcome cfg (some context) size bypass arena
      (ugcCtxRefill cfg.quantum context size cfg.header arena) := by
  by_cases null : arena.next = 0#w
  · rw [ctx_refill_null null]
    exact Outcome.outOfMemory _ null
  · rw [ctx_refill_granted null] at nowrap ⊢
    have last := granted_end null nowrap
    have first : (arena.next + cfg.header).toNat = arena.next.toNat + cfg.header.toNat :=
      add_exact (by omega)
    have second : (arena.next + cfg.header + size).toNat =
        arena.next.toNat + cfg.header.toNat + size.toNat := by
      rw [add_exact (by omega), first]
    exact Outcome.refill context _ _ _ rfl small unfit null first second (add_exact last)

theorem core_alloc_outcome (cfg : Config w) (window : Option (Window w)) (size : Word w)
    (bypass : Bool) (arena : Arena w) (ordered : ∀ context, window = some context → Ordered context)
    (nowrap : ∀ b ∈ (ugcCoreAlloc cfg.quantum window size bypass cfg.header arena).arena.blocks,
      b.stop < 2 ^ w) :
    Outcome cfg window size bypass arena
      (ugcCoreAlloc cfg.quantum window size bypass cfg.header arena) := by
  have branch := core_alloc_branch cfg window size bypass
  generalize ugcCoreAlloc cfg.quantum window size bypass cfg.header = alloc at branch nowrap ⊢
  cases branch with
  | overflow wraps => exact Outcome.overflow wraps
  | direct room aside => exact direct_outcome cfg window size bypass arena room aside nowrap
  | bump context given shared small live fits =>
    rw [fits_test (ordered context given live)] at fits
    have last := context.allocLimit.isLt
    exact Outcome.bump context _ given small live (by omega) (add_exact (by omega))
  | refill context given shared small unfit =>
    subst given
    refine refill_outcome cfg context size bypass arena small ?_ nowrap
    intro live
    have short := unfit live
    rw [fits_test (ordered context rfl live)] at short
    omega

theorem inline_bump_exact {window : Window w} {size object : Word w} {after : Window w}
    (ordered : Ordered window) (bumped : inlineBump window size = some (object, after)) :
    object = window.allocPtr ∧ window.allocPtr ≠ 0#w ∧ after.allocLimit = window.allocLimit ∧
      window.allocPtr.toNat + size.toNat ≤ window.allocLimit.toNat ∧
      after.allocPtr.toNat = window.allocPtr.toNat + size.toNat := by
  unfold inlineBump at bumped
  split at bumped
  · rename_i fits
    obtain ⟨rfl, rfl⟩ := Prod.mk.inj (Option.some.inj bumped)
    have le := ordered fits.1
    have held := (fits_test le).mp fits.2
    have last := window.allocLimit.isLt
    exact ⟨rfl, fits.1, rfl, by omega, add_exact (by omega)⟩
  · simp at bumped

end UgcExactAllocation
