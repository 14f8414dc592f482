import Ugc.ExactAllocation
import Ugc.TracedWords

/-!
The fixed-width arithmetic of `ugc_core_alloc` against exact arithmetic. The code
is written once more with every sum and difference recorded, in the order it is
executed, and with the path it takes; without the record it is the code of the
model. `exactCoreAlloc` says over unbounded integers what a call should do.
-/
namespace UgcExactArithmetic
open ByteExtents TracedWords UgcAllocator UgcExactAllocation
variable {w : Nat}

inductive Path where
  | overflow | direct | bump | refill
  deriving DecidableEq, Repr

def tracedAllocDirect (size headerSize : Word w) (arena : Arena w) :
    Traced w (Word w × Arena w) := do
  let bytes ← plus size headerSize
  let zalloc := ugcZalloc bytes arena
  if zalloc.1 = 0#w then pure (0#w, zalloc.2)
  else do
    let object ← plus zalloc.1 headerSize
    pure (object, zalloc.2)

def tracedCtxRefill (quantum : Word w) (window : Window w) (size headerSize : Word w)
    (arena : Arena w) : Traced w (Served w) := do
  let zalloc := ugcZalloc quantum arena
  if zalloc.1 = 0#w then pure ⟨0#w, some window, zalloc.2⟩
  else do
    let first ← plus zalloc.1 headerSize
    let ptr ← plus first size
    let limit ← plus zalloc.1 quantum
    let object ← plus zalloc.1 headerSize
    pure ⟨object, some ⟨ptr, limit⟩, zalloc.2⟩

/-- The difference is formed only when `alloc_ptr` is not null. -/
def tracedFits (context : Window w) (size : Word w) : Traced w Bool :=
  if context.allocPtr ≠ 0#w then do
    let room ← pointerDifference context.allocLimit context.allocPtr
    pure (decide (room ≥ size))
  else pure false

def tracedCoreAlloc (quantum : Word w) (window : Option (Window w)) (size : Word w)
    (bypassContext : Bool) (headerSize : Word w) (arena : Arena w) :
    Traced w (Path × Served w) := do
  let most ← minus (sizeMax w) headerSize
  if size > most then pure (.overflow, ⟨0#w, window, arena⟩)
  else do
    let sizeWithHeader ← plus size headerSize
    match window with
    | none => do
      let direct ← tracedAllocDirect size headerSize arena
      pure (.direct, ⟨direct.1, none, direct.2⟩)
    | some context =>
      if bypassContext ∨ sizeWithHeader > quantum then do
        let direct ← tracedAllocDirect size headerSize arena
        pure (.direct, ⟨direct.1, some context, direct.2⟩)
      else do
        let fits ← tracedFits context size
        if fits then do
          let ptr ← plus context.allocPtr size
          pure (.bump, ⟨context.allocPtr, some ⟨ptr, context.allocLimit⟩, arena⟩)
        else do
          let served ← tracedCtxRefill quantum context size headerSize arena
          pure (.refill, served)

theorem traced_direct_value (size headerSize : Word w) (arena : Arena w) :
    (tracedAllocDirect size headerSize arena).value = ugcAllocDirect size headerSize arena := by
  unfold tracedAllocDirect
  rw [bind_value]
  by_cases null : arena.next = 0#w
  · rw [alloc_direct_null null]
    exact congrArg Traced.value (if_pos null)
  · rw [alloc_direct_granted null]
    exact congrArg Traced.value (if_neg null)

theorem traced_refill_value (quantum : Word w) (window : Window w)
    (size headerSize : Word w) (arena : Arena w) :
    (tracedCtxRefill quantum window size headerSize arena).value =
      ugcCtxRefill quantum window size headerSize arena := by
  unfold tracedCtxRefill
  by_cases null : arena.next = 0#w
  · rw [ctx_refill_null null]
    exact congrArg Traced.value (if_pos null)
  · rw [ctx_refill_granted null]
    exact congrArg Traced.value (if_neg null)

theorem traced_fits_value (context : Window w) (size : Word w) :
    (tracedFits context size).value =
      decide (context.allocPtr ≠ 0#w ∧ context.allocLimit - context.allocPtr ≥ size) := by
  unfold tracedFits
  by_cases live : context.allocPtr ≠ 0#w
  · rw [if_pos live, bind_value, pure_value]
    exact decide_eq_decide.mpr ⟨fun held => ⟨live, held⟩, And.right⟩
  · rw [if_neg live, pure_value]
    exact (decide_eq_false fun fits => live fits.1).symm

section Paths
variable {quantum size headerSize : Word w} {bypass : Bool} {arena : Arena w}
variable {window : Option (Window w)} {context : Window w}

theorem traced_overflow (wraps : size > sizeMax w - headerSize) :
    tracedCoreAlloc quantum window size bypass headerSize arena = (do
      let _ ← minus (sizeMax w) headerSize
      pure (.overflow, ⟨0#w, window, arena⟩)) :=
  bind_after (if_pos wraps)

theorem traced_direct (room : ¬ size > sizeMax w - headerSize)
    (aside : window = none ∨ bypass = true ∨ size + headerSize > quantum) :
    tracedCoreAlloc quantum window size bypass headerSize arena = (do
      let _ ← minus (sizeMax w) headerSize
      let _ ← plus size headerSize
      let direct ← tracedAllocDirect size headerSize arena
      pure (.direct, ⟨direct.1, window, direct.2⟩)) := by
  refine bind_after ((if_neg room).trans (bind_after ?_))
  cases window with
  | none => rfl
  | some context => exact if_pos (aside.resolve_left (Option.some_ne_none context))

theorem traced_bump (room : ¬ size > sizeMax w - headerSize)
    (within : ¬ (bypass = true ∨ size + headerSize > quantum))
    (fits : context.allocPtr ≠ 0#w ∧ context.allocLimit - context.allocPtr ≥ size) :
    tracedCoreAlloc quantum (some context) size bypass headerSize arena = (do
      let _ ← minus (sizeMax w) headerSize
      let _ ← plus size headerSize
      let _ ← tracedFits context size
      let ptr ← plus context.allocPtr size
      pure (.bump, ⟨context.allocPtr, some ⟨ptr, context.allocLimit⟩, arena⟩)) := by
  have tested : (tracedFits context size).value = true :=
    (traced_fits_value context size).trans (decide_eq_true fits)
  exact bind_after ((if_neg room).trans (bind_after ((if_neg within).trans
    (bind_after (if_pos tested)))))

theorem traced_refill (room : ¬ size > sizeMax w - headerSize)
    (within : ¬ (bypass = true ∨ size + headerSize > quantum))
    (unfit : ¬ (context.allocPtr ≠ 0#w ∧ context.allocLimit - context.allocPtr ≥ size)) :
    tracedCoreAlloc quantum (some context) size bypass headerSize arena = (do
      let _ ← minus (sizeMax w) headerSize
      let _ ← plus size headerSize
      let _ ← tracedFits context size
      let served ← tracedCtxRefill quantum context size headerSize arena
      pure (.refill, served)) := by
  have tested : ¬ (tracedFits context size).value = true := by
    rw [traced_fits_value, decide_eq_false unfit]
    exact Bool.false_ne_true
  exact bind_after ((if_neg room).trans (bind_after ((if_neg within).trans
    (bind_after (if_neg tested)))))

end Paths

/-- The four ways through the traced code. -/
inductive Trace (quantum : Word w) (window : Option (Window w)) (size : Word w) (bypass : Bool)
    (headerSize : Word w) (arena : Arena w) : Traced w (Path × Served w) → Prop where
  | overflow (wraps : size > sizeMax w - headerSize) :
      Trace quantum window size bypass headerSize arena (do
        let _ ← minus (sizeMax w) headerSize
        pure (.overflow, ⟨0#w, window, arena⟩))
  | direct (room : ¬ size > sizeMax w - headerSize)
      (aside : window = none ∨ bypass = true ∨ size + headerSize > quantum) :
      Trace quantum window size bypass headerSize arena (do
        let _ ← minus (sizeMax w) headerSize
        let _ ← plus size headerSize
        let direct ← tracedAllocDirect size headerSize arena
        pure (.direct, ⟨direct.1, window, direct.2⟩))
  | bump (context : Window w) (given : window = some context)
      (room : ¬ size > sizeMax w - headerSize)
      (within : ¬ (bypass = true ∨ size + headerSize > quantum))
      (fits : context.allocPtr ≠ 0#w ∧ context.allocLimit - context.allocPtr ≥ size) :
      Trace quantum window size bypass headerSize arena (do
        let _ ← minus (sizeMax w) headerSize
        let _ ← plus size headerSize
        let _ ← tracedFits context size
        let ptr ← plus context.allocPtr size
        pure (.bump, ⟨context.allocPtr, some ⟨ptr, context.allocLimit⟩, arena⟩))
  | refill (context : Window w) (given : window = some context)
      (room : ¬ size > sizeMax w - headerSize)
      (within : ¬ (bypass = true ∨ size + headerSize > quantum))
      (unfit : ¬ (context.allocPtr ≠ 0#w ∧ context.allocLimit - context.allocPtr ≥ size)) :
      Trace quantum window size bypass headerSize arena (do
        let _ ← minus (sizeMax w) headerSize
        let _ ← plus size headerSize
        let _ ← tracedFits context size
        let served ← tracedCtxRefill quantum context size headerSize arena
        pure (.refill, served))

theorem traced_core_alloc (quantum : Word w) (window : Option (Window w)) (size : Word w)
    (bypass : Bool) (headerSize : Word w) (arena : Arena w) :
    Trace quantum window size bypass headerSize arena
      (tracedCoreAlloc quantum window size bypass headerSize arena) := by
  by_cases wraps : size > sizeMax w - headerSize
  · rw [traced_overflow wraps]
    exact Trace.overflow wraps
  · cases window with
    | none =>
      rw [traced_direct wraps (Or.inl rfl)]
      exact Trace.direct wraps (Or.inl rfl)
    | some context =>
      by_cases aside : bypass = true ∨ size + headerSize > quantum
      · rw [traced_direct wraps (Or.inr aside)]
        exact Trace.direct wraps (Or.inr aside)
      · by_cases fits : context.allocPtr ≠ 0#w ∧ context.allocLimit - context.allocPtr ≥ size
        · rw [traced_bump wraps aside fits]
          exact Trace.bump context rfl wraps aside fits
        · rw [traced_refill wraps aside fits]
          exact Trace.refill context rfl wraps aside fits

/-- Without the record, the traced code is the code. -/
theorem traced_value (quantum : Word w) (window : Option (Window w)) (size : Word w)
    (bypass : Bool) (headerSize : Word w) (arena : Arena w) :
    (tracedCoreAlloc quantum window size bypass headerSize arena).value.2 =
      ugcCoreAlloc quantum window size bypass headerSize arena := by
  have trace := traced_core_alloc quantum window size bypass headerSize arena
  generalize tracedCoreAlloc quantum window size bypass headerSize arena = traced at trace
  cases trace with
  | overflow wraps => exact (core_alloc_overflow wraps).symm
  | direct room aside =>
    cases window with
    | none =>
      rw [core_alloc_no_context room, ← traced_direct_value]
      rfl
    | some context =>
      rw [core_alloc_aside room (aside.resolve_left (Option.some_ne_none context)),
        ← traced_direct_value]
      rfl
  | bump context given room within fits =>
    subst given
    exact (core_alloc_bump room within fits).symm
  | refill context given room within unfit =>
    subst given
    rw [core_alloc_refill room within unfit, ← traced_refill_value]
    rfl

/-- Exact as words, and as `ptrdiff_t` on a target of which a quantum is less than half. -/
def Sound (cfg : Config w) (op : Operation w) : Prop :=
  op.Exact ∧ (2 * cfg.quantum.toNat < 2 ^ w → op.SignedExact)

/-- A null window, or one whose pointers are in order and in one quantum. -/
def InQuantum (cfg : Config w) (context : Window w) : Prop :=
  context.allocPtr ≠ 0#w → context.allocPtr.toNat ≤ context.allocLimit.toNat ∧
    context.allocLimit.toNat - context.allocPtr.toNat ≤ cfg.quantum.toNat

section Operations
variable (cfg : Config w) {size : Word w} {context : Window w} {arena : Arena w}

theorem plus_sound {x y : Word w} (fits : x.toNat + y.toNat < 2 ^ w) :
    Every (Sound cfg) (plus x y) := every_plus ⟨fits, fun _ => trivial⟩

theorem header_sound : Every (Sound cfg) (minus (sizeMax w) cfg.header) := by
  have last := cfg.header.isLt
  refine every_minus ⟨?_, fun _ => trivial⟩
  simp only [Operation.Exact, sizeMax, BitVec.toNat_allOnes]
  omega

theorem direct_sound (room : size.toNat + cfg.header.toNat < 2 ^ w)
    (nowrap : ∀ b ∈ (ugcAllocDirect size cfg.header arena).2.blocks, b.stop < 2 ^ w) :
    Every (Sound cfg) (tracedAllocDirect size cfg.header arena) := by
  refine every_bind (plus_sound cfg room) (every_ite (fun _ => every_pure _ _) fun granted => ?_)
  change arena.next ≠ 0#w at granted
  rw [alloc_direct_granted granted] at nowrap
  have last := granted_end granted nowrap
  rw [add_exact room] at last
  have placed : arena.next.toNat + cfg.header.toNat < 2 ^ w := by omega
  exact every_bind (plus_sound cfg placed) (every_pure _ _)

theorem refill_sound (small : size.toNat + cfg.header.toNat ≤ cfg.quantum.toNat)
    (nowrap : ∀ b ∈ (ugcCtxRefill cfg.quantum context size cfg.header arena).arena.blocks,
      b.stop < 2 ^ w) :
    Every (Sound cfg) (tracedCtxRefill cfg.quantum context size cfg.header arena) := by
  refine every_ite (fun _ => every_pure _ _) fun granted => ?_
  change arena.next ≠ 0#w at granted
  rw [ctx_refill_granted granted] at nowrap
  have last := granted_end granted nowrap
  have placed : arena.next.toNat + cfg.header.toNat < 2 ^ w := by omega
  have moved : (arena.next + cfg.header).toNat + size.toNat < 2 ^ w := by
    rw [add_exact placed]
    omega
  exact every_bind (plus_sound cfg placed) (every_bind (plus_sound cfg moved)
    (every_bind (plus_sound cfg last) (every_bind (plus_sound cfg placed) (every_pure _ _))))

theorem fits_sound (held : InQuantum cfg context) :
    Every (Sound cfg) (tracedFits context size) := by
  refine every_ite (fun live => every_bind (every_difference ?_) (every_pure _ _))
    fun _ => every_pure _ _
  obtain ⟨le, within⟩ := held live
  exact ⟨le, fun half => ptrdiff_signed le (by omega)⟩

/-- Every sum and difference a call executes is exact. -/
theorem operations_sound (window : Option (Window w)) (bypass : Bool)
    (held : ∀ context, window = some context → InQuantum cfg context)
    (nowrap : ∀ b ∈ (ugcCoreAlloc cfg.quantum window size bypass cfg.header arena).arena.blocks,
      b.stop < 2 ^ w) :
    Every (Sound cfg) (tracedCoreAlloc cfg.quantum window size bypass cfg.header arena) := by
  rw [← traced_value] at nowrap
  have trace := traced_core_alloc cfg.quantum window size bypass cfg.header arena
  generalize tracedCoreAlloc cfg.quantum window size bypass cfg.header arena = traced
    at trace nowrap ⊢
  cases trace with
  | overflow wraps => exact every_bind (header_sound cfg) (every_pure _ _)
  | direct room aside =>
    have sum := fits_with_header room
    simp only [bind_value, pure_value, traced_direct_value] at nowrap
    exact every_bind (header_sound cfg) (every_bind (plus_sound cfg sum)
      (every_bind (direct_sound cfg sum nowrap) (every_pure _ _)))
  | bump context given room within fits =>
    have sum := fits_with_header room
    have le := (held context given fits.1).1
    have last := context.allocLimit.isLt
    have held' := (fits_test le).mp fits.2
    exact every_bind (header_sound cfg) (every_bind (plus_sound cfg sum)
      (every_bind (fits_sound cfg (held context given))
        (every_bind (plus_sound cfg (by omega)) (every_pure _ _))))
  | refill context given room within unfit =>
    have sum := fits_with_header room
    have small : size.toNat + cfg.header.toNat ≤ cfg.quantum.toNat :=
      Nat.le_of_not_lt fun large => within (Or.inr ((large_test sum).mpr large))
    simp only [bind_value, pure_value, traced_refill_value] at nowrap
    exact every_bind (header_sound cfg) (every_bind (plus_sound cfg sum)
      (every_bind (fits_sound cfg (held context given))
        (every_bind (refill_sound cfg small nowrap) (every_pure _ _))))

end Operations

structure ExactWindow where
  ptr : Nat
  limit : Nat
  deriving DecidableEq, Repr

def exactWindow (window : Window w) : ExactWindow :=
  ⟨window.allocPtr.toNat, window.allocLimit.toNat⟩

/-- The path, the result, the context left behind and the argument of `ugc_zalloc`. -/
structure ExactServed where
  path : Path
  object : Nat
  window : Option ExactWindow
  request : Option Nat
  deriving DecidableEq, Repr

/-- The specification over unbounded integers, for an address space of 2^w bytes;
    `answer` is what `ugc_zalloc` returns if it is called. -/
def exactCoreAlloc (w quantum : Nat) (window : Option ExactWindow) (size : Nat)
    (bypassContext : Bool) (headerSize answer : Nat) : ExactServed :=
  let object := if answer = 0 then 0 else answer + headerSize
  if 2 ^ w ≤ size + headerSize then ⟨.overflow, 0, window, none⟩
  else
    match window with
    | none => ⟨.direct, object, none, some (size + headerSize)⟩
    | some context =>
      if bypassContext = true ∨ quantum < size + headerSize then
        ⟨.direct, object, some context, some (size + headerSize)⟩
      else if context.ptr ≠ 0 ∧ context.ptr + size ≤ context.limit then
        ⟨.bump, context.ptr, some ⟨context.ptr + size, context.limit⟩, none⟩
      else if answer = 0 then ⟨.refill, 0, some context, some quantum⟩
      else
        ⟨.refill, object, some ⟨answer + headerSize + size, answer + quantum⟩, some quantum⟩

section Specification
variable {quantum size headerSize answer : Nat} {bypass : Bool} {window : Option ExactWindow}
variable {context : ExactWindow}

theorem exact_overflow (wraps : 2 ^ w ≤ size + headerSize) :
    exactCoreAlloc w quantum window size bypass headerSize answer =
      ⟨.overflow, 0, window, none⟩ := if_pos wraps

theorem exact_direct (room : size + headerSize < 2 ^ w)
    (aside : window = none ∨ bypass = true ∨ quantum < size + headerSize) :
    exactCoreAlloc w quantum window size bypass headerSize answer =
      ⟨.direct, if answer = 0 then 0 else answer + headerSize, window,
        some (size + headerSize)⟩ := by
  refine (if_neg (Nat.not_le_of_lt room)).trans ?_
  cases window with
  | none => rfl
  | some context => exact if_pos (aside.resolve_left (Option.some_ne_none context))

theorem exact_bump (room : size + headerSize < 2 ^ w)
    (within : ¬ (bypass = true ∨ quantum < size + headerSize))
    (fits : context.ptr ≠ 0 ∧ context.ptr + size ≤ context.limit) :
    exactCoreAlloc w quantum (some context) size bypass headerSize answer =
      ⟨.bump, context.ptr, some ⟨context.ptr + size, context.limit⟩, none⟩ :=
  (if_neg (Nat.not_le_of_lt room)).trans ((if_neg within).trans (if_pos fits))

theorem exact_refill (room : size + headerSize < 2 ^ w)
    (within : ¬ (bypass = true ∨ quantum < size + headerSize))
    (unfit : ¬ (context.ptr ≠ 0 ∧ context.ptr + size ≤ context.limit)) :
    exactCoreAlloc w quantum (some context) size bypass headerSize answer =
      if answer = 0 then ⟨.refill, 0, some context, some quantum⟩
      else ⟨.refill, if answer = 0 then 0 else answer + headerSize,
        some ⟨answer + headerSize + size, answer + quantum⟩, some quantum⟩ :=
  (if_neg (Nat.not_le_of_lt room)).trans ((if_neg within).trans (if_neg unfit))

end Specification

/-- What a call asked of the allocator: nothing, or once for n bytes. -/
def Asked (arena after : Arena w) : Option Nat → Prop
  | none => after = arena
  | some n => ∃ bytes : Word w, bytes.toNat = n ∧ after = arena.after bytes

structure Agrees (exact : ExactServed) (arena : Arena w) (taken : Path × Served w) : Prop where
  path : taken.1 = exact.path
  object : taken.2.object.toNat = exact.object
  window : taken.2.window.map exactWindow = exact.window
  request : Asked arena taken.2.arena exact.request

section Agreement
variable (cfg : Config w) {size : Word w} {context : Window w} {bypass : Bool} {arena : Arena w}
variable {window : Option (Window w)}

theorem direct_agrees (room : size.toNat + cfg.header.toNat < 2 ^ w)
    (aside : window = none ∨ bypass = true ∨ cfg.quantum.toNat < size.toNat + cfg.header.toNat)
    (nowrap : ∀ b ∈ (ugcAllocDirect size cfg.header arena).2.blocks, b.stop < 2 ^ w) :
    Agrees (exactCoreAlloc w cfg.quantum.toNat (window.map exactWindow) size.toNat bypass
        cfg.header.toNat arena.next.toNat) arena
      (.direct, ⟨(ugcAllocDirect size cfg.header arena).1, window,
        (ugcAllocDirect size cfg.header arena).2⟩) := by
  have given : window.map exactWindow = none ∨ bypass = true ∨
      cfg.quantum.toNat < size.toNat + cfg.header.toNat :=
    aside.imp_left fun absent => by rw [absent, Option.map_none]
  rw [exact_direct room given]
  by_cases null : arena.next = 0#w
  · rw [alloc_direct_null null, if_pos ((null_iff _).mpr null)]
    exact ⟨rfl, BitVec.toNat_zero, rfl, _, add_exact room, rfl⟩
  · rw [alloc_direct_granted null] at nowrap ⊢
    have last := granted_end null nowrap
    rw [add_exact room] at last
    rw [if_neg ((null_iff _).not.mpr null)]
    exact ⟨rfl, add_exact (by omega), rfl, _, add_exact room, rfl⟩

theorem refill_agrees (room : size.toNat + cfg.header.toNat < 2 ^ w)
    (within : ¬ (bypass = true ∨ cfg.quantum.toNat < size.toNat + cfg.header.toNat))
    (unfit : ¬ ((exactWindow context).ptr ≠ 0 ∧
      (exactWindow context).ptr + size.toNat ≤ (exactWindow context).limit))
    (nowrap : ∀ b ∈ (ugcCtxRefill cfg.quantum context size cfg.header arena).arena.blocks,
      b.stop < 2 ^ w) :
    Agrees (exactCoreAlloc w cfg.quantum.toNat (some (exactWindow context)) size.toNat bypass
        cfg.header.toNat arena.next.toNat) arena
      (.refill, ugcCtxRefill cfg.quantum context size cfg.header arena) := by
  rw [exact_refill room within unfit]
  by_cases null : arena.next = 0#w
  · rw [ctx_refill_null null, if_pos ((null_iff _).mpr null)]
    exact ⟨rfl, BitVec.toNat_zero, rfl, _, rfl, rfl⟩
  · rw [ctx_refill_granted null] at nowrap ⊢
    have last := granted_end null nowrap
    have first : (arena.next + cfg.header).toNat = arena.next.toNat + cfg.header.toNat :=
      add_exact (by omega)
    have moved : (arena.next + cfg.header + size).toNat =
        arena.next.toNat + cfg.header.toNat + size.toNat := by
      rw [add_exact (by omega), first]
    have granted := (null_iff _).not.mpr null
    rw [if_neg granted, if_neg granted]
    refine ⟨rfl, first, ?_, _, rfl, rfl⟩
    simp only [Option.map_some, exactWindow, moved, add_exact last]

theorem call_agrees (held : ∀ context, window = some context → InQuantum cfg context)
    (nowrap : ∀ b ∈ (ugcCoreAlloc cfg.quantum window size bypass cfg.header arena).arena.blocks,
      b.stop < 2 ^ w) :
    Agrees (exactCoreAlloc w cfg.quantum.toNat (window.map exactWindow) size.toNat bypass
        cfg.header.toNat arena.next.toNat) arena
      (tracedCoreAlloc cfg.quantum window size bypass cfg.header arena).value := by
  rw [← traced_value] at nowrap
  have trace := traced_core_alloc cfg.quantum window size bypass cfg.header arena
  generalize tracedCoreAlloc cfg.quantum window size bypass cfg.header arena = traced
    at trace nowrap ⊢
  cases trace with
  | overflow wraps =>
    rw [exact_overflow ((overflow_test size cfg.header).mp wraps)]
    exact ⟨rfl, BitVec.toNat_zero, rfl, rfl⟩
  | direct room aside =>
    simp only [bind_value, pure_value, traced_direct_value] at nowrap ⊢
    have sum := fits_with_header room
    rw [large_test sum] at aside
    exact direct_agrees cfg sum aside nowrap
  | bump context given room within fits =>
    subst given
    have sum := fits_with_header room
    have le := (held context rfl fits.1).1
    have inside := (fits_test le).mp fits.2
    have last := context.allocLimit.isLt
    rw [large_test sum] at within
    have spec : exactCoreAlloc w cfg.quantum.toNat (some (exactWindow context)) size.toNat bypass
        cfg.header.toNat arena.next.toNat = _ :=
      exact_bump sum within ⟨(null_iff _).not.mpr fits.1, inside⟩
    rw [Option.map_some, spec]
    refine ⟨rfl, rfl, ?_, rfl⟩
    simp only [bind_value, plus_value, pure_value, Option.map_some, exactWindow,
      add_exact (show context.allocPtr.toNat + size.toNat < 2 ^ w by omega)]
  | refill context given room within unfit =>
    subst given
    have sum := fits_with_header room
    rw [large_test sum] at within
    simp only [bind_value, pure_value, traced_refill_value] at nowrap ⊢
    refine refill_agrees cfg sum within ?_ nowrap
    rintro ⟨live, inside⟩
    have live := (null_iff _).not.mp live
    exact unfit ⟨live, (fits_test (held context rfl live).1).mpr inside⟩

/-- A non-null result has size usable bytes: in the block this call was granted, or in
    what was left of the window. -/
def Usable (window : Option (Window w)) (size : Word w) (arena : Arena w)
    (served : Served w) : Prop :=
  served.object ≠ 0#w →
    (∃ bytes, arena.next ≠ 0#w ∧ served.arena = arena.after bytes ∧
      Extent.Inside ⟨served.object.toNat, size.toNat⟩ ⟨arena.next.toNat, bytes.toNat⟩) ∨
    ∃ context, window = some context ∧
      context.allocPtr.toNat ≤ served.object.toNat ∧
      served.object.toNat + size.toNat ≤ context.allocLimit.toNat

theorem call_usable (held : ∀ context, window = some context → InQuantum cfg context)
    (nowrap : ∀ b ∈ (ugcCoreAlloc cfg.quantum window size bypass cfg.header arena).arena.blocks,
      b.stop < 2 ^ w) :
    Usable window size arena
      (ugcCoreAlloc cfg.quantum window size bypass cfg.header arena) := by
  have outcome := core_alloc_outcome cfg window size bypass arena
    (fun context given live => (held context given live).1) nowrap
  generalize ugcCoreAlloc cfg.quantum window size bypass cfg.header arena = served at outcome
  intro nonnull
  cases outcome with
  | overflow wraps => exact absurd rfl nonnull
  | outOfMemory n null => exact absurd rfl nonnull
  | direct n object aside granted bytes placed =>
    refine Or.inl ⟨n, granted, rfl, ?_, ?_⟩ <;> simp only [stop_mk] <;> omega
  | bump context ptr given small live fits moved =>
    exact Or.inr ⟨context, given, Nat.le_refl _, fits⟩
  | refill context object ptr limit given small unfit granted placed moved ended =>
    refine Or.inl ⟨cfg.quantum, granted, rfl, ?_, ?_⟩ <;> simp only [stop_mk] <;> omega

theorem direct_covers (path : (tracedCoreAlloc cfg.quantum window size bypass cfg.header
      arena).value.1 = .direct) :
    ∃ bytes : Word w, size.toNat + cfg.header.toNat ≤ bytes.toNat ∧
      (ugcCoreAlloc cfg.quantum window size bypass cfg.header arena).arena =
        arena.after bytes := by
  rw [← traced_value]
  have trace := traced_core_alloc cfg.quantum window size bypass cfg.header arena
  generalize tracedCoreAlloc cfg.quantum window size bypass cfg.header arena = traced
    at trace path ⊢
  cases trace with
  | overflow wraps => exact Path.noConfusion path
  | direct room aside =>
    refine ⟨size + cfg.header, Nat.le_of_eq (add_exact (fits_with_header room)).symm, ?_⟩
    simp only [bind_value, pure_value, traced_direct_value]
    exact alloc_direct_arena size cfg.header arena
  | bump context given room within fits => exact Path.noConfusion path
  | refill context given room within unfit => exact Path.noConfusion path

/-- For words of any width, any size and bypass flag, any header of at most half a
    quantum, and any context that is null or lies in one quantum: the code takes the path,
    gives the result and the context, and makes the request of the specification over
    unbounded integers; all its sums and differences are exact; a direct request covers
    size and header; and a result has size usable bytes. -/
theorem core_alloc_exact (held : ∀ context, window = some context → InQuantum cfg context)
    (nowrap : ∀ b ∈ (ugcCoreAlloc cfg.quantum window size bypass cfg.header arena).arena.blocks,
      b.stop < 2 ^ w) :
    (tracedCoreAlloc cfg.quantum window size bypass cfg.header arena).value.2 =
        ugcCoreAlloc cfg.quantum window size bypass cfg.header arena ∧
      Agrees (exactCoreAlloc w cfg.quantum.toNat (window.map exactWindow) size.toNat bypass
          cfg.header.toNat arena.next.toNat) arena
        (tracedCoreAlloc cfg.quantum window size bypass cfg.header arena).value ∧
      Every (Sound cfg) (tracedCoreAlloc cfg.quantum window size bypass cfg.header arena) ∧
      ((tracedCoreAlloc cfg.quantum window size bypass cfg.header arena).value.1 = .direct →
        ∃ bytes : Word w, size.toNat + cfg.header.toNat ≤ bytes.toNat ∧
          (ugcCoreAlloc cfg.quantum window size bypass cfg.header arena).arena =
            arena.after bytes) ∧
      Usable window size arena
        (ugcCoreAlloc cfg.quantum window size bypass cfg.header arena) :=
  ⟨traced_value _ _ _ _ _ _, call_agrees cfg held nowrap,
    operations_sound cfg window bypass held nowrap, direct_covers cfg,
    call_usable cfg held nowrap⟩

end Agreement

def config32 : Config 32 := ⟨65536#32, 8#32, by decide, by decide⟩

def window32 : Window 32 := ⟨4096#32, 8192#32⟩

def arena32 : Arena 32 := ⟨[131072#32], [], fun _ => 0⟩

/-- On a 32-bit target: a request of which size + header is exactly the quantum
    refills a window in which it does not fit. -/
theorem core_alloc_exact_sample :
    Agrees ⟨.refill, 131080, some ⟨196608, 196608⟩, some 65536⟩ arena32
      (tracedCoreAlloc config32.quantum (some window32) 65528#32 false config32.header
        arena32).value := by
  have held : ∀ context, some window32 = some context → InQuantum config32 context := by
    rintro context ⟨⟩
    exact fun _ => by decide
  have nowrap : ∀ b ∈ (ugcCoreAlloc config32.quantum (some window32) 65528#32 false
      config32.header arena32).arena.blocks, b.stop < 2 ^ 32 := by decide +kernel
  exact (core_alloc_exact config32 held nowrap).2.1

end UgcExactArithmetic
