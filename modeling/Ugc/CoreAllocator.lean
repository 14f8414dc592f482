import Mathlib.Algebra.Group.Nat.Defs
import Ugc.ByteExtents

/-!
`ugc_zalloc` and `ugc_core_alloc` over machine words. A `Word w` is a `size_t`
or a `uint8_t *` of a w-bit target, so every addition and subtraction wraps as
the C code's does. `calloc` is outside the repository: an arena answers each
call with the next word of a list fixed in advance (null once it is exhausted)
and zeroes the block, and `ZallocContract` is what is asked of the answers.
-/
namespace UgcAllocator
open ByteExtents
variable {w : Nat}

abbrev Word (w : Nat) := BitVec w

/-- One call of `ugc_zalloc`: the bytes asked for and the pointer returned. -/
structure Call (w : Nat) where
  bytes : Word w
  answer : Word w
  deriving DecidableEq, Repr

def Call.granted (c : Call w) : Option Extent :=
  if c.answer = 0#w then none else some ⟨c.answer.toNat, c.bytes.toNat⟩

structure Arena (w : Nat) where
  answers : List (Word w)
  calls : List (Call w)
  bytes : Nat → UInt8

/-- The blocks obtained so far, latest first. -/
def Arena.blocks (arena : Arena w) : List Extent := arena.calls.filterMap Call.granted

/-- A fresh block is disjoint from every earlier one and, its end included,
    does not wrap around the address space. -/
def ZallocContract (arena : Arena w) : Prop :=
  arena.blocks.Pairwise Extent.Apart ∧ ∀ b ∈ arena.blocks, b.stop < 2 ^ w

instance (arena : Arena w) : Decidable (ZallocContract arena) :=
  inferInstanceAs (Decidable (_ ∧ _))

def Arena.next (arena : Arena w) : Word w := arena.answers.headD 0#w

def ugcZalloc (n : Word w) (arena : Arena w) : Word w × Arena w :=
  (arena.next,
    { answers := arena.answers.tail
      calls := ⟨n, arena.next⟩ :: arena.calls
      bytes := if arena.next = 0#w then arena.bytes
        else fill ⟨arena.next.toNat, n.toNat⟩ 0 arena.bytes })

/-- The pair of fields of a `gc_alloc_context` that the core works on. -/
structure Window (w : Nat) where
  allocPtr : Word w
  allocLimit : Word w
  deriving DecidableEq, Repr

/-- What a call returns, and what it leaves in `*alloc_ptr_p`, `*alloc_limit_p`. -/
structure Served (w : Nat) where
  object : Word w
  window : Option (Window w)
  arena : Arena w

def sizeMax (w : Nat) : Word w := BitVec.allOnes w

def ugcAllocDirect (size headerSize : Word w) (arena : Arena w) : Word w × Arena w :=
  let zalloc := ugcZalloc (size + headerSize) arena
  if zalloc.1 = 0#w then (0#w, zalloc.2) else (zalloc.1 + headerSize, zalloc.2)

def ugcCtxRefill (quantum : Word w) (window : Window w) (size headerSize : Word w)
    (arena : Arena w) : Served w :=
  let zalloc := ugcZalloc quantum arena
  if zalloc.1 = 0#w then ⟨0#w, some window, zalloc.2⟩
  else
    ⟨zalloc.1 + headerSize,
      some ⟨zalloc.1 + headerSize + size, zalloc.1 + quantum⟩, zalloc.2⟩

/-- `window` is `none` for a null `alloc_ptr_p`; `quantum` is `UGC_ALLOC_QUANTUM`. -/
def ugcCoreAlloc (quantum : Word w) (window : Option (Window w)) (size : Word w)
    (bypassContext : Bool) (headerSize : Word w) (arena : Arena w) : Served w :=
  if size > sizeMax w - headerSize then ⟨0#w, window, arena⟩
  else
    let sizeWithHeader := size + headerSize
    match window with
    | none =>
      let direct := ugcAllocDirect size headerSize arena
      ⟨direct.1, none, direct.2⟩
    | some context =>
      if bypassContext ∨ sizeWithHeader > quantum then
        let direct := ugcAllocDirect size headerSize arena
        ⟨direct.1, some context, direct.2⟩
      else if context.allocPtr ≠ 0#w ∧ context.allocLimit - context.allocPtr ≥ size then
        ⟨context.allocPtr, some { context with allocPtr := context.allocPtr + size }, arena⟩
      else ugcCtxRefill quantum context size headerSize arena

/-- The runtime's inline path, which is not in this repository: it hands out
    `alloc_ptr` when the object fits the window and otherwise does nothing. -/
def inlineBump (window : Window w) (size : Word w) : Option (Word w × Window w) :=
  if window.allocPtr ≠ 0#w ∧ size ≤ window.allocLimit - window.allocPtr then
    some (window.allocPtr, { window with allocPtr := window.allocPtr + size })
  else none

/-- A quantum and a header size within the precondition of `ugc_core_alloc`. -/
structure Config (w : Nat) where
  quantum : Word w
  header : Word w
  header_pos : 1 ≤ header.toNat
  header_half : header.toNat ≤ quantum.toNat / 2

def Arena.after (arena : Arena w) (n : Word w) : Arena w := (ugcZalloc n arena).2

theorem blocks_after (n : Word w) (arena : Arena w) :
    (arena.after n).blocks =
      if arena.next = 0#w then arena.blocks
      else ⟨arena.next.toNat, n.toNat⟩ :: arena.blocks := by
  simp only [Arena.blocks, Arena.after, ugcZalloc, List.filterMap_cons, Call.granted]
  by_cases null : arena.next = 0#w <;> simp only [null, ↓reduceIte]

theorem granted_block {arena : Arena w} (granted : arena.next ≠ 0#w) (n : Word w) :
    ⟨arena.next.toNat, n.toNat⟩ ∈ (arena.after n).blocks := by
  rw [blocks_after, if_neg granted]
  exact List.mem_cons_self

theorem bytes_after (n : Word w) (arena : Arena w) :
    (arena.after n).bytes =
      if arena.next = 0#w then arena.bytes
      else fill ⟨arena.next.toNat, n.toNat⟩ 0 arena.bytes := rfl

theorem alloc_direct_null {size headerSize : Word w} {arena : Arena w}
    (null : arena.next = 0#w) :
    ugcAllocDirect size headerSize arena = (0#w, arena.after (size + headerSize)) := if_pos null

theorem alloc_direct_granted {size headerSize : Word w} {arena : Arena w}
    (granted : arena.next ≠ 0#w) :
    ugcAllocDirect size headerSize arena =
      (arena.next + headerSize, arena.after (size + headerSize)) := if_neg granted

theorem ctx_refill_null {quantum size headerSize : Word w} {window : Window w} {arena : Arena w}
    (null : arena.next = 0#w) :
    ugcCtxRefill quantum window size headerSize arena =
      ⟨0#w, some window, arena.after quantum⟩ := if_pos null

theorem ctx_refill_granted {quantum size headerSize : Word w} {window : Window w} {arena : Arena w}
    (granted : arena.next ≠ 0#w) :
    ugcCtxRefill quantum window size headerSize arena =
      ⟨arena.next + headerSize,
        some ⟨arena.next + headerSize + size, arena.next + quantum⟩, arena.after quantum⟩ :=
  if_neg granted

/-- The contract is inherited by every earlier arena: calls are only added. -/
theorem contract_before {n : Word w} {arena : Arena w} (contract : ZallocContract (arena.after n)) :
    ZallocContract arena := by
  unfold ZallocContract at contract ⊢
  rw [blocks_after] at contract
  split at contract
  · exact contract
  · exact ⟨(List.pairwise_cons.mp contract.1).2,
      fun b member => contract.2 b (List.mem_cons_of_mem _ member)⟩

section Branches
variable {quantum size headerSize : Word w} {bypass : Bool} {arena : Arena w}
variable {window : Option (Window w)} {context : Window w}

theorem core_alloc_overflow (wraps : size > sizeMax w - headerSize) :
    ugcCoreAlloc quantum window size bypass headerSize arena = ⟨0#w, window, arena⟩ :=
  if_pos wraps

theorem core_alloc_no_context (room : ¬ size > sizeMax w - headerSize) :
    ugcCoreAlloc quantum none size bypass headerSize arena =
      ⟨(ugcAllocDirect size headerSize arena).1, none,
        (ugcAllocDirect size headerSize arena).2⟩ := if_neg room

theorem core_alloc_aside (room : ¬ size > sizeMax w - headerSize)
    (aside : bypass = true ∨ size + headerSize > quantum) :
    ugcCoreAlloc quantum (some context) size bypass headerSize arena =
      ⟨(ugcAllocDirect size headerSize arena).1, some context,
        (ugcAllocDirect size headerSize arena).2⟩ := (if_neg room).trans (if_pos aside)

theorem core_alloc_bump (room : ¬ size > sizeMax w - headerSize)
    (within : ¬ (bypass = true ∨ size + headerSize > quantum))
    (fits : context.allocPtr ≠ 0#w ∧ context.allocLimit - context.allocPtr ≥ size) :
    ugcCoreAlloc quantum (some context) size bypass headerSize arena =
      ⟨context.allocPtr, some ⟨context.allocPtr + size, context.allocLimit⟩, arena⟩ :=
  (if_neg room).trans ((if_neg within).trans (if_pos fits))

theorem core_alloc_refill (room : ¬ size > sizeMax w - headerSize)
    (within : ¬ (bypass = true ∨ size + headerSize > quantum))
    (unfit : ¬ (context.allocPtr ≠ 0#w ∧ context.allocLimit - context.allocPtr ≥ size)) :
    ugcCoreAlloc quantum (some context) size bypass headerSize arena =
      ugcCtxRefill quantum context size headerSize arena :=
  (if_neg room).trans ((if_neg within).trans (if_neg unfit))

end Branches

theorem alloc_direct_arena (size headerSize : Word w) (arena : Arena w) :
    (ugcAllocDirect size headerSize arena).2 = arena.after (size + headerSize) := by
  by_cases null : arena.next = 0#w
  · rw [alloc_direct_null null]
  · rw [alloc_direct_granted null]

theorem ctx_refill_arena (quantum : Word w) (context : Window w) (size headerSize : Word w)
    (arena : Arena w) :
    (ugcCtxRefill quantum context size headerSize arena).arena = arena.after quantum := by
  by_cases null : arena.next = 0#w
  · rw [ctx_refill_null null]
  · rw [ctx_refill_granted null]

/-- A call of the core makes at most one call of `ugc_zalloc`. -/
theorem core_alloc_arena (quantum : Word w) (window : Option (Window w)) (size : Word w)
    (bypass : Bool) (headerSize : Word w) (arena : Arena w) :
    (ugcCoreAlloc quantum window size bypass headerSize arena).arena = arena ∨
      ∃ n, (ugcCoreAlloc quantum window size bypass headerSize arena).arena = arena.after n := by
  by_cases wraps : size > sizeMax w - headerSize
  · exact Or.inl (by rw [core_alloc_overflow wraps])
  · cases window with
    | none => exact Or.inr ⟨_, by rw [core_alloc_no_context wraps, alloc_direct_arena]⟩
    | some context =>
      by_cases aside : bypass = true ∨ size + headerSize > quantum
      · exact Or.inr ⟨_, by rw [core_alloc_aside wraps aside, alloc_direct_arena]⟩
      · by_cases fits : context.allocPtr ≠ 0#w ∧ context.allocLimit - context.allocPtr ≥ size
        · exact Or.inl (by rw [core_alloc_bump wraps aside fits])
        · exact Or.inr ⟨_, by rw [core_alloc_refill wraps aside fits, ctx_refill_arena]⟩

theorem blocks_kept {arena : Arena w} {b : Extent} (member : b ∈ arena.blocks) (n : Word w) :
    b ∈ (arena.after n).blocks := by
  rw [blocks_after]
  split
  · exact member
  · exact List.mem_cons_of_mem _ member

theorem core_alloc_blocks {quantum : Word w} {window : Option (Window w)} {size : Word w}
    {bypass : Bool} {headerSize : Word w} {arena : Arena w} {b : Extent}
    (member : b ∈ arena.blocks) :
    b ∈ (ugcCoreAlloc quantum window size bypass headerSize arena).arena.blocks := by
  rcases core_alloc_arena quantum window size bypass headerSize arena with same | ⟨n, called⟩
  · rwa [same]
  · rw [called]
    exact blocks_kept member n

theorem core_alloc_contract_back {quantum : Word w} {window : Option (Window w)} {size : Word w}
    {bypass : Bool} {headerSize : Word w} {arena : Arena w}
    (contract : ZallocContract (ugcCoreAlloc quantum window size bypass headerSize arena).arena) :
    ZallocContract arena := by
  rcases core_alloc_arena quantum window size bypass headerSize arena with same | ⟨n, called⟩
  · exact same ▸ contract
  · exact contract_before (called ▸ contract)

end UgcAllocator
