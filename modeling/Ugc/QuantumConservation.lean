import Mathlib.Algebra.Ring.Nat
import Ugc.InlineFastPath
import Ugc.RunTallies

/-!
Where the memory of the quanta goes on one context. The code forgets the
remainder of a window when it refills it, so the remainders are added up beside
the run. Each of them is charged to the object whose request did not fit it,
which is the first object of the next quantum.
-/
namespace UgcQuantumConservation
open ByteExtents StepRuns RunTallies UgcAllocator UgcExactAllocation UgcInlineFastPath
variable {w : Nat}

/-- A non-bypass call of `ugc_core_alloc`, or an inline bump. -/
inductive Request (w : Nat) where
  | core (size : Word w)
  | bump (size : Word w)

def Request.size : Request w → Word w
  | .core size => size
  | .bump size => size

def serve (cfg : Config w) (t : Thread w) : Request w → Word w × Thread w
  | .core size => coreRequest cfg t size
  | .bump size =>
    match inlineBump t.window size with
    | some (object, window) => (object, ⟨window, t.arena⟩)
    | none => (0#w, t)

def advance (cfg : Config w) (t : Thread w) (r : Request w) : Thread w := (serve cfg t r).2

/-- Callers keep size + header within the quantum. -/
def Guarded (cfg : Config w) : Request w → Prop
  | .core size => size.toNat + cfg.header.toNat ≤ cfg.quantum.toNat
  | .bump _ => True

instance (cfg : Config w) : (r : Request w) → Decidable (Guarded cfg r)
  | .core _ => inferInstanceAs (Decidable (_ ≤ _))
  | .bump _ => inferInstanceAs (Decidable True)

/-- A call that does not fit the window and is granted a quantum. -/
def Refills (t : Thread w) : Request w → Prop
  | .core size => ¬ (t.window.allocPtr ≠ 0#w ∧ size ≤ t.window.allocLimit - t.window.allocPtr) ∧
      t.arena.next ≠ 0#w
  | .bump _ => False

instance (t : Thread w) : (r : Request w) → Decidable (Refills t r)
  | .core _ => inferInstanceAs (Decidable (_ ∧ _))
  | .bump _ => inferInstanceAs (Decidable False)

/-- The bytes left in the window. -/
def left (t : Thread w) : Nat := (t.window.allocLimit - t.window.allocPtr).toNat

def refillCount (t : Thread w) (r : Request w) : Nat := if Refills t r then 1 else 0

def objectBytes (cfg : Config w) (t : Thread w) (r : Request w) : Nat :=
  if (serve cfg t r).1 = 0#w then 0 else r.size.toNat

def abandoned (t : Thread w) (r : Request w) : Nat := if Refills t r then left t else 0

inductive Move (cfg : Config w) (t : Thread w) (r : Request w) : Word w × Thread w → Prop where
  | idle (arena : Arena w) (calm : ¬ Refills t r) (blocks : arena.blocks = t.arena.blocks) :
      Move cfg t r (0#w, ⟨t.window, arena⟩)
  | bump (calm : ¬ Refills t r) (live : t.window.allocPtr ≠ 0#w)
      (fits : r.size ≤ t.window.allocLimit - t.window.allocPtr) :
      Move cfg t r (t.window.allocPtr,
        ⟨⟨t.window.allocPtr + r.size, t.window.allocLimit⟩, t.arena⟩)
  | refill (refilled : Refills t r) (granted : t.arena.next ≠ 0#w)
      (small : r.size.toNat + cfg.header.toNat ≤ cfg.quantum.toNat)
      (unfit : t.window.allocPtr ≠ 0#w → ¬ r.size ≤ t.window.allocLimit - t.window.allocPtr) :
      Move cfg t r (t.arena.next + cfg.header,
        ⟨⟨t.arena.next + cfg.header + r.size, t.arena.next + cfg.quantum⟩,
          t.arena.after cfg.quantum⟩)

theorem core_move (cfg : Config w) (t : Thread w) (size : Word w)
    (small : size.toNat + cfg.header.toNat ≤ cfg.quantum.toNat) :
    Move cfg t (.core size) (coreRequest cfg t size) := by
  have last := cfg.quantum.isLt
  have branch := core_alloc_branch cfg (some t.window) size false
  unfold coreRequest
  generalize ugcCoreAlloc cfg.quantum (some t.window) size false cfg.header = alloc at branch ⊢
  cases branch with
  | overflow wraps => omega
  | direct room aside =>
    rcases aside with absent | bypass | large
    · exact absurd absent (Option.some_ne_none _)
    · exact Bool.noConfusion bypass
    · omega
  | bump context given shared small live fits =>
    obtain rfl := Option.some.inj given
    exact Move.bump (fun refilled => refilled.1 ⟨live, fits⟩) live fits
  | refill context given shared small unfit =>
    obtain rfl := Option.some.inj given
    by_cases null : t.arena.next = 0#w
    · rw [ctx_refill_null null]
      refine Move.idle _ (fun refilled => refilled.2 null) ?_
      rw [blocks_after, if_pos null]
    · rw [ctx_refill_granted null]
      exact Move.refill ⟨fun fits => unfit fits.1 fits.2, null⟩ null small unfit

theorem serve_move (cfg : Config w) (t : Thread w) (r : Request w) (guarded : Guarded cfg r) :
    Move cfg t r (serve cfg t r) := by
  cases r with
  | core size => exact core_move cfg t size guarded
  | bump size =>
    by_cases fits : t.window.allocPtr ≠ 0#w ∧ size ≤ t.window.allocLimit - t.window.allocPtr
    · simp only [serve, inlineBump, if_pos fits]
      exact Move.bump not_false fits.1 fits.2
    · simp only [serve, inlineBump, if_neg fits]
      exact Move.idle t.arena not_false rfl

def NoWrap (t : Thread w) : Prop := ∀ b ∈ t.arena.blocks, b.stop < 2 ^ w

instance (t : Thread w) : Decidable (NoWrap t) :=
  inferInstanceAs (Decidable (∀ b ∈ t.arena.blocks, b.stop < 2 ^ w))

/-- A guarded request whose step does not wrap around the address space. -/
def Sound (cfg : Config w) (t : Thread w) (r : Request w) : Prop :=
  NoWrap (advance cfg t r) ∧ Guarded cfg r

theorem left_after_bump {t : Thread w} {size : Word w}
    (fits : size ≤ t.window.allocLimit - t.window.allocPtr) :
    left ⟨⟨t.window.allocPtr + size, t.window.allocLimit⟩, t.arena⟩ + size.toNat = left t :=
  rest_after_bump fits

theorem left_after_refill (cfg : Config w) (base size : Word w) (arena : Arena w)
    (small : size.toNat + cfg.header.toNat ≤ cfg.quantum.toNat) :
    left ⟨⟨base + cfg.header + size, base + cfg.quantum⟩, arena⟩ + cfg.header.toNat + size.toNat =
      cfg.quantum.toNat :=
  rest_after_refill base small

/-- Bytes granted by one step are the header, the object, or still in the window,
    once the abandoned remainder is added. -/
theorem step_balance (cfg : Config w) (t : Thread w) (r : Request w) (sound : Sound cfg t r) :
    left (advance cfg t r) + (refillCount t r * cfg.header.toNat + objectBytes cfg t r +
      abandoned t r) = left t + refillCount t r * cfg.quantum.toNat := by
  obtain ⟨nowrap, guarded⟩ := sound
  have move := serve_move cfg t r guarded
  unfold advance refillCount objectBytes abandoned at *
  generalize serve cfg t r = served at move nowrap ⊢
  cases move with
  | idle arena calm blocks => simp [calm, left]
  | bump calm live fits =>
    have moved := left_after_bump fits
    simp only [calm, live, ↓reduceIte]
    omega
  | refill refilled granted small unfit =>
    have object := granted_object cfg granted (header_le_quantum cfg) nowrap
    have moved := left_after_refill cfg t.arena.next r.size (t.arena.after cfg.quantum) small
    simp only [refilled, object, ↓reduceIte]
    omega

/-- The pointers of the window are in order, and a null window is empty. -/
def Placed (t : Thread w) : Prop := Ordered t.window ∧ (t.window.allocPtr = 0#w → left t = 0)

/-- Where a refill puts the object and the new window. -/
structure FirstOfQuantum (cfg : Config w) (t : Thread w) (r : Request w) (object : Word w)
    (t' : Thread w) : Prop where
  granted : ⟨t.arena.next.toNat, cfg.quantum.toNat⟩ ∈ t'.arena.blocks
  object : object.toNat = t.arena.next.toNat + cfg.header.toNat
  ptr : t'.window.allocPtr.toNat = t.arena.next.toNat + cfg.header.toNat + r.size.toNat
  limit : t'.window.allocLimit.toNat = t.arena.next.toNat + cfg.quantum.toNat

theorem refilled_first (cfg : Config w) {t : Thread w} {r : Request w}
    (granted : t.arena.next ≠ 0#w)
    (small : r.size.toNat + cfg.header.toNat ≤ cfg.quantum.toNat)
    (nowrap : ∀ b ∈ (t.arena.after cfg.quantum).blocks, b.stop < 2 ^ w) :
    FirstOfQuantum cfg t r (t.arena.next + cfg.header)
      ⟨⟨t.arena.next + cfg.header + r.size, t.arena.next + cfg.quantum⟩,
        t.arena.after cfg.quantum⟩ := by
  have last := granted_end granted nowrap
  have first : (t.arena.next + cfg.header).toNat = t.arena.next.toNat + cfg.header.toNat :=
    add_exact (by omega)
  refine ⟨granted_block granted cfg.quantum, first, ?_, add_exact last⟩
  rw [add_exact (by omega), first]

theorem step_placed (cfg : Config w) (t : Thread w) (r : Request w) (placed : Placed t)
    (sound : Sound cfg t r) : Placed (advance cfg t r) := by
  obtain ⟨nowrap, guarded⟩ := sound
  have move := serve_move cfg t r guarded
  unfold advance at *
  generalize serve cfg t r = served at move nowrap ⊢
  cases move with
  | idle arena calm blocks => exact placed
  | bump calm live fits =>
    have le := placed.1 live
    have pos := pos_of_ne_null live
    have last := t.window.allocLimit.isLt
    have held := (fits_test le).mp fits
    have moved : (t.window.allocPtr + r.size).toNat = t.window.allocPtr.toNat + r.size.toNat :=
      add_exact (by omega)
    have after : t.window.allocPtr + r.size ≠ 0#w := ne_null_of_pos (by rw [moved]; omega)
    refine ⟨fun _ => ?_, fun null => absurd null after⟩
    simp only [moved]
    omega
  | refill refilled granted small unfit =>
    have first := refilled_first cfg granted small nowrap
    have headerPos := cfg.header_pos
    have after : t.arena.next + cfg.header + r.size ≠ 0#w :=
      ne_null_of_pos (by rw [first.ptr]; omega)
    refine ⟨fun _ => ?_, fun null => absurd null after⟩
    rw [first.ptr, first.limit]
    omega

/-- A refill abandons less than it serves, or finds no window at all; and the object
    it serves is the first of the new quantum. -/
theorem refill_charged (cfg : Config w) (t : Thread w) (r : Request w) (placed : Placed t)
    (sound : Sound cfg t r) (refills : Refills t r) :
    (t.window.allocPtr ≠ 0#w → left t < r.size.toNat) ∧
      (t.window.allocPtr = 0#w → left t = 0) ∧
      FirstOfQuantum cfg t r (serve cfg t r).1 (advance cfg t r) := by
  obtain ⟨nowrap, guarded⟩ := sound
  have move := serve_move cfg t r guarded
  unfold advance at *
  generalize serve cfg t r = served at move nowrap ⊢
  cases move with
  | idle arena calm blocks => exact absurd refills calm
  | bump calm live fits => exact absurd refills calm
  | refill refilled granted small unfit =>
    refine ⟨fun live => ?_, placed.2, refilled_first cfg granted small nowrap⟩
    have short := unfit live
    rw [BitVec.le_def] at short
    exact Nat.lt_of_not_le short

theorem step_abandoned (cfg : Config w) (t : Thread w) (r : Request w) (placed : Placed t)
    (sound : Sound cfg t r) : abandoned t r ≤ objectBytes cfg t r := by
  unfold abandoned
  by_cases refills : Refills t r
  · obtain ⟨short, empty, first⟩ := refill_charged cfg t r placed sound refills
    have headerPos := cfg.header_pos
    have object : (serve cfg t r).1 ≠ 0#w :=
      ne_null_of_pos (by rw [first.object]; omega)
    rw [if_pos refills, objectBytes, if_neg object]
    by_cases live : t.window.allocPtr = 0#w
    · rw [empty live]
      exact Nat.zero_le _
    · exact Nat.le_of_lt (short live)
  · rw [if_neg refills]
    exact Nat.zero_le _

section Runs
variable (cfg : Config w) (arena : Arena w)

/-- The context begins as (null, null). -/
def initial : Thread w := ⟨⟨0#w, 0#w⟩, arena⟩

def after (requests : List (Request w)) : Thread w := run (advance cfg) (initial arena) requests

def refillTotal (requests : List (Request w)) : Nat :=
  tally (advance cfg) refillCount (initial arena) requests

def objectTotal (requests : List (Request w)) : Nat :=
  tally (advance cfg) (objectBytes cfg) (initial arena) requests

def abandonedTotal (requests : List (Request w)) : Nat :=
  tally (advance cfg) abandoned (initial arena) requests

variable {cfg arena} {requests : List (Request w)}

theorem nowrap_back (t : Thread w) (r : Request w) (nowrap : NoWrap (advance cfg t r)) :
    NoWrap t := by
  intro b member
  cases r with
  | core size => exact nowrap b (core_alloc_blocks member)
  | bump size =>
    apply nowrap b
    cases bumped : inlineBump t.window size <;> simpa [advance, serve, bumped] using member

theorem sound_each (guarded : ∀ r ∈ requests, Guarded cfg r)
    (nowrap : NoWrap (after cfg arena requests)) :
    Admitted (advance cfg) (Sound cfg) (initial arena) requests :=
  admitted_and (admitted_of_final NoWrap nowrap_back nowrap)
    (admitted_of_forall guarded (initial arena))

theorem initial_placed : Placed (initial arena) :=
  ⟨fun live => absurd rfl live, fun _ => by simp [left, initial]⟩

theorem placed_run (sound : Admitted (advance cfg) (Sound cfg) (initial arena) requests) :
    Placed (after cfg arena requests) :=
  invariant_run Placed (step_placed cfg) initial_placed sound

theorem conserved_run (sound : Admitted (advance cfg) (Sound cfg) (initial arena) requests) :
    refillTotal cfg arena requests * cfg.quantum.toNat =
      refillTotal cfg arena requests * cfg.header.toNat + objectTotal cfg arena requests +
        abandonedTotal cfg arena requests + left (after cfg arena requests) := by
  have balance := tally_balance left (step_balance cfg) sound
  have empty : left (initial arena) = 0 := initial_placed.2 rfl
  rw [tally_add, tally_add, tally_mul, tally_mul, empty, Nat.zero_add] at balance
  unfold refillTotal objectTotal abandonedTotal after
  omega

theorem abandoned_run (sound : Admitted (advance cfg) (Sound cfg) (initial arena) requests) :
    abandonedTotal cfg arena requests ≤ objectTotal cfg arena requests :=
  tally_related (· ≤ ·) (Nat.le_refl 0) Nat.add_le_add
    (admitted_under Placed (step_placed cfg) (step_abandoned cfg) initial_placed sound)

/-- In every run of guarded requests on one context from (null, null), with any sizes
    and failures of the allocator. -/
theorem quantum_memory_conserved (guarded : ∀ r ∈ requests, Guarded cfg r)
    (nowrap : NoWrap (after cfg arena requests)) :
    refillTotal cfg arena requests * cfg.quantum.toNat =
        refillTotal cfg arena requests * cfg.header.toNat + objectTotal cfg arena requests +
          abandonedTotal cfg arena requests + left (after cfg arena requests) ∧
      (∀ before r rest, requests = before ++ r :: rest → Refills (after cfg arena before) r →
        ((after cfg arena before).window.allocPtr ≠ 0#w →
          left (after cfg arena before) < r.size.toNat) ∧
        ((after cfg arena before).window.allocPtr = 0#w → left (after cfg arena before) = 0) ∧
        FirstOfQuantum cfg (after cfg arena before) r (serve cfg (after cfg arena before) r).1
          (after cfg arena (before ++ [r]))) ∧
      abandonedTotal cfg arena requests ≤ objectTotal cfg arena requests ∧
      refillTotal cfg arena requests * cfg.quantum.toNat ≤
        refillTotal cfg arena requests * cfg.header.toNat + 2 * objectTotal cfg arena requests +
          left (after cfg arena requests) := by
  have sound := sound_each guarded nowrap
  have conserved := conserved_run sound
  have charged := abandoned_run sound
  refine ⟨conserved, ?_, charged, by omega⟩
  intro before r rest split refills
  have here := (admitted_iff_each _ _ _ _).mp sound before r rest split
  subst split
  have placed := placed_run ((admitted_append _ _ _ _ _).mp sound).1
  have step : after cfg arena (before ++ [r]) = advance cfg (after cfg arena before) r :=
    run_snoc _ _ _ _
  rw [step]
  exact refill_charged cfg _ r placed here refills

end Runs

def config32 : Config 32 := ⟨65536#32, 4#32, by decide, by decide⟩

def arena32 : Arena 32 := ⟨[65536#32, 131072#32], [], fun _ => 0⟩

def requests32 : List (Request 32) := [.core 65492#32, .bump 48#32, .core 48#32]

/-- The first quantum is left with 40 bytes, too few for the last object. -/
theorem quantum_memory_conserved_sample :
    refillTotal config32 arena32 requests32 = 2 ∧ abandonedTotal config32 arena32 requests32 = 40 ∧
      abandonedTotal config32 arena32 requests32 ≤ objectTotal config32 arena32 requests32 :=
  ⟨by decide +kernel, by decide +kernel,
    (quantum_memory_conserved (by decide) (by decide +kernel)).2.2.1⟩

end UgcQuantumConservation
