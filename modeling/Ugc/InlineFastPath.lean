import Ugc.ExactAllocation
import Ugc.StepRuns

/-!
The runtime bumps inline and calls the core only when the object does not fit.
The core tests for overflow and for the quantum before it looks at the window;
the inline path looks at the window alone. They agree because a window never
holds more than Q - H bytes, in wrapping arithmetic and whatever the answers of
`ugc_zalloc` are.
-/
namespace UgcInlineFastPath
open StepRuns UgcAllocator UgcExactAllocation
variable {w : Nat}

/-- One context and the allocator behind it. -/
structure Thread (w : Nat) where
  window : Window w
  arena : Arena w

/-- A non-bypass request sent straight to `ugc_core_alloc`. -/
def coreRequest (cfg : Config w) (t : Thread w) (size : Word w) : Word w × Thread w :=
  let served := ugcCoreAlloc cfg.quantum (some t.window) size false cfg.header t.arena
  (served.object, ⟨served.window.getD t.window, served.arena⟩)

/-- The same request through the inline path first. -/
def inlineRequest (cfg : Config w) (t : Thread w) (size : Word w) : Word w × Thread w :=
  match inlineBump t.window size with
  | some (object, window) => (object, ⟨window, t.arena⟩)
  | none => coreRequest cfg t size

def Narrow (cfg : Config w) (window : Window w) : Prop :=
  window.allocPtr ≠ 0#w →
    (window.allocLimit - window.allocPtr).toNat + cfg.header.toNat ≤ cfg.quantum.toNat

theorem narrow_of_null (cfg : Config w) {window : Window w} (null : window.allocPtr = 0#w) :
    Narrow cfg window := fun live => absurd null live

theorem bump_narrow {cfg : Config w} {window : Window w} {size : Word w}
    (narrow : Narrow cfg window) (live : window.allocPtr ≠ 0#w)
    (fits : window.allocLimit - window.allocPtr ≥ size) :
    Narrow cfg ⟨window.allocPtr + size, window.allocLimit⟩ := by
  intro _
  have rest := rest_after_bump fits
  have room := narrow live
  simp only
  omega

theorem refill_narrow {cfg : Config w} {base size : Word w}
    (small : size.toNat + cfg.header.toNat ≤ cfg.quantum.toNat) :
    Narrow cfg ⟨base + cfg.header + size, base + cfg.quantum⟩ := by
  intro _
  have rest := rest_after_refill base small
  simp only
  omega

theorem core_request_narrow (cfg : Config w) (t : Thread w) (size : Word w)
    (narrow : Narrow cfg t.window) : Narrow cfg (coreRequest cfg t size).2.window := by
  unfold coreRequest
  have branch := core_alloc_branch cfg (some t.window) size false
  generalize ugcCoreAlloc cfg.quantum (some t.window) size false cfg.header = alloc at branch ⊢
  cases branch with
  | overflow wraps => exact narrow
  | direct room aside => exact narrow
  | bump context given shared small live fits =>
    obtain rfl := Option.some.inj given
    exact bump_narrow narrow live fits
  | refill context given shared small unfit =>
    obtain rfl := Option.some.inj given
    by_cases null : t.arena.next = 0#w
    · rw [ctx_refill_null null]
      exact narrow
    · rw [ctx_refill_granted null]
      exact refill_narrow small

/-- What fits a narrow window passes both tests the core makes first. -/
theorem core_alloc_within {cfg : Config w} {window : Window w} {size : Word w}
    (narrow : Narrow cfg window) (live : window.allocPtr ≠ 0#w)
    (fits : size ≤ window.allocLimit - window.allocPtr) :
    ¬ size > sizeMax w - cfg.header ∧
      ¬ (false = true ∨ size + cfg.header > cfg.quantum) := by
  have le := BitVec.le_def.mp fits
  have small := narrow live
  have last := cfg.quantum.isLt
  have room : ¬ size > sizeMax w - cfg.header := by
    rw [overflow_test]
    omega
  refine ⟨room, ?_⟩
  rintro (bypass | large)
  · exact Bool.noConfusion bypass
  · rw [gt_iff_lt, BitVec.lt_def, add_exact (by omega)] at large
    omega

theorem inline_request_eq (cfg : Config w) (t : Thread w) (size : Word w)
    (narrow : Narrow cfg t.window) : inlineRequest cfg t size = coreRequest cfg t size := by
  unfold inlineRequest inlineBump
  by_cases fits : t.window.allocPtr ≠ 0#w ∧ size ≤ t.window.allocLimit - t.window.allocPtr
  · obtain ⟨room, within⟩ := core_alloc_within narrow fits.1 fits.2
    rw [if_pos fits]
    simp only [coreRequest, core_alloc_bump room within ⟨fits.1, fits.2⟩, Option.getD_some]
  · rw [if_neg fits]

/-- On one context that starts as (null, null), sending every request through the
    inline path first gives the same pointers, consumes the same answers of
    `ugc_zalloc` and leaves the same window as sending every one to the core. -/
theorem inline_path_interchangeable (cfg : Config w) (arena : Arena w) (sizes : List (Word w)) :
    trace (inlineRequest cfg) ⟨⟨0#w, 0#w⟩, arena⟩ sizes =
      trace (coreRequest cfg) ⟨⟨0#w, 0#w⟩, arena⟩ sizes :=
  trace_congr (fun t => Narrow cfg t.window) (inline_request_eq cfg)
    (core_request_narrow cfg) (narrow_of_null cfg rfl) sizes

end UgcInlineFastPath
