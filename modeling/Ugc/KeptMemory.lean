import Ugc.ZeroedObjects

/-!
Memory that was obtained once is never touched again by the collector. What a byte of a
block holds later is what the mutator's own writes have made of it, whatever is allocated
in the meantime and on whatever path.
-/
namespace UgcKeptMemory
open ByteExtents StepRuns UgcAllocator UgcHeapRuns UgcHeapSafety UgcZeroedObjects
variable {w : Nat} {ι : Type}

/-- What the writes among the events make of a byte. -/
def lastWritten : List (Event w ι) → Nat → UInt8 → UInt8
  | [], _, byte => byte
  | .write address value :: events, p, byte =>
    lastWritten events p (if p = address then value else byte)
  | .alloc _ _ _ :: events, p, byte => lastWritten events p byte
  | .bump _ _ :: events, p, byte => lastWritten events p byte

theorem last_written_cons (e : Event w ι) (events : List (Event w ι)) (p : Nat) (byte : UInt8) :
    lastWritten (e :: events) p byte = lastWritten events p (lastWritten [e] p byte) := by
  cases e <;> rfl

variable [DecidableEq ι] {cfg : Config w}

theorem fill_outside {e f : Extent} (apart : e.Apart f) {p : Nat} (held : f.Holds p)
    (bytes : Nat → UInt8) : fill e 0 bytes p = bytes p := by
  refine if_neg fun inside => ?_
  have h1 := inside.1; have h2 := inside.2; have h3 := held.1; have h4 := held.2
  unfold Extent.Apart at apart
  omega

/-- One step leaves a byte of every block as it is, unless it is written to. -/
theorem step_kept {s : Heap w ι} {e : Event w ι} (sound : Sound cfg s)
    (contract : ZallocContract (step cfg s e).arena) {b : Extent} (member : b ∈ s.arena.blocks)
    {p : Nat} (held : b.Holds p) :
    (step cfg s e).arena.bytes p = lastWritten [e] p (s.arena.bytes p) := by
  cases e with
  | write address value => exact Function.update_apply _ _ _ _
  | alloc context size bypass =>
    have separate := contract.1
    cases effect_of_sound sound contract with
    | idle contexts objects blocks bytes => exact congrFun bytes p
    | direct base n contexts objects blocks bytes =>
      rw [blocks] at separate
      exact (congrFun bytes p).trans
        (fill_outside ((List.pairwise_cons.mp separate).1 b member) held _)
    | bump i n window live fits moved kept contexts objects blocks bytes => exact congrFun bytes p
    | refill i base n window small moved ended contexts objects blocks bytes =>
      rw [blocks] at separate
      exact (congrFun bytes p).trans
        (fill_outside ((List.pairwise_cons.mp separate).1 b member) held _)
    | write address value event => cases event
  | bump i size =>
    cases bumped : inlineBump (s.contexts i) size <;> simp [step, bumped, lastWritten]

theorem step_blocks {s : Heap w ι} {e : Event w ι} {b : Extent} (member : b ∈ s.arena.blocks) :
    b ∈ (step cfg s e).arena.blocks := by
  cases e with
  | alloc context size bypass => exact core_alloc_blocks member
  | bump i size =>
    cases bumped : inlineBump (s.contexts i) size <;> simpa [step, bumped] using member
  | write address value => exact member

theorem run_kept {s : Heap w ι} {events : List (Event w ι)} (sound : Sound cfg s)
    (contract : ZallocContract (run (step cfg) s events).arena) {b : Extent}
    (member : b ∈ s.arena.blocks) {p : Nat} (held : b.Holds p) :
    (run (step cfg) s events).arena.bytes p = lastWritten events p (s.arena.bytes p) := by
  induction events generalizing s with
  | nil => rfl
  | cons e events ih =>
    have here := (contract_each cfg contract).1
    rw [last_written_cons, ← step_kept sound here member held]
    exact ih (step_sound cfg s e sound here) contract (step_blocks member)

theorem contract_before_run {s : Heap w ι} {events : List (Event w ι)}
    (contract : ZallocContract (run (step cfg) s events).arena) : ZallocContract s.arena := by
  induction events generalizing s with
  | nil => exact contract
  | cons e events ih => exact contract_step_back cfg s e (ih contract)

/-- Whatever happens after a point of a run, every byte of every block obtained until then
    is what it was there but for the mutator's own writes. -/
theorem memory_kept (cfg : Config w) (answers : List (Word w)) (bytes : Nat → UInt8)
    (before after : List (Event w ι))
    (contract : ZallocContract (run (step cfg) (initial answers bytes) (before ++ after)).arena) :
    ∀ b ∈ (run (step cfg) (initial answers bytes : Heap w ι) before).arena.blocks, ∀ p, b.Holds p →
      (run (step cfg) (initial answers bytes) (before ++ after)).arena.bytes p =
        lastWritten after p ((run (step cfg) (initial answers bytes) before).arena.bytes p) := by
  rw [run_append] at contract ⊢
  intro b member p held
  have sound := run_sound cfg (initial_sound cfg answers bytes) (contract_before_run contract)
  exact run_kept sound contract member held

/-- The mutator writes twice into its first object, and a refill zeroes another block. -/
theorem memory_kept_sample :
    (run (step config64) (initial [65536#64, 131072#64] fun _ => 255)
      ([.alloc (some ()) 24#64 false] ++ [.write 65544 9, .alloc (some ()) 65528#64 false,
        .write 65544 7, .bump () 0#64] : List (Event 64 Unit))).arena.bytes 65544 = 7 :=
  memory_kept config64 [65536#64, 131072#64] (fun _ => 255) _ _ (by decide +kernel)
    ⟨65536, 65536⟩ (by decide +kernel) 65544 (by decide +kernel)

end UgcKeptMemory
