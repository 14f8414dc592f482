import Ugc.HeapSafety

/-!
Every object is handed out zeroed. A quantum is zeroed once, when it is
obtained; what carries the fact to each later object of it is that the window
and the header gap before it hold only zeros. Mutator writes stay inside the
header-inclusive extents of objects, which end where that gap begins.
-/
namespace UgcZeroedObjects
open ByteExtents StepRuns UgcAllocator UgcExactAllocation UgcHeapRuns UgcHeapSafety
variable {w : Nat} {ι : Type}

/-- The unspent window and the H bytes before it are zero. -/
def GapZero (cfg : Config w) (window : Window w) (bytes : Nat → UInt8) : Prop :=
  ∀ a, window.allocPtr.toNat ≤ a + cfg.header.toNat → a < window.allocLimit.toNat → bytes a = 0

def Blank (cfg : Config w) (s : Heap w ι) : Prop :=
  ∀ i, (s.contexts i).allocPtr ≠ 0#w → GapZero cfg (s.contexts i) s.arena.bytes

/-- Writes go to the header-inclusive extent of an object handed out before. -/
def WriteConfined (cfg : Config w) (s : Heap w ι) : Event w ι → Prop
  | .write address _ => ∃ o ∈ s.objects, (o.back cfg.header.toNat).Holds address
  | _ => True

theorem gap_fill {cfg : Config w} {window : Window w} {bytes : Nat → UInt8}
    (zero : GapZero cfg window bytes) (block : Extent) :
    GapZero cfg window (fill block 0 bytes) :=
  fun a low high => fill_keeps (zero a low high)

theorem gap_fresh {cfg : Config w} {window : Window w} {base size : Nat} (bytes : Nat → UInt8)
    (moved : window.allocPtr.toNat = base + cfg.header.toNat + size)
    (ended : window.allocLimit.toNat = base + cfg.quantum.toNat) :
    GapZero cfg window (fill ⟨base, cfg.quantum.toNat⟩ 0 bytes) := by
  intro a low high
  refine fill_held ⟨?_, ?_⟩
  · change base ≤ a
    omega
  · simp only [stop_mk]
    omega

theorem gap_write {cfg : Config w} {window : Window w} {bytes : Nat → UInt8} {o : Extent}
    {address : Nat} {value : UInt8} (zero : GapZero cfg window bytes) (clear : Clear cfg o window)
    (behind : cfg.header.toNat ≤ o.start) (inside : (o.back cfg.header.toNat).Holds address) :
    GapZero cfg window (Function.update bytes address value) := by
  intro a low high
  have apart : a ≠ address := by
    rintro rfl
    have h1 := inside.1; have h2 := inside.2
    simp only [Extent.back, stop_mk] at h1 h2
    simp only [Clear, Extent.stop] at clear
    omega
  rw [Function.update_of_ne apart]
  exact zero a low high

section Runs
variable [DecidableEq ι]

theorem step_blank (cfg : Config w) (s : Heap w ι) (e : Event w ι) (sound : Sound cfg s)
    (blank : Blank cfg s) (confined : WriteConfined cfg s e)
    (contract : ZallocContract (step cfg s e).arena) : Blank cfg (step cfg s e) := by
  intro j
  cases effect_of_sound sound contract with
  | idle contexts objects blocks bytes =>
    rw [contexts, bytes]
    exact blank j
  | direct base size contexts objects blocks bytes =>
    rw [contexts, bytes]
    exact fun live => gap_fill (blank j live) _
  | bump i size window live fits moved kept contexts objects blocks bytes =>
    rw [contexts, bytes]
    by_cases same : j = i
    · subst same
      rw [Function.update_self]
      intro _ a low high
      rw [kept] at high
      exact blank j live a (by omega) high
    · rw [Function.update_of_ne same]
      exact blank j
  | refill i base size window small moved ended contexts objects blocks bytes =>
    rw [contexts, bytes]
    by_cases same : j = i
    · subst same
      rw [Function.update_self]
      exact fun _ => gap_fresh _ moved ended
    · rw [Function.update_of_ne same]
      exact fun live => gap_fill (blank j live) _
  | write address value event contexts objects blocks bytes =>
    rw [contexts, bytes]
    intro live
    subst event
    obtain ⟨o, member, inside⟩ := confined
    obtain ⟨b, _, placed⟩ := sound.placed o member
    exact gap_write (blank j live) (sound.clear o member j live)
      (Nat.le_trans (Nat.le_add_left _ _) placed.1) inside

theorem run_blank (cfg : Config w) (answers : List (Word w)) (bytes : Nat → UInt8)
    (events : List (Event w ι))
    (contract : ZallocContract (run (step cfg) (initial answers bytes) events).arena)
    (confined : Admitted (step cfg) (WriteConfined cfg) (initial answers bytes) events) :
    Blank cfg (run (step cfg) (initial answers bytes) events) := by
  have both : ∀ (s : Heap w ι) e, (Sound cfg s ∧ Blank cfg s) →
      (WriteConfined cfg s e ∧ ZallocContract (step cfg s e).arena) →
      Sound cfg (step cfg s e) ∧ Blank cfg (step cfg s e) := by
    intro s e inv ok
    exact ⟨step_sound cfg s e inv.1 ok.2, step_blank cfg s e inv.1 inv.2 ok.1 ok.2⟩
  have start : Sound cfg (initial answers bytes : Heap w ι) ∧
      Blank cfg (initial answers bytes : Heap w ι) :=
    ⟨initial_sound cfg answers bytes, fun _ live => absurd rfl live⟩
  exact (invariant_run _ both start (admitted_and confined (contract_each cfg contract))).2

/-- An object that a step hands out is zero from its header on, in the state
    the step leads to. -/
theorem step_object_zeroed (cfg : Config w) (s : Heap w ι) (e : Event w ι) (sound : Sound cfg s)
    (blank : Blank cfg s) (contract : ZallocContract (step cfg s e).arena)
    {o : Extent} (objects : (step cfg s e).objects = o :: s.objects) {a : Nat}
    (low : o.start ≤ a + cfg.header.toNat) (high : a < o.stop) :
    (step cfg s e).arena.bytes a = 0 := by
  cases effect_of_sound sound contract with
  | idle contexts same blocks bytes =>
    exact absurd (objects.symm.trans same) (List.cons_ne_self o s.objects)
  | direct base size contexts placed blocks bytes =>
    obtain ⟨rfl, _⟩ := List.cons.inj (objects.symm.trans placed)
    simp only [stop_mk] at low high
    rw [bytes]
    exact fill_held ⟨by change base ≤ a; omega, by simp only [stop_mk]; omega⟩
  | bump i size window live fits moved kept contexts placed blocks bytes =>
    obtain ⟨rfl, _⟩ := List.cons.inj (objects.symm.trans placed)
    simp only [stop_mk] at low high
    rw [bytes]
    exact blank i live a low (by omega)
  | refill i base size window small moved ended contexts placed blocks bytes =>
    obtain ⟨rfl, _⟩ := List.cons.inj (objects.symm.trans placed)
    simp only [stop_mk] at low high
    rw [bytes]
    exact fill_held ⟨by change base ≤ a; omega, by simp only [stop_mk]; omega⟩
  | write address value event contexts same blocks bytes =>
    exact absurd (objects.symm.trans same) (List.cons_ne_self o s.objects)

/-- Whenever a call or an inline bump returns a non-null p for s bytes, all of
    [p - H, p + s) is zero at that moment, whatever the mutator wrote before
    into the objects it owned. -/
theorem returned_object_zeroed (cfg : Config w) (answers : List (Word w)) (bytes : Nat → UInt8)
    (events : List (Event w ι)) (e : Event w ι)
    (contract : ZallocContract (run (step cfg) (initial answers bytes) (events ++ [e])).arena)
    (confined : Admitted (step cfg) (WriteConfined cfg) (initial answers bytes) events)
    (nonnull : returned cfg (run (step cfg) (initial answers bytes) events) e ≠ 0#w) (a : Nat)
    (low : (returned cfg (run (step cfg) (initial answers bytes) events) e).toNat ≤
      a + cfg.header.toNat)
    (high : a < (returned cfg (run (step cfg) (initial answers bytes) events) e).toNat +
      e.size.toNat) :
    (run (step cfg) (initial answers bytes) (events ++ [e])).arena.bytes a = 0 := by
  rw [run_snoc] at contract ⊢
  have before := contract_step_back cfg _ e contract
  have sound := run_sound cfg (initial_sound cfg answers bytes) before
  have blank := run_blank cfg answers bytes events before confined
  have objects := step_objects cfg (run (step cfg) (initial answers bytes) events) e
  rw [record_returned _ nonnull] at objects
  exact step_object_zeroed cfg _ e sound blank contract objects low (by simpa using high)

end Runs

/-- The mutator dirties the first object and the second object's header, then
    the third object is bumped out of the same quantum. -/
theorem returned_object_zeroed_sample :
    (run (step config64) (initial [65536#64] fun _ => 255)
      ([.alloc (some ()) 24#64 false, .bump () 16#64, .write 65536 9, .write 65567 9] ++
        [Event.alloc (some ()) 8#64 false])).arena.bytes 65576 = 0 :=
  returned_object_zeroed config64 [65536#64] (fun _ => 255)
    [.alloc (some ()) 24#64 false, .bump () 16#64, .write 65536 9, .write 65567 9]
    (.alloc (some ()) 8#64 false) (by decide +kernel)
    ⟨trivial, trivial, ⟨⟨65544, 24⟩, by decide +kernel, by decide +kernel⟩,
      ⟨⟨65568, 16⟩, by decide +kernel, by decide +kernel⟩, trivial⟩
    (by decide +kernel) 65576 (by decide +kernel) (by decide +kernel)

end UgcZeroedObjects
