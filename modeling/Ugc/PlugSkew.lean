import Ugc.HeapSafety

/-!
Plug skew. An object's header occupies the H bytes before it, so the extent it
owns is its allocated range moved down by H, and the last H bytes of the range
belong to the header of whatever follows. Each block reserves H bytes once, in
front of its first object; that is all the shifted extents need to fit.
-/
namespace UgcPlugSkew
open ByteExtents StepRuns UgcAllocator UgcHeapRuns UgcHeapSafety
variable {w : Nat} {ι : Type}

def header (cfg : Config w) (o : Extent) : Extent :=
  ⟨o.start - cfg.header.toNat, cfg.header.toNat⟩

/-- The object's own bytes: its size without the part that pre-pays the next header. -/
def payload (cfg : Config w) (o : Extent) : Extent := ⟨o.start, o.size - cfg.header.toNat⟩

/-- The size of an allocation pre-pays the header of its successor. -/
def Prepaid (cfg : Config w) : Event w ι → Prop
  | .write _ _ => True
  | e => cfg.header.toNat ≤ e.size.toNat

theorem header_inside {cfg : Config w} {o : Extent} (prepaid : cfg.header.toNat ≤ o.size) :
    (header cfg o).Inside (o.back cfg.header.toNat) := by
  simp only [Extent.Inside, header, Extent.back, stop_mk]
  omega

theorem payload_inside {cfg : Config w} {o : Extent} (behind : cfg.header.toNat ≤ o.start)
    (prepaid : cfg.header.toNat ≤ o.size) :
    (payload cfg o).Inside (o.back cfg.header.toNat) := by
  simp only [Extent.Inside, payload, Extent.back, stop_mk]
  omega

theorem behind_header {cfg : Config w} {s : Heap w ι} (sound : Sound cfg s) :
    ∀ o ∈ s.objects, cfg.header.toNat ≤ o.start := by
  intro o member
  obtain ⟨b, _, placed⟩ := sound.placed o member
  exact Nat.le_trans (Nat.le_add_left _ _) placed.1

theorem extents_in_block {cfg : Config w} {s : Heap w ι} (sound : Sound cfg s) :
    ∀ o ∈ s.objects, ∃ b ∈ s.arena.blocks, (o.back cfg.header.toNat).Inside b := by
  intro o member
  obtain ⟨b, hb, placed⟩ := sound.placed o member
  exact ⟨b, hb, back_inside placed.1 placed.2⟩

theorem extents_apart {cfg : Config w} {s : Heap w ι} (sound : Sound cfg s) :
    s.objects.Pairwise fun o q => (o.back cfg.header.toNat).Apart (q.back cfg.header.toNat) := by
  have behind := behind_header sound
  exact sound.apart.imp_of_mem fun ho hq apart => apart_back (behind _ ho) (behind _ hq) apart

section Runs
variable [DecidableEq ι]

theorem step_prepaid (cfg : Config w) (s : Heap w ι) (e : Event w ι)
    (sizes : ∀ o ∈ s.objects, cfg.header.toNat ≤ o.size) (prepaid : Prepaid cfg e) :
    ∀ o ∈ (step cfg s e).objects, cfg.header.toNat ≤ o.size := by
  rw [step_objects]
  by_cases null : returned cfg s e = 0#w
  · rw [null, record_null]
    exact sizes
  · rw [record_returned _ null]
    intro o member
    rcases List.mem_cons.mp member with rfl | old
    · cases e with
      | alloc context size bypass => exact prepaid
      | bump i size => exact prepaid
      | write address value => exact absurd rfl null
    · exact sizes o old

theorem run_prepaid (cfg : Config w) (answers : List (Word w)) (bytes : Nat → UInt8)
    (events : List (Event w ι)) (prepaid : ∀ e ∈ events, Prepaid cfg e) :
    ∀ o ∈ (run (step cfg) (initial answers bytes) events).objects,
      cfg.header.toNat ≤ o.size :=
  invariant_run (fun s : Heap w ι => ∀ o ∈ s.objects, cfg.header.toNat ≤ o.size)
    (step_prepaid cfg) (fun _ member => absurd member List.not_mem_nil)
    (admitted_of_forall prepaid _)

/-- Header-inclusive extents stay inside one block and pairwise apart, so no header
    meets another object's header or payload. -/
theorem headers_intact (cfg : Config w) (answers : List (Word w)) (bytes : Nat → UInt8)
    (events : List (Event w ι)) (prepaid : ∀ e ∈ events, Prepaid cfg e)
    (contract : ZallocContract (run (step cfg) (initial answers bytes) events).arena) :
    (∀ o ∈ (run (step cfg) (initial answers bytes) events).objects,
      ∃ b ∈ (run (step cfg) (initial answers bytes) events).arena.blocks,
        (o.back cfg.header.toNat).Inside b) ∧
    ((run (step cfg) (initial answers bytes) events).objects.Pairwise fun o q =>
      (o.back cfg.header.toNat).Apart (q.back cfg.header.toNat)) ∧
    ((run (step cfg) (initial answers bytes) events).objects.Pairwise fun o q =>
      (header cfg o).Apart (header cfg q) ∧ (header cfg o).Apart (payload cfg q) ∧
        (payload cfg o).Apart (header cfg q)) := by
  have sound := run_sound cfg (initial_sound cfg answers bytes) contract
  have sizes := run_prepaid cfg answers bytes events prepaid
  have behind := behind_header sound
  have apart := extents_apart sound
  refine ⟨extents_in_block sound, apart, apart.imp_of_mem ?_⟩
  intro o q ho hq separate
  have headO := header_inside (sizes o ho)
  have headQ := header_inside (sizes q hq)
  have bodyO := payload_inside (behind o ho) (sizes o ho)
  have bodyQ := payload_inside (behind q hq) (sizes q hq)
  exact ⟨apart_of_inside separate headO headQ, apart_of_inside separate headO bodyQ,
    apart_of_inside separate bodyO headQ⟩

end Runs

/-- The first object of a quantum, one that exactly exhausts it, and the first of
    the next quantum, which begins where the first one ends. -/
def skewEvents : List (Event 64 Unit) :=
  [.alloc (some ()) 24#64 false, .bump () 65504#64, .alloc (some ()) 8#64 false,
    .alloc none 16#64 false]

theorem headers_intact_sample :
    (run (step config64) (initial [65536#64, 131072#64, 8#64] fun _ => 0) skewEvents).objects.Pairwise
      fun o q => (header config64 o).Apart (header config64 q) ∧
        (header config64 o).Apart (payload config64 q) ∧
        (payload config64 o).Apart (header config64 q) :=
  (headers_intact config64 [65536#64, 131072#64, 8#64] (fun _ => 0) skewEvents
    (by simp [skewEvents, Prepaid, Event.size, config64]) (by decide +kernel)).2.2

end UgcPlugSkew
