import Ugc.HeapRuns

/-!
Memory safety over whole runs. The invariant names, for every context in use,
the quantum it was carved from: the Q bytes below its limit. An object keeps a
header's distance from the start of its block, and every window lies either
above an object of its own quantum or in another block altogether.
-/
namespace UgcHeapSafety
open ByteExtents StepRuns UgcAllocator UgcExactAllocation UgcHeapRuns
variable {w : Nat} {ι : Type}

def Idle (window : Window w) : Prop := window.allocPtr = 0#w ∧ window.allocLimit = 0#w

def windowExtent (window : Window w) : Extent :=
  ⟨window.allocPtr.toNat, window.allocLimit.toNat - window.allocPtr.toNat⟩

def quantumOf (cfg : Config w) (window : Window w) : Extent :=
  ⟨window.allocLimit.toNat - cfg.quantum.toNat, cfg.quantum.toNat⟩

structure Carved (cfg : Config w) (blocks : List Extent) (window : Window w) : Prop where
  live : window.allocPtr ≠ 0#w
  block : quantumOf cfg window ∈ blocks
  whole : cfg.quantum.toNat ≤ window.allocLimit.toNat
  low : window.allocLimit.toNat + cfg.header.toNat ≤ window.allocPtr.toNat + cfg.quantum.toNat
  high : window.allocPtr.toNat ≤ window.allocLimit.toNat

/-- The object lies in the block, behind room for its header. -/
def Placed (cfg : Config w) (o b : Extent) : Prop :=
  b.start + cfg.header.toNat ≤ o.start ∧ o.stop ≤ b.stop

/-- The object ends before the window begins, or its header begins after the window ends. -/
def Clear (cfg : Config w) (o : Extent) (window : Window w) : Prop :=
  o.stop ≤ window.allocPtr.toNat ∨ window.allocLimit.toNat + cfg.header.toNat ≤ o.start

structure HeapInv (cfg : Config w) (contexts : ι → Window w) (objects blocks : List Extent) :
    Prop where
  window : ∀ i, Idle (contexts i) ∨ Carved cfg blocks (contexts i)
  distinct : ∀ i j, i ≠ j → (contexts i).allocPtr ≠ 0#w → (contexts j).allocPtr ≠ 0#w →
    (quantumOf cfg (contexts i)).Apart (quantumOf cfg (contexts j))
  placed : ∀ o ∈ objects, ∃ b ∈ blocks, Placed cfg o b
  apart : objects.Pairwise Extent.Apart
  clear : ∀ o ∈ objects, ∀ i, (contexts i).allocPtr ≠ 0#w → Clear cfg o (contexts i)

section Invariant
variable {cfg : Config w} {contexts : ι → Window w} {objects blocks : List Extent}

theorem quantum_stop {window : Window w} (carved : Carved cfg blocks window) :
    (quantumOf cfg window).stop = window.allocLimit.toNat := by
  have := carved.whole
  simp only [quantumOf, stop_mk]
  omega

theorem carved_of_live (inv : HeapInv cfg contexts objects blocks) {i : ι}
    (live : (contexts i).allocPtr ≠ 0#w) : Carved cfg blocks (contexts i) := by
  rcases inv.window i with idle | carved
  · exact absurd idle.1 live
  · exact carved

theorem ordered_of_inv (inv : HeapInv cfg contexts objects blocks) (i : ι) :
    Ordered (contexts i) := fun live => (carved_of_live inv live).high

theorem placed_apart {o q b d : Extent} (ho : Placed cfg o b) (hq : Placed cfg q d)
    (apart : b.Apart d) : o.Apart q := by
  have h1 := ho.1; have h2 := ho.2; have h3 := hq.1; have h4 := hq.2
  rcases apart with before | after
  · exact Or.inl (by omega)
  · exact Or.inr (by omega)

theorem placed_clear {o b : Extent} {window : Window w} (placed : Placed cfg o b)
    (carved : Carved cfg blocks window) (apart : b.Apart (quantumOf cfg window)) :
    Clear cfg o window := by
  have h1 := placed.1; have h2 := placed.2
  have whole := carved.whole; have low := carved.low
  have start : (quantumOf cfg window).start =
    window.allocLimit.toNat - cfg.quantum.toNat := rfl
  rcases apart with before | after
  · exact Or.inl (by omega)
  · rw [quantum_stop carved] at after
    exact Or.inr (by omega)

theorem carved_more {window : Window w} (carved : Carved cfg blocks window) (b : Extent) :
    Carved cfg (b :: blocks) window :=
  { carved with block := List.mem_cons_of_mem b carved.block }

theorem inv_add_block (inv : HeapInv cfg contexts objects blocks) (b : Extent) :
    HeapInv cfg contexts objects (b :: blocks) where
  window i := (inv.window i).imp id fun carved => carved_more carved b
  distinct := inv.distinct
  placed o member := by
    obtain ⟨d, hd, placed⟩ := inv.placed o member
    exact ⟨d, List.mem_cons_of_mem b hd, placed⟩
  apart := inv.apart
  clear := inv.clear

theorem inv_add_object (inv : HeapInv cfg contexts objects blocks) {o b : Extent}
    (member : b ∈ blocks) (placed : Placed cfg o b) (apart : ∀ q ∈ objects, o.Apart q)
    (clear : ∀ i, (contexts i).allocPtr ≠ 0#w → Clear cfg o (contexts i)) :
    HeapInv cfg contexts (o :: objects) blocks where
  window := inv.window
  distinct := inv.distinct
  placed q mem := by
    rcases List.mem_cons.mp mem with rfl | old
    · exact ⟨b, member, placed⟩
    · exact inv.placed q old
  apart := List.pairwise_cons.mpr ⟨apart, inv.apart⟩
  clear q mem := by
    rcases List.mem_cons.mp mem with rfl | old
    · exact clear
    · exact inv.clear q old

/-- An object placed in a block that none of the live windows uses. -/
theorem inv_direct (inv : HeapInv cfg contexts objects blocks) {o block : Extent}
    (placed : Placed cfg o block) (fresh : ∀ b ∈ blocks, block.Apart b) :
    HeapInv cfg contexts (o :: objects) (block :: blocks) := by
  refine inv_add_object (inv_add_block inv block) List.mem_cons_self placed ?_ ?_
  · intro q member
    obtain ⟨b, hb, held⟩ := inv.placed q member
    exact placed_apart placed held (fresh b hb)
  · intro i live
    have carved := carved_of_live inv live
    exact placed_clear placed carved (fresh _ carved.block)

variable [DecidableEq ι]

theorem inv_set_window (inv : HeapInv cfg contexts objects blocks) {i : ι} {window : Window w}
    (carved : Carved cfg blocks window)
    (distinct : ∀ j, j ≠ i → (contexts j).allocPtr ≠ 0#w →
      (quantumOf cfg window).Apart (quantumOf cfg (contexts j)))
    (clear : ∀ o ∈ objects, Clear cfg o window) :
    HeapInv cfg (Function.update contexts i window) objects blocks where
  window j := by
    by_cases same : j = i
    · subst same
      rw [Function.update_self]
      exact Or.inr carved
    · rw [Function.update_of_ne same]
      exact inv.window j
  distinct j k ne := by
    by_cases hj : j = i
    · subst hj
      rw [Function.update_self, Function.update_of_ne (Ne.symm ne)]
      exact fun _ live => distinct k (Ne.symm ne) live
    · rw [Function.update_of_ne hj]
      by_cases hk : k = i
      · subst hk
        rw [Function.update_self]
        exact fun live _ => apart_symm (distinct j ne live)
      · rw [Function.update_of_ne hk]
        exact inv.distinct j k ne
  placed := inv.placed
  apart := inv.apart
  clear o mem j := by
    by_cases same : j = i
    · subst same
      rw [Function.update_self]
      exact fun _ => clear o mem
    · rw [Function.update_of_ne same]
      exact inv.clear o mem j

/-- A bump, inline or in the core, moves alloc_ptr past the object it hands out. -/
theorem inv_bump (inv : HeapInv cfg contexts objects blocks) {i : ι} {size : Nat}
    {window : Window w} (live : (contexts i).allocPtr ≠ 0#w)
    (fits : (contexts i).allocPtr.toNat + size ≤ (contexts i).allocLimit.toNat)
    (moved : window.allocPtr.toNat = (contexts i).allocPtr.toNat + size)
    (kept : window.allocLimit = (contexts i).allocLimit) :
    HeapInv cfg (Function.update contexts i window)
      (⟨(contexts i).allocPtr.toNat, size⟩ :: objects) blocks := by
  have carved := carved_of_live inv live
  have ended := quantum_stop carved
  have sameQuantum : quantumOf cfg window = quantumOf cfg (contexts i) := by
    simp only [quantumOf, kept]
  have pos := pos_of_ne_null live
  have whole := carved.whole; have low := carved.low; have high := carved.high
  have placed : Placed cfg ⟨(contexts i).allocPtr.toNat, size⟩ (quantumOf cfg (contexts i)) := by
    refine ⟨?_, by rw [ended]; exact fits⟩
    simp only [quantumOf]
    omega
  have carvedNext : Carved cfg blocks window := by
    refine ⟨ne_null_of_pos (by omega), sameQuantum ▸ carved.block, ?_, ?_, ?_⟩ <;>
      rw [kept] <;> omega
  have next : HeapInv cfg (Function.update contexts i window) objects blocks := by
    refine inv_set_window inv carvedNext ?_ ?_
    · intro j ne other
      rw [sameQuantum]
      exact inv.distinct i j (Ne.symm ne) live other
    · intro o member
      rcases inv.clear o member i live with before | after
      · exact Or.inl (by omega)
      · exact Or.inr (by rw [kept]; exact after)
  refine inv_add_object next carved.block placed ?_ ?_
  · intro q member
    rcases inv.clear q member i live with before | after
    · exact Or.inr before
    · exact Or.inl (by simp only [stop_mk]; omega)
  · intro j
    by_cases same : j = i
    · subst same
      rw [Function.update_self]
      exact fun _ => Or.inl (by simp only [stop_mk]; omega)
    · rw [Function.update_of_ne same]
      intro other
      exact placed_clear placed (carved_of_live inv other)
        (inv.distinct i j (Ne.symm same) live other)

/-- A refill opens a fresh quantum and abandons what was left of the old one. -/
theorem inv_refill (inv : HeapInv cfg contexts objects blocks) {i : ι} {base size : Nat}
    {window : Window w} (small : size + cfg.header.toNat ≤ cfg.quantum.toNat)
    (moved : window.allocPtr.toNat = base + cfg.header.toNat + size)
    (ended : window.allocLimit.toNat = base + cfg.quantum.toNat)
    (fresh : ∀ b ∈ blocks, (Extent.mk base cfg.quantum.toNat).Apart b) :
    HeapInv cfg (Function.update contexts i window)
      (⟨base + cfg.header.toNat, size⟩ :: objects) (⟨base, cfg.quantum.toNat⟩ :: blocks) := by
  have headerPos := cfg.header_pos
  have quantum : quantumOf cfg window = ⟨base, cfg.quantum.toNat⟩ := by
    simp only [quantumOf, ended, Nat.add_sub_cancel]
  have placed : Placed cfg ⟨base + cfg.header.toNat, size⟩ ⟨base, cfg.quantum.toNat⟩ :=
    ⟨Nat.le_refl _, by simp only [stop_mk]; omega⟩
  have carved : Carved cfg (⟨base, cfg.quantum.toNat⟩ :: blocks) window := by
    refine ⟨ne_null_of_pos (by omega), ?_, by omega, by omega, by omega⟩
    rw [quantum]
    exact List.mem_cons_self
  have next : HeapInv cfg (Function.update contexts i window) objects
      (⟨base, cfg.quantum.toNat⟩ :: blocks) := by
    refine inv_set_window (inv_add_block inv _) carved ?_ ?_
    · intro j _ live
      rw [quantum]
      exact fresh _ (carved_of_live inv live).block
    · intro o member
      obtain ⟨b, hb, held⟩ := inv.placed o member
      refine placed_clear held carved ?_
      rw [quantum]
      exact apart_symm (fresh b hb)
  refine inv_add_object next List.mem_cons_self placed ?_ ?_
  · intro q member
    obtain ⟨b, hb, held⟩ := inv.placed q member
    exact placed_apart placed held (fresh b hb)
  · intro j
    by_cases same : j = i
    · subst same
      rw [Function.update_self]
      exact fun _ => Or.inl (by simp only [stop_mk]; omega)
    · rw [Function.update_of_ne same]
      intro live
      have other := carved_of_live inv live
      exact placed_clear placed other (fresh _ other.block)

end Invariant

abbrev Sound (cfg : Config w) (s : Heap w ι) : Prop :=
  HeapInv cfg s.contexts s.objects s.arena.blocks

theorem initial_sound (cfg : Config w) (answers : List (Word w)) (bytes : Nat → UInt8) :
    Sound cfg (initial answers bytes : Heap w ι) where
  window _ := Or.inl ⟨rfl, rfl⟩
  distinct _ _ _ live := absurd rfl live
  placed _ member := absurd member List.not_mem_nil
  apart := List.Pairwise.nil
  clear _ member := absurd member List.not_mem_nil

section Runs
variable [DecidableEq ι]

theorem effect_of_sound {cfg : Config w} {s : Heap w ι} {e : Event w ι} (sound : Sound cfg s)
    (contract : ZallocContract (step cfg s e).arena) : Effect cfg s e (step cfg s e) :=
  step_effect cfg s e (ordered_of_inv sound) contract.2

theorem step_sound (cfg : Config w) (s : Heap w ι) (e : Event w ι) (sound : Sound cfg s)
    (contract : ZallocContract (step cfg s e).arena) : Sound cfg (step cfg s e) := by
  have separate := contract.1
  unfold Sound
  cases effect_of_sound sound contract with
  | idle contexts objects blocks bytes =>
    rw [contexts, objects, blocks]
    exact sound
  | direct base size contexts objects blocks bytes =>
    rw [blocks] at separate
    rw [contexts, objects, blocks]
    refine inv_direct sound ⟨Nat.le_refl _, ?_⟩ (List.pairwise_cons.mp separate).1
    simp only [stop_mk]
    omega
  | bump i size window live fits moved kept contexts objects blocks bytes =>
    rw [contexts, objects, blocks]
    exact inv_bump sound live fits moved kept
  | refill i base size window small moved ended contexts objects blocks bytes =>
    rw [blocks] at separate
    rw [contexts, objects, blocks]
    exact inv_refill sound small moved ended (List.pairwise_cons.mp separate).1
  | write address value event contexts objects blocks bytes =>
    rw [contexts, objects, blocks]
    exact sound

theorem contract_each (cfg : Config w) {s : Heap w ι} {events : List (Event w ι)}
    (contract : ZallocContract (run (step cfg) s events).arena) :
    Admitted (step cfg) (fun s e => ZallocContract (step cfg s e).arena) s events :=
  admitted_of_final (fun s : Heap w ι => ZallocContract s.arena)
    (contract_step_back cfg) contract

theorem run_sound (cfg : Config w) {s : Heap w ι} {events : List (Event w ι)}
    (sound : Sound cfg s) (contract : ZallocContract (run (step cfg) s events).arena) :
    Sound cfg (run (step cfg) s events) :=
  invariant_run _ (step_sound cfg) sound (contract_each cfg contract)

end Runs

/-- What a client may rely on in every state. -/
structure MemorySafe (cfg : Config w) (s : Heap w ι) : Prop where
  windows : ∃ quantum : ι → Extent,
    (∀ i, Idle (s.contexts i) ∨
      ((s.contexts i).allocPtr.toNat ≤ (s.contexts i).allocLimit.toNat ∧
        (s.contexts i).allocLimit.toNat - (s.contexts i).allocPtr.toNat ≤
          cfg.quantum.toNat - cfg.header.toNat ∧
        quantum i ∈ s.arena.blocks ∧ (quantum i).size = cfg.quantum.toNat ∧
        (windowExtent (s.contexts i)).Inside (quantum i))) ∧
    ∀ i j, i ≠ j → ¬ Idle (s.contexts i) → ¬ Idle (s.contexts j) →
      (quantum i).Apart (quantum j)
  inBlock : ∀ o ∈ s.objects, ∃ b ∈ s.arena.blocks, o.Inside b
  apart : s.objects.Pairwise Extent.Apart
  offWindow : ∀ o ∈ s.objects, ∀ i, ¬ Idle (s.contexts i) →
    o.Apart (windowExtent (s.contexts i))

theorem live_of_not_idle {cfg : Config w} {s : Heap w ι} (sound : Sound cfg s) {i : ι}
    (busy : ¬ Idle (s.contexts i)) : (s.contexts i).allocPtr ≠ 0#w :=
  ((sound.window i).resolve_left busy).live

theorem window_inside {cfg : Config w} {blocks : List Extent} {window : Window w}
    (carved : Carved cfg blocks window) :
    (windowExtent window).Inside (quantumOf cfg window) := by
  have whole := carved.whole; have low := carved.low; have high := carved.high
  simp only [Extent.Inside, windowExtent, quantumOf, stop_mk]
  omega

theorem window_room {cfg : Config w} {blocks : List Extent} {window : Window w}
    (carved : Carved cfg blocks window) :
    window.allocLimit.toNat - window.allocPtr.toNat ≤
      cfg.quantum.toNat - cfg.header.toNat := by
  have low := carved.low
  omega

theorem safe_of_sound {cfg : Config w} {s : Heap w ι} (sound : Sound cfg s) :
    MemorySafe cfg s where
  windows := by
    refine ⟨fun i => quantumOf cfg (s.contexts i), ?_, ?_⟩
    · intro i
      refine (sound.window i).imp id fun carved => ?_
      exact ⟨carved.high, window_room carved, carved.block, rfl, window_inside carved⟩
    · intro i j ne hi hj
      exact sound.distinct i j ne (live_of_not_idle sound hi) (live_of_not_idle sound hj)
  inBlock o member := by
    obtain ⟨b, hb, placed⟩ := sound.placed o member
    exact ⟨b, hb, Nat.le_trans (Nat.le_add_right _ _) placed.1, placed.2⟩
  apart := sound.apart
  offWindow o member i busy := by
    have live := live_of_not_idle sound busy
    have high := (carved_of_live sound live).high
    simp only [Extent.Apart, windowExtent, stop_mk]
    rcases sound.clear o member i live with before | after
    · exact Or.inl before
    · exact Or.inr (by omega)

/-- Every state reached from null contexts is memory safe, as long as the blocks
    obtained so far were fresh and did not wrap. -/
theorem heap_memory_safe [DecidableEq ι] (cfg : Config w) (answers : List (Word w))
    (bytes : Nat → UInt8) (events : List (Event w ι))
    (contract : ZallocContract (run (step cfg) (initial answers bytes) events).arena) :
    MemorySafe cfg (run (step cfg) (initial answers bytes) events) :=
  safe_of_sound (run_sound cfg (initial_sound cfg answers bytes) contract)

/-- 64 KiB quanta and 8-byte headers, as the 64-bit build has them. -/
def config64 : Config 64 := ⟨65536#64, 8#64, by decide, by decide⟩

/-- Two contexts over adjacent quanta: bumps, an exact fit, a direct block,
    a failed call and a refill that abandons a remainder. -/
def sampleEvents : List (Event 64 Bool) :=
  [.alloc (some false) 100#64 false, .bump false 24#64, .alloc (some true) 65528#64 false,
    .alloc (some true) 0#64 false, .alloc none 5#64 false, .alloc (some false) 24#64 true,
    .write 65544 7, .alloc (some false) 65500#64 false, .alloc (some true) 70000#64 false]

def sampleAnswers : List (Word 64) :=
  [65536#64, 131072#64, 4096#64, 0#64, 262144#64, 400000#64]

theorem heap_memory_safe_sample :
    MemorySafe config64 (run (step config64) (initial sampleAnswers fun _ => 255) sampleEvents) :=
  heap_memory_safe config64 sampleAnswers (fun _ => 255) sampleEvents (by decide +kernel)

end UgcHeapSafety
