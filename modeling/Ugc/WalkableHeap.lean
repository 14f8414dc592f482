import Mathlib.Data.List.Pairwise
import Ugc.ExtentTilings
import Ugc.HeapSafety

/-!
The layout of every block. The objects of a block stand end to end behind its first
header, in the order in which they were handed out, and where they end the window of the
context begins that uses the block. A block can be walked from object to object.
-/
namespace UgcWalkableHeap
open ByteExtents ExtentTilings StepRuns UgcAllocator UgcHeapRuns UgcHeapSafety
variable {w : Nat} {ι : Type} {cfg : Config w}

instance (o b : Extent) : Decidable (Placed cfg o b) := inferInstanceAs (Decidable (_ ∧ _))

/-- The objects of a block, first handed out first. -/
def objectsOf (cfg : Config w) (objects : List Extent) (b : Extent) : List Extent :=
  (objects.filter fun o => Placed cfg o b).reverse

/-- The objects of a block fill it up to `top`, and a context that uses it goes on there. -/
structure Packed (cfg : Config w) (s : Heap w ι) (b : Extent) (top : Nat) : Prop where
  tiles : Tiles (b.start + cfg.header.toNat) (objectsOf cfg s.objects b) top
  below : top ≤ b.stop
  window : ∀ i, (s.contexts i).allocPtr ≠ 0#w → quantumOf cfg (s.contexts i) = b →
    (s.contexts i).allocPtr.toNat = top

def Walks (cfg : Config w) (s : Heap w ι) : Prop :=
  ∀ b ∈ s.arena.blocks, ∃ top, Packed cfg s b top

section Objects
variable {o b d : Extent} {objects : List Extent}

theorem placed_once (here : Placed cfg o b) (there : Placed cfg o d) : ¬ b.Apart d := by
  have h1 := here.1; have h2 := here.2; have h3 := there.1; have h4 := there.2
  have pos := cfg.header_pos
  unfold Extent.Apart
  unfold Extent.stop at h2 h4 ⊢
  omega

theorem objects_of_in (placed : Placed cfg o b) :
    objectsOf cfg (o :: objects) b = objectsOf cfg objects b ++ [o] := by
  rw [objectsOf, List.filter_cons_of_pos (by simpa using placed), List.reverse_cons]
  rfl

theorem objects_of_out (elsewhere : ¬ Placed cfg o b) :
    objectsOf cfg (o :: objects) b = objectsOf cfg objects b := by
  rw [objectsOf, List.filter_cons_of_neg (by simpa using elsewhere)]
  rfl

theorem mem_objects_of : o ∈ objectsOf cfg objects b ↔ o ∈ objects ∧ Placed cfg o b := by
  simp [objectsOf]

theorem objects_of_none (none : ∀ o ∈ objects, ¬ Placed cfg o b) : objectsOf cfg objects b = [] :=
  List.eq_nil_iff_forall_not_mem.mpr fun o member =>
    none o (mem_objects_of.mp member).1 (mem_objects_of.mp member).2

end Objects

section Step
variable {s t : Heap w ι} {b : Extent} {top : Nat}

/-- A block that the step neither uses nor adds is packed as before. -/
theorem packed_kept (packed : Packed cfg s b top)
    (objects : objectsOf cfg t.objects b = objectsOf cfg s.objects b)
    (contexts : ∀ i, quantumOf cfg (t.contexts i) = b → t.contexts i = s.contexts i) :
    Packed cfg t b top where
  tiles := objects ▸ packed.tiles
  below := packed.below
  window i live here := by
    have same := contexts i here
    rw [same] at live here ⊢
    exact packed.window i live here

theorem walks_same (walks : Walks cfg s) (contexts : t.contexts = s.contexts)
    (objects : t.objects = s.objects) (blocks : t.arena.blocks = s.arena.blocks) :
    Walks cfg t := by
  intro b member
  obtain ⟨top, packed⟩ := walks b (blocks ▸ member)
  exact ⟨top, packed_kept packed (by rw [objects]) fun i _ => congrFun contexts i⟩

theorem blocks_distinct {blocks : List Extent} (separate : blocks.Pairwise Extent.Apart)
    {d : Extent} (here : b ∈ blocks) (there : d ∈ blocks) (differ : b ≠ d) : b.Apart d := by
  have symmetric : Std.Symm Extent.Apart := ⟨fun _ _ apart => apart_symm apart⟩
  exact separate.forall here there differ

end Step

section Opened
variable {s t : Heap w ι} {block : Extent} {size : Nat}

theorem not_apart_self (room : block.start + cfg.header.toNat + size ≤ block.stop) :
    ¬ block.Apart block := by
  have pos := cfg.header_pos
  unfold Extent.Apart
  omega

theorem fresh_unplaced (sound : Sound cfg s) (fresh : ∀ b ∈ s.arena.blocks, block.Apart b) :
    ∀ o ∈ s.objects, ¬ Placed cfg o block := by
  intro o member here
  obtain ⟨b, held, placed⟩ := sound.placed o member
  exact placed_once here placed (fresh b held)

theorem fresh_unused (sound : Sound cfg s) (fresh : ∀ b ∈ s.arena.blocks, block.Apart b)
    (room : block.start + cfg.header.toNat + size ≤ block.stop) {i : ι}
    (live : (s.contexts i).allocPtr ≠ 0#w) : quantumOf cfg (s.contexts i) ≠ block := by
  intro here
  have held := (carved_of_live sound live).block
  exact not_apart_self room (fresh block (here ▸ held))

/-- A step that opens a new block and places its first object behind the header. -/
theorem walks_opened (sound : Sound cfg s) (walks : Walks cfg s)
    (fresh : ∀ b ∈ s.arena.blocks, block.Apart b)
    (room : block.start + cfg.header.toNat + size ≤ block.stop)
    (objects : t.objects = ⟨block.start + cfg.header.toNat, size⟩ :: s.objects)
    (blocks : t.arena.blocks = block :: s.arena.blocks)
    (others : ∀ i, quantumOf cfg (t.contexts i) ≠ block → t.contexts i = s.contexts i)
    (window : ∀ i, (t.contexts i).allocPtr ≠ 0#w → quantumOf cfg (t.contexts i) = block →
      (t.contexts i).allocPtr.toNat = block.start + cfg.header.toNat + size) :
    Walks cfg t := by
  have placed : Placed cfg ⟨block.start + cfg.header.toNat, size⟩ block := ⟨Nat.le_refl _, room⟩
  intro b member
  rw [blocks] at member
  rcases List.mem_cons.mp member with rfl | old
  · refine ⟨b.start + cfg.header.toNat + size, ?_, room, window⟩
    rw [objects, objects_of_in placed, objects_of_none (fresh_unplaced sound fresh)]
    exact ⟨rfl, rfl⟩
  · obtain ⟨top, packed⟩ := walks b old
    have elsewhere := fun here => placed_once placed here (fresh b old)
    refine ⟨top, packed_kept packed ?_ fun i here => others i fun same => ?_⟩
    · rw [objects, objects_of_out elsewhere]
    · rw [← here.symm.trans same] at room fresh
      exact not_apart_self room (fresh b old)

end Opened

section Runs
variable [DecidableEq ι]

/-- A bump puts an object on top of the others of its block. -/
theorem walks_bumped {s t : Heap w ι} (sound : Sound cfg s)
    (separate : s.arena.blocks.Pairwise Extent.Apart) (walks : Walks cfg s) {i : ι} {size : Nat}
    {window : Window w} (live : (s.contexts i).allocPtr ≠ 0#w)
    (fits : (s.contexts i).allocPtr.toNat + size ≤ (s.contexts i).allocLimit.toNat)
    (moved : window.allocPtr.toNat = (s.contexts i).allocPtr.toNat + size)
    (kept : window.allocLimit = (s.contexts i).allocLimit)
    (contexts : t.contexts = Function.update s.contexts i window)
    (objects : t.objects = ⟨(s.contexts i).allocPtr.toNat, size⟩ :: s.objects)
    (blocks : t.arena.blocks = s.arena.blocks) : Walks cfg t := by
  have carved := carved_of_live sound live
  have quantum : quantumOf cfg window = quantumOf cfg (s.contexts i) := by
    simp only [quantumOf, kept]
  have placed : Placed cfg ⟨(s.contexts i).allocPtr.toNat, size⟩
      (quantumOf cfg (s.contexts i)) := by
    have whole := carved.whole
    have low := carved.low
    refine ⟨?_, (quantum_stop carved).symm ▸ fits⟩
    simp only [quantumOf]
    omega
  intro b member
  rw [blocks] at member
  obtain ⟨top, packed⟩ := walks b member
  by_cases here : quantumOf cfg (s.contexts i) = b
  · subst here
    have ends := packed.window i live rfl
    refine ⟨(s.contexts i).allocPtr.toNat + size, ?_, placed.2, ?_⟩
    · rw [objects, objects_of_in placed]
      exact tiles_snoc (ends.symm ▸ packed.tiles)
    · intro j used same
      rw [contexts] at used same ⊢
      by_cases own : j = i
      · subst own
        rw [Function.update_self]
        exact moved
      · rw [Function.update_of_ne own] at used same
        have apart := sound.distinct i j (Ne.symm own) live used
        rw [same] at apart
        exact absurd apart (placed_once placed placed)
  · have elsewhere := fun there =>
      placed_once placed there (blocks_distinct separate carved.block member here)
    refine ⟨top, packed_kept packed ?_ fun j same => ?_⟩
    · rw [objects, objects_of_out elsewhere]
    · rw [contexts] at same ⊢
      by_cases own : j = i
      · subst own
        rw [Function.update_self, quantum] at same
        exact absurd same here
      · exact Function.update_of_ne own _ _

theorem step_walks {s : Heap w ι} {e : Event w ι} (sound : Sound cfg s)
    (contract : ZallocContract (step cfg s e).arena) (walks : Walks cfg s) :
    Walks cfg (step cfg s e) := by
  have separate := contract.1
  intro b member
  cases effect_of_sound sound contract with
  | idle contexts objects blocks bytes =>
    exact walks_same walks contexts objects blocks b member
  | direct base size contexts objects blocks bytes =>
    rw [blocks] at separate
    obtain ⟨fresh, _⟩ := List.pairwise_cons.mp separate
    have room : base + cfg.header.toNat + size ≤
        (Extent.mk base (size + cfg.header.toNat)).stop := by
      simp only [stop_mk]
      omega
    refine walks_opened sound walks fresh room objects blocks ?_ ?_ b member
    · exact fun i _ => congrFun contexts i
    · intro i live here
      rw [contexts] at live here
      exact absurd here (fresh_unused sound fresh room live)
  | bump i size window live fits moved kept contexts objects blocks bytes =>
    exact walks_bumped sound (blocks ▸ separate) walks live fits moved kept contexts objects
      blocks b member
  | refill i base size window small moved ended contexts objects blocks bytes =>
    rw [blocks] at separate
    obtain ⟨fresh, _⟩ := List.pairwise_cons.mp separate
    have room : base + cfg.header.toNat + size ≤ (Extent.mk base cfg.quantum.toNat).stop := by
      simp only [stop_mk]
      omega
    have quantum : quantumOf cfg window = ⟨base, cfg.quantum.toNat⟩ := by
      simp only [quantumOf, ended, Nat.add_sub_cancel]
    refine walks_opened sound walks fresh room objects blocks ?_ ?_ b member
    · intro j apart
      rw [contexts] at apart ⊢
      by_cases own : j = i
      · subst own
        rw [Function.update_self] at apart
        exact absurd quantum apart
      · exact Function.update_of_ne own _ _
    · intro j live here
      rw [contexts] at live here ⊢
      by_cases own : j = i
      · subst own
        rw [Function.update_self]
        exact moved
      · rw [Function.update_of_ne own] at live here
        exact absurd here (fresh_unused sound fresh room live)
  | write address value event contexts objects blocks bytes =>
    exact walks_same walks contexts objects blocks b member

end Runs

/-- What a walk over the heap finds: in every block the objects from behind the first
    header up to `top`, each byte of that range in one of them and no other byte of the
    block in any; and every object in one block. -/
structure Walkable (cfg : Config w) (s : Heap w ι) : Prop where
  blocks : ∀ b ∈ s.arena.blocks, ∃ top, Packed cfg s b top ∧
    (∀ p, b.start + cfg.header.toNat ≤ p → p < top → ∃! o, o ∈ s.objects ∧ o.Holds p) ∧
    ∀ p, b.Holds p → p < b.start + cfg.header.toNat ∨ top ≤ p → ∀ o ∈ s.objects, ¬ o.Holds p
  owned : ∀ o ∈ s.objects, ∃! b, b ∈ s.arena.blocks ∧ o ∈ objectsOf cfg s.objects b

theorem held_once {objects : List Extent} (separate : objects.Pairwise Extent.Apart)
    {o q : Extent} {p : Nat} (here : o ∈ objects) (there : q ∈ objects) (first : o.Holds p)
    (second : q.Holds p) : o = q := by
  by_contra differ
  have apart := blocks_distinct separate here there differ
  unfold Extent.Apart at apart
  have h1 := first.1; have h2 := first.2; have h3 := second.1; have h4 := second.2
  omega

theorem walkable_of_walks {s : Heap w ι} (sound : Sound cfg s)
    (separate : s.arena.blocks.Pairwise Extent.Apart) (walks : Walks cfg s) :
    Walkable cfg s where
  blocks b member := by
    obtain ⟨top, packed⟩ := walks b member
    refine ⟨top, packed, ?_, ?_⟩
    · intro p low high
      obtain ⟨o, inside, holds⟩ := tiles_hold packed.tiles low high
      have found := (mem_objects_of.mp inside).1
      refine ⟨o, ⟨found, holds⟩, ?_⟩
      rintro q ⟨other, also⟩
      exact held_once sound.apart other found also holds
    · intro p held outside o inside holds
      obtain ⟨d, there, placed⟩ := sound.placed o inside
      by_cases same : d = b
      · subst same
        have within := tiles_within packed.tiles o (mem_objects_of.mpr ⟨inside, placed⟩)
        have h1 := holds.1; have h2 := holds.2
        omega
      · have apart := blocks_distinct separate there member same
        have h1 := holds.1; have h2 := holds.2; have h3 := held.1; have h4 := held.2
        have h5 := placed.1; have h6 := placed.2
        unfold Extent.Apart at apart
        omega
  owned o inside := by
    obtain ⟨b, member, placed⟩ := sound.placed o inside
    refine ⟨b, ⟨member, mem_objects_of.mpr ⟨inside, placed⟩⟩, ?_⟩
    rintro d ⟨other, also⟩
    by_contra differ
    have apart := blocks_distinct separate other member differ
    exact placed_once (mem_objects_of.mp also).2 placed apart

/-- In every run the blocks can be walked. -/
theorem heap_walkable [DecidableEq ι] (cfg : Config w) (answers : List (Word w))
    (bytes : Nat → UInt8) (events : List (Event w ι))
    (contract : ZallocContract (run (step cfg) (initial answers bytes) events).arena) :
    Walkable cfg (run (step cfg) (initial answers bytes) events) := by
  have both : Sound cfg (run (step cfg) (initial answers bytes) events) ∧
      Walks cfg (run (step cfg) (initial answers bytes) events) := by
    refine invariant_run (fun s => Sound cfg s ∧ Walks cfg s) ?_ ?_ (contract_each cfg contract)
    · rintro s e ⟨sound, walks⟩ fresh
      exact ⟨step_sound cfg s e sound fresh, step_walks sound fresh walks⟩
    · exact ⟨initial_sound cfg answers bytes, fun b member => absurd member List.not_mem_nil⟩
  exact walkable_of_walks both.1 contract.1 both.2

theorem heap_walkable_sample :
    Walkable config64 (run (step config64) (initial sampleAnswers fun _ => 255) sampleEvents) :=
  heap_walkable config64 sampleAnswers (fun _ => 255) sampleEvents (by decide +kernel)

end UgcWalkableHeap
