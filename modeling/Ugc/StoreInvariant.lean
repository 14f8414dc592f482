import Ugc.StorePool

/-!
The representation invariant of the handle store. The stack of free slots and
the negative type tags describe the same set, no slot is on the stack twice,
free slots are scrubbed and slots never handed out are still null. The first
half is inherited from the pool the store follows, the second is kept by every
operation on its own slot.
-/
namespace UgcStoreInvariant
open SlotPools StepRuns UgcAllocator UgcHandleStore UgcStorePool
variable {w : Nat}

structure StoreInv (s : Store w) : Prop where
  free_le : s.freeCount ≤ s.count
  count_le : s.count ≤ ugcHandleCount
  distinct : ∀ j k, j < s.freeCount → k < s.freeCount → s.freeStack j = s.freeStack k → j = k
  free_iff : ∀ i, (∃ k < s.freeCount, s.freeStack k = i) ↔ i < s.count ∧ s.types i < 0
  scrubbed : ∀ i, i < s.count → s.types i < 0 →
    s.handles i = 0#w ∧ s.extra i = 0#w ∧ s.dependent i = 0#w
  unused : ∀ i, s.count ≤ i → i < ugcHandleCount →
    s.handles i = 0#w ∧ s.extra i = 0#w ∧ s.dependent i = 0#w ∧ s.types i = 0

/-- Creates and type changes with a type that is not negative, destroys of slots handed
    out before, and every other operation on live slots only. -/
def Respects (s : Store w) : StoreOp w → Prop
  | .create _ type => 0 ≤ type
  | .createWithExtra _ type _ => 0 ≤ type
  | .createDependent _ _ type => 0 ≤ type
  | .destroyAt idx => idx < s.count
  | .setTypeAt idx type => s.Live idx ∧ 0 ≤ type
  | .setExtraAt idx _ => s.Live idx
  | .setDependentAt idx _ => s.Live idx
  | .slotStore slot _ => s.Live slot.idx
  | .slotStoreIfNull slot _ => s.Live slot.idx
  | .slotCas slot _ _ => s.Live slot.idx
  | .reset => True

instance (s : Store w) : (op : StoreOp w) → Decidable (Respects s op)
  | .create _ type => inferInstanceAs (Decidable (0 ≤ type))
  | .createWithExtra _ type _ => inferInstanceAs (Decidable (0 ≤ type))
  | .createDependent _ _ type => inferInstanceAs (Decidable (0 ≤ type))
  | .destroyAt idx => inferInstanceAs (Decidable (idx < s.count))
  | .setTypeAt idx type => inferInstanceAs (Decidable (s.Live idx ∧ 0 ≤ type))
  | .setExtraAt idx _ => inferInstanceAs (Decidable (s.Live idx))
  | .setDependentAt idx _ => inferInstanceAs (Decidable (s.Live idx))
  | .slotStore slot _ => inferInstanceAs (Decidable (s.Live slot.idx))
  | .slotStoreIfNull slot _ => inferInstanceAs (Decidable (s.Live slot.idx))
  | .slotCas slot _ _ => inferInstanceAs (Decidable (s.Live slot.idx))
  | .reset => isTrue trivial

theorem respects_keeps_tags (s : Store w) (op : StoreOp w) (respects : Respects s op) :
    KeepsTags s op := by
  cases op with
  | create | createWithExtra | createDependent | destroyAt => exact respects
  | setTypeAt idx type =>
    obtain ⟨⟨-, live⟩, type_live⟩ := respects
    exact iff_of_false (Int.not_lt.mpr type_live) (Int.not_lt.mpr live)
  | setExtraAt | setDependentAt | slotStore | slotStoreIfNull | slotCas | reset => trivial

/-- The contents of the slots that are not live. -/
structure Scrubbed (s : Store w) : Prop where
  free : ∀ i, i < s.count → s.types i < 0 → s.slot i = Record.freed
  unused : ∀ i, s.count ≤ i → i < ugcHandleCount → s.slot i = Record.null

theorem initial_scrubbed : Scrubbed (initial : Store w) :=
  ⟨fun _ inside => absurd inside (Nat.not_lt_zero _), fun _ _ _ => rfl⟩

theorem reset_scrubbed (s : Store w) : Scrubbed (ugcHandleStoreReset s) :=
  ⟨fun _ inside => absurd inside (Nat.not_lt_zero _), fun _ _ inside => reset_slot inside⟩

theorem create_scrubbed {p : Pool ugcHandleCount} {s : Store w} (tracks : Tracks p s)
    (scrubbed : Scrubbed s) {record : Record w} (live : 0 ≤ record.type) :
    Scrubbed (createSlot s record).2 := by
  cases given : (createSlot s record).1 with
  | none =>
    rw [create_slot_none given]
    exact scrubbed
  | some i =>
    have inside := create_inside tracks.toFollows given
    obtain ⟨own, other, counted⟩ := create_slot_frame given
    constructor
    · intro j below tag
      by_cases same : j = i
      · have typed : (createSlot s record).2.types i = record.type := congrArg Record.type own
        rw [same, typed] at tag
        exact absurd live (Int.not_le.mpr tag)
      · rw [types_of_slot (other j same)] at tag
        rw [other j same]
        exact scrubbed.free j (by omega) tag
    · intro j above bound
      rw [other j (by omega)]
      exact scrubbed.unused j (by omega) bound

theorem destroy_scrubbed {s : Store w} (scrubbed : Scrubbed s) {idx : Nat}
    (inside : idx < s.count) : Scrubbed (ugcHandleDestroyAt s idx) := by
  by_cases kept : s.types idx < 0 ∨ s.freeCount = ugcHandleCount
  · rw [ugcHandleDestroyAt, if_pos kept]
    exact scrubbed
  · rw [ugcHandleDestroyAt, if_neg kept]
    have own := slot_set_self s idx Record.freed
    constructor
    · intro j below tag
      by_cases same : j = idx
      · exact same ▸ own
      · have other := slot_set_of_ne s Record.freed same
        change (s.setSlot idx Record.freed).types j < 0 at tag
        rw [types_of_slot other] at tag
        exact other.trans (scrubbed.free j below tag)
    · intro j above bound
      change s.count ≤ j at above
      exact (slot_set_of_ne s Record.freed (by omega)).trans (scrubbed.unused j above bound)

/-- An operation on one slot that leaves it live leaves the others as they are. -/
theorem touch_scrubbed {s t : Store w} (scrubbed : Scrubbed s) {idx : Nat}
    (count : t.count = s.count) (live : t.Live idx)
    (other : ∀ i, i ≠ idx → t.slot i = s.slot i) : Scrubbed t := by
  constructor
  · intro i inside tag
    have apart : i ≠ idx := fun same => absurd live.2 (Int.not_le.mpr (same ▸ tag))
    have kept := other i apart
    rw [types_of_slot kept] at tag
    rw [kept]
    exact scrubbed.free i (count ▸ inside) tag
  · intro i above bound
    have apart : i ≠ idx := fun same => absurd live.1 (Nat.not_lt.mpr (same ▸ above))
    rw [other i apart]
    exact scrubbed.unused i (count ▸ above) bound

theorem quiet_scrubbed {s : Store w} (scrubbed : Scrubbed s) {op : StoreOp w} {idx : Nat}
    (quiet : op.Quiet) (touched : op.touched = some idx) (live : s.Live idx) :
    Scrubbed (step s op) := by
  obtain ⟨count, -, -, types⟩ := quiet_frame quiet s
  refine touch_scrubbed scrubbed count ?_ fun i apart => touched_other touched apart s
  exact ⟨count ▸ live.1, types ▸ live.2⟩

theorem step_scrubbed {s : Store w} {op : StoreOp w} (tracked : Tracked s)
    (scrubbed : Scrubbed s) (respects : Respects s op) :
    Scrubbed (step s op) := by
  obtain ⟨p, tracks⟩ := tracked
  cases op with
  | create object type => exact create_scrubbed tracks scrubbed respects
  | createWithExtra object type extra => exact create_scrubbed tracks scrubbed respects
  | createDependent primary secondary type => exact create_scrubbed tracks scrubbed respects
  | destroyAt idx => exact destroy_scrubbed scrubbed respects
  | setTypeAt idx type =>
    obtain ⟨live, type_live⟩ := respects
    have now : (step s (.setTypeAt idx type)).Live idx := by
      refine ⟨live.1, ?_⟩
      simpa [step, exec, ugcHandleSetTypeAt] using type_live
    exact touch_scrubbed scrubbed rfl now fun i apart => touched_other rfl apart s
  | reset => exact reset_scrubbed s
  | setExtraAt | setDependentAt | slotStore | slotStoreIfNull | slotCas =>
    exact quiet_scrubbed scrubbed trivial rfl respects

def Kept (s : Store w) : Prop := Tracked s ∧ Scrubbed s

theorem initial_kept : Kept (initial : Store w) := ⟨initial_tracked, initial_scrubbed⟩

theorem step_kept (s : Store w) (op : StoreOp w) (kept : Kept s) (respects : Respects s op) :
    Kept (step s op) := by
  obtain ⟨tracked, scrubbed⟩ := kept
  exact ⟨step_tracked s op tracked (respects_keeps_tags s op respects),
    step_scrubbed tracked scrubbed respects⟩

theorem kept_inv {s : Store w} (kept : Kept s) : StoreInv s := by
  obtain ⟨⟨p, tracks⟩, scrubbed⟩ := kept
  have length := tracks.freeCount
  have count := tracks.count
  have free : ∀ i, (∃ k < s.freeCount, s.freeStack k = i) ↔ i ∈ p.free := by
    intro i
    rw [← tracks.stack, mem_stacked]
  refine ⟨?_, ?_, ?_, ?_, ?_, ?_⟩
  · have := p.free_length_le
    omega
  · have := p.issued_le
    omega
  · exact nodup_stacked.mp (tracks.stack ▸ p.free_nodup)
  · intro i
    rw [free]
    constructor
    · intro member
      exact ⟨count ▸ p.free_lt i member, tracks.freed i member⟩
    · rintro ⟨inside, tag⟩
      have bound := p.issued_le
      exact tracks.tagged i (by omega) tag
  · intro i inside tag
    have slot := scrubbed.free i inside tag
    exact ⟨congrArg Record.object slot, congrArg Record.extra slot, congrArg Record.dependent slot⟩
  · intro i above bound
    have slot := scrubbed.unused i above bound
    exact ⟨congrArg Record.object slot, congrArg Record.extra slot, congrArg Record.dependent slot,
      congrArg Record.type slot⟩

theorem acquired_not_live {s : Store w} (kept : Kept s) {i : Nat}
    (given : (ugcHandleSlotAcquire s).1 = some i) : ¬ s.Live i := by
  obtain ⟨⟨p, tracks⟩, -⟩ := kept
  have fresh := (Pool.acquire_some ((acquire_follows tracks.toFollows).1.symm.trans given)).1
  exact fun live => fresh (tracks.held_iff.mpr live)

/-- Every run that respects the slots it works on keeps the invariant, and the slot
    acquired next, popped or grown, is never in use. -/
theorem store_invariant (ops : List (StoreOp w)) (respects : Admitted step Respects initial ops) :
    StoreInv (run step initial ops) ∧
      ∀ i, (ugcHandleSlotAcquire (run step initial ops)).1 = some i →
        ¬ (run step initial ops).Live i := by
  have kept : Kept (run step initial ops) := invariant_run Kept step_kept initial_kept respects
  exact ⟨kept_inv kept, fun i given => acquired_not_live kept given⟩

theorem store_invariant_sample :
    StoreInv (run step (initial : Store 64) [.create 7#64 1, .createDependent 8#64 9#64 6,
      .destroyAt 0, .destroyAt 0, .setTypeAt 1 2, .slotStore (.handle 1) 3#64, .reset]) :=
  (store_invariant [.create 7#64 1, .createDependent 8#64 9#64 6, .destroyAt 0, .destroyAt 0,
    .setTypeAt 1 2, .slotStore (.handle 1) 3#64, .reset] (by decide +kernel)).1

end UgcStoreInvariant
