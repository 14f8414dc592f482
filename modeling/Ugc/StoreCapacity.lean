import Ugc.StorePool

/-!
How much the handle store holds. The slots in use are the slots handed out less
those on the free stack, the number of slots handed out is the most ever in use
at once since the last reset, a create fails only when every slot is in use,
and every destroy of a slot in use makes room for one more create.
-/
namespace UgcStoreCapacity
open SlotPools StepRuns UgcAllocator UgcHandleStore UgcStorePool
variable {w : Nat}

def liveSlots (s : Store w) : Finset Nat := (Finset.range s.count).filter fun i => s.Live i

def liveCount (s : Store w) : Nat := (liveSlots s).card

def IsReset (op : StoreOp w) : Prop := op = .reset

/-- How many of the given creates, made one after the other, return a handle. -/
def successes (s : Store w) (creates : List (StoreOp w)) : Nat :=
  (trace exec s creates).1.countP Option.isSome

def Creates (op : StoreOp w) : Prop := ∃ record, op.record = some record ∧ 0 ≤ record.type

theorem live_slots_held {p : Pool ugcHandleCount} {s : Store w} (tracks : Tracks p s) :
    liveSlots s = p.held := by
  ext i
  rw [liveSlots, Finset.mem_filter, Finset.mem_range, tracks.held_iff]
  exact ⟨fun both => both.2, fun live => ⟨live.1, live⟩⟩

theorem live_count_held {p : Pool ugcHandleCount} {s : Store w} (tracks : Tracks p s) :
    liveCount s = p.held.card :=
  congrArg Finset.card (live_slots_held tracks)

theorem pool_step_issued (p : Pool ugcHandleCount) {op : StoreOp w} (other : ¬ IsReset op) :
    (poolStep p op).issued = max p.issued (poolStep p op).held.card := by
  cases op with
  | create | createWithExtra | createDependent => exact p.acquire_issued
  | destroyAt idx => exact p.release_issued idx
  | reset => exact absurd rfl other
  | setTypeAt | setExtraAt | setDependentAt | slotStore | slotStoreIfNull | slotCas =>
    have count := p.card_held
    change p.issued = max p.issued p.held.card
    omega

theorem count_raised (s : Store w) (op : StoreOp w) (tracked : Tracked s)
    (keeps : KeepsTags s op) :
    (IsReset op → (step s op).count = liveCount (step s op)) ∧
      (¬ IsReset op → (step s op).count = max s.count (liveCount (step s op))) := by
  obtain ⟨p, tracks⟩ := tracked
  have after := step_tracks p s op tracks keeps
  rw [after.count, live_count_held after, tracks.count]
  refine ⟨?_, pool_step_issued p⟩
  rintro rfl
  rfl

theorem create_none_iff {p : Pool ugcHandleCount} {s : Store w} (tracks : Tracks p s)
    {op : StoreOp w} (creates : Creates op) :
    created s op = none ↔ liveCount s = ugcHandleCount := by
  obtain ⟨record, creates, -⟩ := creates
  rw [created_acquires tracks.toFollows creates, live_count_held tracks]
  exact p.acquire_none_iff

theorem create_none_same {s : Store w} {op : StoreOp w} (creates : Creates op)
    (failed : created s op = none) : step s op = s := by
  obtain ⟨record, creates, -⟩ := creates
  rw [created, exec_create creates] at failed
  rw [step, exec_create creates]
  exact create_slot_none failed

theorem creates_keep_tags {op : StoreOp w} (creates : Creates op) (s : Store w) :
    KeepsTags s op := by
  obtain ⟨record, creates, live⟩ := creates
  cases op <;> simp only [StoreOp.record, Option.some.injEq, reduceCtorEq] at creates <;>
    subst creates <;> exact live

theorem create_live_count {p : Pool ugcHandleCount} {s : Store w} (tracks : Tracks p s)
    {op : StoreOp w} (creates : Creates op) {i : Nat} (given : created s op = some i) :
    liveCount (step s op) = liveCount s + 1 := by
  have after := step_tracks p s op tracks (creates_keep_tags creates s)
  obtain ⟨record, creates, -⟩ := creates
  obtain ⟨fresh, held⟩ :=
    Pool.acquire_some ((created_acquires tracks.toFollows creates).symm.trans given)
  have pool : poolStep p op = p.acquire.2 := by
    cases op <;> first | rfl | simp [StoreOp.record] at creates
  rw [live_count_held after, live_count_held tracks, pool, held, Finset.card_insert_of_notMem fresh]

/-- Creates succeed until every slot is in use. -/
theorem successes_eq {creates : List (StoreOp w)} (each : ∀ op ∈ creates, Creates op)
    {p : Pool ugcHandleCount} {s : Store w} (tracks : Tracks p s) :
    successes s creates = min creates.length (ugcHandleCount - liveCount s) := by
  induction creates generalizing p s with
  | nil => simp [successes, trace]
  | cons op creates ih =>
    have here := each op List.mem_cons_self
    have after := step_tracks p s op tracks (creates_keep_tags here s)
    have rest := ih (fun e member => each e (List.mem_cons_of_mem op member)) after
    have opened : successes s (op :: creates) =
        successes (step s op) creates + if (created s op).isSome then 1 else 0 :=
      List.countP_cons
    have bound : liveCount s ≤ ugcHandleCount := by
      have held := p.card_held
      have issued := p.issued_le
      have live := live_count_held tracks
      omega
    rw [opened, rest, List.length_cons]
    cases given : created s op with
    | none =>
      have full := (create_none_iff tracks here).mp given
      rw [create_none_same here given]
      simp only [Option.isSome_none, Bool.false_eq_true, ↓reduceIte]
      omega
    | some i =>
      have notFull : liveCount s ≠ ugcHandleCount := by
        rw [Ne, ← create_none_iff tracks here, given]
        exact Option.some_ne_none i
      rw [create_live_count tracks here given]
      simp only [Option.isSome_some, ↓reduceIte]
      omega

theorem destroy_live {p : Pool ugcHandleCount} {s : Store w} (tracks : Tracks p s) {i : Nat}
    (live : s.Live i) :
    liveSlots (step s (.destroyAt i)) = (liveSlots s).erase i ∧
      liveCount (step s (.destroyAt i)) + 1 = liveCount s ∧
      (step s (.destroyAt i)).freeCount = s.freeCount + 1 := by
  have member := tracks.held_iff.mpr live
  have after := destroy_tracks tracks live.1
  obtain ⟨free, -, held⟩ := Pool.release_held member
  have erased : liveSlots (step s (.destroyAt i)) = (liveSlots s).erase i := by
    rw [live_slots_held tracks, ← held]
    exact live_slots_held after
  refine ⟨erased, ?_, ?_⟩
  · rw [liveCount, erased]
    exact Finset.card_erase_add_one (live_slots_held tracks ▸ member)
  · have length := after.freeCount
    rw [free, List.length_cons, ← tracks.freeCount] at length
    exact length

theorem destroy_makes_room {p : Pool ugcHandleCount} {s : Store w} (tracks : Tracks p s) {i : Nat}
    (live : s.Live i) {creates : List (StoreOp w)} (each : ∀ op ∈ creates, Creates op) :
    successes (step s (.destroyAt i)) creates =
      min creates.length (ugcHandleCount - liveCount s + 1) := by
  obtain ⟨-, fewer, -⟩ := destroy_live tracks live
  have after := step_tracks p s (.destroyAt i) tracks live.1
  have held := p.card_held
  have issued := p.issued_le
  have count := live_count_held tracks
  have room : ugcHandleCount - liveCount (step s (.destroyAt i)) =
      ugcHandleCount - liveCount s + 1 := by omega
  rw [successes_eq each after, room]

/-- In every state of a run: what is in use, the high-water mark, when creates
    fail, and what a destroy of a slot in use gives back. -/
theorem capacity_exact (ops : List (StoreOp w)) (keeps : Admitted step KeepsTags initial ops) :
    let s := run step initial ops
    liveCount s + s.freeCount = s.count ∧
      IsGreatest (liveCount '' sinceRestart step IsReset initial ops) s.count ∧
      (∀ op, Creates op → (created s op = none ↔ liveCount s = ugcHandleCount) ∧
        (created s op = none → step s op = s)) ∧
      ∀ i, s.Live i → liveSlots (step s (.destroyAt i)) = (liveSlots s).erase i ∧
        ∀ creates : List (StoreOp w), (∀ op ∈ creates, Creates op) →
          successes s creates = min creates.length (ugcHandleCount - liveCount s) ∧
          successes (step s (.destroyAt i)) creates =
            min creates.length (ugcHandleCount - liveCount s + 1) := by
  have tracks := run_tracks keeps
  have raised := admitted_under Tracked step_tracked count_raised initial_tracked keeps
  refine ⟨?_, high_water rfl raised, ?_, ?_⟩
  · rw [live_count_held tracks, tracks.freeCount, tracks.count, Pool.card_held]
  · intro op creates
    exact ⟨create_none_iff tracks creates, create_none_same creates⟩
  · intro i live
    exact ⟨(destroy_live tracks live).1,
      fun creates each => ⟨successes_eq each tracks, destroy_makes_room tracks live each⟩⟩

theorem capacity_exact_sample :
    IsGreatest (liveCount '' sinceRestart step IsReset (initial : Store 64)
      [.create 7#64 1, .reset, .create 7#64 1, .create 8#64 2, .destroyAt 0, .destroyAt 0]) 2 :=
  (capacity_exact [.create 7#64 1, .reset, .create 7#64 1, .create 8#64 2, .destroyAt 0,
    .destroyAt 0] (by decide +kernel)).2.1

end UgcStoreCapacity
