import Ugc.HandleStore
import Ugc.SlotPools
import Ugc.StepRuns

/-!
The store follows a pool of slot numbers: its counters and its free stack are
the pool's, and the type tags mark the free slots. Each operation of the store
is matched by one operation of the pool, so what is known of pools holds of the
store along every run that keeps the tags in step.
-/
namespace UgcStorePool
open SlotPools StepRuns UgcAllocator UgcHandleStore
variable {w : Nat}

/-- The counters and the stack are the pool's, and every free slot is tagged. -/
structure Follows (p : Pool ugcHandleCount) (s : Store w) : Prop where
  count : s.count = p.issued
  stack : stacked s.freeStack s.freeCount = p.free
  freed : ∀ i ∈ p.free, s.types i < 0

/-- Moreover no other slot carries the tag of a free one. -/
structure Tracks (p : Pool ugcHandleCount) (s : Store w) : Prop extends Follows p s where
  tagged : ∀ i, i < ugcHandleCount → s.types i < 0 → i ∈ p.free

theorem Follows.freeCount {p : Pool ugcHandleCount} {s : Store w} (follows : Follows p s) :
    s.freeCount = p.free.length := by
  rw [← follows.stack, length_stacked]

theorem Follows.held_of_live {p : Pool ugcHandleCount} {s : Store w} (follows : Follows p s)
    {i : Nat} (live : s.Live i) : i ∈ p.held := by
  refine Pool.mem_held.mpr ⟨follows.count ▸ live.1, fun free => ?_⟩
  exact absurd live.2 (Int.not_le.mpr (follows.freed i free))

theorem Tracks.held_iff {p : Pool ugcHandleCount} {s : Store w} (tracks : Tracks p s) {i : Nat} :
    i ∈ p.held ↔ s.Live i := by
  constructor
  · intro member
    obtain ⟨inside, used⟩ := Pool.mem_held.mp member
    refine ⟨tracks.count ▸ inside, Int.not_lt.mp fun tag => used ?_⟩
    exact tracks.tagged i (Pool.held_lt member) tag
  · exact tracks.held_of_live

/-- While a slot is held the free stack is not full. -/
theorem Follows.room {p : Pool ugcHandleCount} {s : Store w} (follows : Follows p s) {i : Nat}
    (member : i ∈ p.held) : s.freeCount ≠ ugcHandleCount := by
  have some := Finset.card_pos.mpr ⟨i, member⟩
  have count := p.card_held
  have bound := p.issued_le
  have length := follows.freeCount
  omega

theorem acquire_follows {p : Pool ugcHandleCount} {s : Store w} (follows : Follows p s) :
    (ugcHandleSlotAcquire s).1 = p.acquire.1 ∧
      Follows p.acquire.2 (ugcHandleSlotAcquire s).2 := by
  have length := follows.freeCount
  obtain ⟨i, top, free, issued⟩ | ⟨fresh, free, room, free', issued⟩ | ⟨full, free, all, same⟩ :=
    p.acquire_cases
  · have some : 0 < s.freeCount := by
      rw [length, free]
      exact Nat.succ_pos _
    have popped : s.freeStack (s.freeCount - 1) = i ∧
        stacked s.freeStack (s.freeCount - 1) = p.acquire.2.free := by
      have stack := follows.stack
      rw [stacked_pop some, free] at stack
      exact List.cons.inj stack
    rw [ugcHandleSlotAcquire, if_pos some, top, popped.1]
    refine ⟨rfl, ⟨?_, popped.2, ?_⟩⟩
    · exact follows.count.trans issued.symm
    · intro j member
      exact follows.freed j (free ▸ List.mem_cons_of_mem i member)
  · have none : ¬ 0 < s.freeCount := by
      rw [length, free]
      exact Nat.lt_irrefl _
    have below : s.count < ugcHandleCount := follows.count ▸ room
    rw [ugcHandleSlotAcquire, if_neg none, if_pos below, fresh, follows.count]
    refine ⟨rfl, ⟨issued.symm, ?_, ?_⟩⟩
    · exact (follows.stack.trans free).trans free'.symm
    · intro j member
      exact absurd (free' ▸ member) List.not_mem_nil
  · have none : ¬ 0 < s.freeCount := by
      rw [length, free]
      exact Nat.lt_irrefl _
    have filled : ¬ s.count < ugcHandleCount := by
      rw [follows.count, all]
      exact Nat.lt_irrefl _
    rw [ugcHandleSlotAcquire, if_neg none, if_neg filled, full, same]
    exact ⟨rfl, follows⟩

theorem types_set_slot (s : Store w) (idx : Nat) (record : Record w) :
    (s.setSlot idx record).types = Function.update s.types idx record.type := rfl

theorem create_follows {p : Pool ugcHandleCount} {s : Store w} (follows : Follows p s)
    (record : Record w) :
    (createSlot s record).1 = p.acquire.1 ∧ Follows p.acquire.2 (createSlot s record).2 := by
  obtain ⟨answer, after⟩ := acquire_follows follows
  have given := (create_slot_acquires s record).trans answer
  refine ⟨given, ?_⟩
  cases got : p.acquire.1 with
  | none =>
    rw [create_slot_none (given.trans got), Pool.acquire_none got]
    exact follows
  | some i =>
    rw [create_slot_some (given.trans got)]
    obtain ⟨fresh, held⟩ := Pool.acquire_some got
    have now : i ∈ p.acquire.2.held := held ▸ Finset.mem_insert_self i p.held
    refine ⟨after.count, after.stack, fun j member => ?_⟩
    have apart : j ≠ i := fun same => (Pool.mem_held.mp now).2 (same ▸ member)
    rw [types_set_slot, Function.update_of_ne apart]
    exact after.freed j member

theorem create_inside {p : Pool ugcHandleCount} {s : Store w} (follows : Follows p s)
    {record : Record w} {i : Nat} (given : (createSlot s record).1 = some i) :
    i < (createSlot s record).2.count := by
  obtain ⟨same, after⟩ := create_follows follows record
  have held := (Pool.acquire_some (same.symm.trans given)).2
  have member : i ∈ p.acquire.2.held := held ▸ Finset.mem_insert_self i p.held
  exact after.count ▸ (Pool.mem_held.mp member).1

theorem create_tracks {p : Pool ugcHandleCount} {s : Store w} (tracks : Tracks p s)
    {record : Record w} (live : 0 ≤ record.type) :
    Tracks p.acquire.2 (createSlot s record).2 := by
  obtain ⟨given, after⟩ := create_follows tracks.toFollows record
  refine ⟨after, fun j inside tag => ?_⟩
  cases got : p.acquire.1 with
  | none =>
    rw [Pool.acquire_none got]
    rw [create_slot_none (given.trans got)] at tag
    exact tracks.tagged j inside tag
  | some i =>
    obtain ⟨own, other, -⟩ := create_slot_frame (given.trans got)
    by_cases same : j = i
    · have typed : (createSlot s record).2.types i = record.type := congrArg Record.type own
      rw [same, typed] at tag
      exact absurd live (Int.not_le.mpr tag)
    · rw [types_of_slot (other j same)] at tag
      have free := tracks.tagged j inside tag
      have held := (Pool.acquire_some got).2
      have issued := p.acquire_issued
      by_contra used
      have member : j ∈ insert i p.held := by
        rw [← held, Pool.mem_held]
        exact ⟨by have := p.free_lt j free; omega, used⟩
      obtain here | there := Finset.mem_insert.mp member
      · exact same here
      · exact (Pool.mem_held.mp there).2 free

theorem destroy_follows {p : Pool ugcHandleCount} {s : Store w} (follows : Follows p s) {idx : Nat}
    (live : s.Live idx) : Follows (p.release idx) (ugcHandleDestroyAt s idx) := by
  have member := follows.held_of_live live
  obtain ⟨free, issued, -⟩ := Pool.release_held member
  rw [destroy_at_effective live.2 (follows.room member)]
  refine ⟨follows.count.trans issued.symm, ?_, fun j freed => ?_⟩
  · rw [free, ← follows.stack]
    exact stacked_push s.freeStack s.freeCount idx
  · change Function.update s.types idx ugcHandleTypeFree j < 0
    by_cases same : j = idx
    · rw [same, Function.update_self]
      decide
    · rw [Function.update_of_ne same]
      rw [free] at freed
      exact follows.freed j ((List.mem_cons.mp freed).resolve_left same)

theorem destroy_tracks {p : Pool ugcHandleCount} {s : Store w} (tracks : Tracks p s) {idx : Nat}
    (inside : idx < s.count) : Tracks (p.release idx) (ugcHandleDestroyAt s idx) := by
  by_cases live : 0 ≤ s.types idx
  · have member := tracks.held_of_live ⟨inside, live⟩
    have free := (Pool.release_held member).1
    refine ⟨destroy_follows tracks.toFollows ⟨inside, live⟩, fun j below tag => ?_⟩
    rw [destroy_at_effective live (tracks.room member)] at tag
    change Function.update s.types idx ugcHandleTypeFree j < 0 at tag
    rw [free]
    by_cases same : j = idx
    · exact same ▸ List.mem_cons_self
    · rw [Function.update_of_ne same] at tag
      exact List.mem_cons_of_mem idx (tracks.tagged j below tag)
  · have outside : idx ∉ p.held := fun member => live (tracks.held_iff.mp member).2
    rw [destroy_at_free (Int.not_le.mp live), Pool.release_of_not_held outside]
    exact tracks

theorem initial_tracks : Tracks Pool.empty (initial : Store w) :=
  ⟨⟨rfl, rfl, fun _ member => absurd member List.not_mem_nil⟩,
    fun _ _ tag => absurd tag (by simp [initial])⟩

theorem reset_tracks (s : Store w) : Tracks Pool.empty (ugcHandleStoreReset s) :=
  ⟨⟨rfl, rfl, fun _ member => absurd member List.not_mem_nil⟩,
    fun i inside tag => absurd tag (by rw [reset_types inside]; exact Int.lt_irrefl 0)⟩

theorem fresh_tracks {s : Store w} (fresh : s.Fresh) : Tracks Pool.empty s := by
  rcases fresh with rfl | ⟨before, rfl⟩
  · exact initial_tracks
  · exact reset_tracks before

theorem quiet_tracks {p : Pool ugcHandleCount} {s : Store w} (tracks : Tracks p s)
    (op : StoreOp w) (quiet : op.Quiet) : Tracks p (step s op) := by
  obtain ⟨count, freeCount, freeStack, types⟩ := quiet_frame quiet s
  refine ⟨⟨count.trans tracks.count, ?_, ?_⟩, ?_⟩
  · rw [freeStack, freeCount]
    exact tracks.stack
  · rw [types]
    exact tracks.freed
  · rw [types]
    exact tracks.tagged

theorem set_type_tracks {p : Pool ugcHandleCount} {s : Store w} (tracks : Tracks p s) (idx : Nat)
    (type : Int) (sign : type < 0 ↔ s.types idx < 0) :
    Tracks p (ugcHandleSetTypeAt s idx type) := by
  have tags : ∀ i, (ugcHandleSetTypeAt s idx type).types i < 0 ↔ s.types i < 0 := by
    intro i
    change Function.update s.types idx type i < 0 ↔ s.types i < 0
    by_cases same : i = idx
    · rw [same, Function.update_self]
      exact sign
    · rw [Function.update_of_ne same]
  exact ⟨⟨tracks.count, tracks.stack, fun i member => (tags i).mpr (tracks.freed i member)⟩,
    fun i inside tag => tracks.tagged i inside ((tags i).mp tag)⟩

/-- The operation of the pool that matches one of the store. -/
def poolStep (p : Pool ugcHandleCount) : StoreOp w → Pool ugcHandleCount
  | .create _ _ => p.acquire.2
  | .createWithExtra _ _ _ => p.acquire.2
  | .createDependent _ _ _ => p.acquire.2
  | .destroyAt idx => p.release idx
  | .reset => .empty
  | _ => p

/-- The uses of the store that keep its tags in step with its stack. -/
def KeepsTags (s : Store w) : StoreOp w → Prop
  | .create _ type => 0 ≤ type
  | .createWithExtra _ type _ => 0 ≤ type
  | .createDependent _ _ type => 0 ≤ type
  | .destroyAt idx => idx < s.count
  | .setTypeAt idx type => type < 0 ↔ s.types idx < 0
  | _ => True

instance (s : Store w) : (op : StoreOp w) → Decidable (KeepsTags s op)
  | .create _ type => inferInstanceAs (Decidable (0 ≤ type))
  | .createWithExtra _ type _ => inferInstanceAs (Decidable (0 ≤ type))
  | .createDependent _ _ type => inferInstanceAs (Decidable (0 ≤ type))
  | .destroyAt idx => inferInstanceAs (Decidable (idx < s.count))
  | .setTypeAt idx type => inferInstanceAs (Decidable (type < 0 ↔ s.types idx < 0))
  | .setExtraAt _ _ => isTrue trivial
  | .setDependentAt _ _ => isTrue trivial
  | .slotStore _ _ => isTrue trivial
  | .slotStoreIfNull _ _ => isTrue trivial
  | .slotCas _ _ _ => isTrue trivial
  | .reset => isTrue trivial

theorem step_tracks (p : Pool ugcHandleCount) (s : Store w) (op : StoreOp w)
    (tracks : Tracks p s) (keeps : KeepsTags s op) : Tracks (poolStep p op) (step s op) := by
  cases op with
  | create object type => exact create_tracks tracks keeps
  | createWithExtra object type extra => exact create_tracks tracks keeps
  | createDependent primary secondary type => exact create_tracks tracks keeps
  | destroyAt idx => exact destroy_tracks tracks keeps
  | setTypeAt idx type => exact set_type_tracks tracks idx type keeps
  | reset => exact reset_tracks s
  | setExtraAt | setDependentAt | slotStore | slotStoreIfNull | slotCas =>
    exact quiet_tracks tracks _ trivial

/-- What a run keeps: the store is in step with some pool. -/
def Tracked (s : Store w) : Prop := ∃ p, Tracks p s

theorem initial_tracked : Tracked (initial : Store w) := ⟨_, initial_tracks⟩

theorem step_tracked (s : Store w) (op : StoreOp w) (tracked : Tracked s)
    (keeps : KeepsTags s op) : Tracked (step s op) := by
  obtain ⟨p, tracks⟩ := tracked
  exact ⟨poolStep p op, step_tracks p s op tracks keeps⟩

theorem run_tracks {ops : List (StoreOp w)} (keeps : Admitted step KeepsTags initial ops) :
    Tracks (run poolStep Pool.empty ops) (run step initial ops) :=
  related_run step_tracks initial_tracks keeps

theorem created_acquires {p : Pool ugcHandleCount} {s : Store w} (follows : Follows p s)
    {op : StoreOp w} {record : Record w} (creates : op.record = some record) :
    created s op = p.acquire.1 := by
  rw [created, exec_create creates]
  exact (create_follows follows record).1

end UgcStorePool
