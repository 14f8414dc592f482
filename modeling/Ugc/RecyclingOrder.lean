import Ugc.StoreInvariant

/-!
Slots are recycled last-in first-out. A store that satisfies its representation
invariant is in step with a pool of slot numbers, which is the reference stack:
its list of free slots is the used part of the free stack, the top first. Stale
entries above the top and redundant destroys are invisible to the pool.
-/
namespace UgcRecyclingOrder
open SlotPools StepRuns UgcAllocator UgcHandleStore UgcStorePool UgcStoreInvariant
variable {w : Nat}

/-- The pool a store describes: its count, and its free stack from the top down. -/
def poolOf (s : Store w) (inv : StoreInv s) : Pool ugcHandleCount where
  issued := s.count
  free := stacked s.freeStack s.freeCount
  issued_le := inv.count_le
  free_nodup := nodup_stacked.mpr inv.distinct
  free_lt i member := ((inv.free_iff i).mp (mem_stacked.mp member)).1

theorem pool_of_tracks (s : Store w) (inv : StoreInv s) : Tracks (poolOf s inv) s := by
  refine ⟨⟨rfl, rfl, fun i member => ((inv.free_iff i).mp (mem_stacked.mp member)).2⟩, ?_⟩
  intro i inside tag
  have below : i < s.count := by
    by_contra above
    have unused := (inv.unused i (Nat.not_lt.mp above) inside).2.2.2
    omega
  exact mem_stacked.mpr ((inv.free_iff i).mpr ⟨below, tag⟩)

/-- The destroys of a list that are effective, in order: those of a slot that is not
    tagged as free at that moment. -/
def effectiveDestroys : Store w → List Nat → List Nat
  | _, [] => []
  | s, idx :: rest =>
    if s.types idx < 0 then effectiveDestroys (ugcHandleDestroyAt s idx) rest
    else idx :: effectiveDestroys (ugcHandleDestroyAt s idx) rest

/-- The answer and the next state the reference stack predicts. -/
def predict (p : Pool ugcHandleCount) (op : StoreOp w) : Option Nat × Pool ugcHandleCount :=
  (if op.record.isSome then p.acquire.1 else none, poolStep p op)

theorem exec_predicted (p : Pool ugcHandleCount) (s : Store w) (op : StoreOp w)
    (tracks : Tracks p s) (keeps : KeepsTags s op) :
    (exec s op).1 = (predict p op).1 ∧ Tracks (predict p op).2 (exec s op).2 := by
  refine ⟨?_, step_tracks p s op tracks keeps⟩
  cases creates : op.record with
  | none =>
    simp only [predict, creates, Option.isSome_none, Bool.false_eq_true, ↓reduceIte]
    exact created_none creates s
  | some record =>
    simp only [predict, creates, Option.isSome_some, ↓reduceIte]
    exact created_acquires tracks.toFollows creates

theorem destroy_count (s : Store w) (idx : Nat) : (ugcHandleDestroyAt s idx).count = s.count := by
  unfold ugcHandleDestroyAt
  split <;> rfl

theorem destroys_track {p : Pool ugcHandleCount} {s : Store w} (tracks : Tracks p s)
    {idxs : List Nat} (inside : ∀ idx ∈ idxs, idx < s.count) :
    Tracks (run Pool.release p idxs) (run ugcHandleDestroyAt s idxs) ∧
      effectiveDestroys s idxs = p.effective idxs := by
  induction idxs generalizing p s with
  | nil => exact ⟨tracks, rfl⟩
  | cons idx idxs ih =>
    have below := inside idx List.mem_cons_self
    have later : ∀ other ∈ idxs, other < (ugcHandleDestroyAt s idx).count := by
      intro other member
      rw [destroy_count]
      exact inside other (List.mem_cons_of_mem idx member)
    obtain ⟨rest, same⟩ := ih (destroy_tracks tracks below) later
    refine ⟨rest, ?_⟩
    by_cases free : s.types idx < 0
    · have outside : idx ∉ p.held := fun member =>
        absurd (tracks.held_iff.mp member).2 (Int.not_le.mpr free)
      rw [Pool.release_of_not_held outside] at same
      rw [effectiveDestroys, if_pos free, Pool.effective, if_neg outside, same]
    · have member : idx ∈ p.held := tracks.held_iff.mpr ⟨below, Int.not_lt.mp free⟩
      rw [effectiveDestroys, if_neg free, Pool.effective, if_pos member, same]

/-- The effective destroys are those of the live slots, each at its first occurrence. -/
theorem effective_destroys_eq {p : Pool ugcHandleCount} {s : Store w} (tracks : Tracks p s)
    {idxs : List Nat} (inside : ∀ idx ∈ idxs, idx < s.count) :
    effectiveDestroys s idxs = (idxs.filter fun idx => s.Live idx).eraseDups := by
  rw [(destroys_track tracks inside).2, Pool.effective_eq]
  simp only [tracks.held_iff]

theorem creates_follow {p : Pool ugcHandleCount} {s : Store w} (follows : Follows p s)
    {ops : List (StoreOp w)} (creates : ∀ op ∈ ops, op.record.isSome) :
    (trace exec s ops).1 = (trace (fun p (_ : StoreOp w) => p.acquire) p ops).1 ∧
      Follows (trace (fun p (_ : StoreOp w) => p.acquire) p ops).2 (trace exec s ops).2 := by
  refine trace_related ?_ follows (admitted_of_forall creates s)
  intro p s op follows created
  obtain ⟨record, found⟩ := Option.isSome_iff_exists.mp created
  rw [exec_create found]
  exact create_follows follows record

/-- Two stores in step with pools of one count and one free list differ at most in the
    contents of slots and in the stale entries above the top of the stack. -/
theorem same_stack {p q : Pool ugcHandleCount} {s t : Store w} (hs : Follows p s)
    (ht : Follows q t) (free : q.free = p.free) (issued : q.issued = p.issued) :
    t.count = s.count ∧ t.freeCount = s.freeCount ∧
      ∀ k < s.freeCount, t.freeStack k = s.freeStack k := by
  have counted : t.freeCount = s.freeCount := by
    rw [ht.freeCount, hs.freeCount, free]
  refine ⟨by rw [ht.count, hs.count, issued], counted, ?_⟩
  have used : stacked t.freeStack s.freeCount = stacked s.freeStack s.freeCount := by
    rw [hs.stack, ← counted, ht.stack, free]
  exact stacked_inj.mp used

theorem recycled {s : Store w} (inv : StoreInv s) {idxs : List Nat} {ops : List (StoreOp w)}
    (inside : ∀ idx ∈ idxs, idx < s.count) (creates : ∀ op ∈ ops, op.record.isSome)
    (many : ops.length = (effectiveDestroys s idxs).length) :
    (trace exec (run ugcHandleDestroyAt s idxs) ops).1 =
        (effectiveDestroys s idxs).reverse.map some ∧
      (trace exec (run ugcHandleDestroyAt s idxs) ops).2.count = s.count ∧
      (trace exec (run ugcHandleDestroyAt s idxs) ops).2.freeCount = s.freeCount ∧
      ∀ k < s.freeCount,
        (trace exec (run ugcHandleDestroyAt s idxs) ops).2.freeStack k = s.freeStack k := by
  have tracks := pool_of_tracks s inv
  obtain ⟨destroyed, same⟩ := destroys_track tracks inside
  obtain ⟨free, issued⟩ := (poolOf s inv).release_all idxs
  rw [← same] at free
  obtain ⟨answers, left, kept⟩ :=
    Pool.acquire_each free (many.trans (List.length_reverse).symm)
  obtain ⟨created, follows⟩ := creates_follow destroyed.toFollows creates
  exact ⟨created.trans answers, same_stack tracks.toFollows follows left (kept.trans issued)⟩

/-- For every store that satisfies the representation invariant: after any destroys of
    slots handed out before, as many creates as there were effective destroys, of any
    kind, return the destroyed slots in reverse order and restore both counters and the
    used part of the free stack; and in every run of creates and destroys the creates
    return the slots the reference stack predicts. -/
theorem recycling_lifo (s : Store w) (inv : StoreInv s) :
    (∀ idxs ops, (∀ idx ∈ idxs, idx < s.count) → (∀ op ∈ ops, op.record.isSome) →
      ops.length = (effectiveDestroys s idxs).length →
      effectiveDestroys s idxs = (idxs.filter fun idx => s.Live idx).eraseDups ∧
      (trace exec (run ugcHandleDestroyAt s idxs) ops).1 =
        (effectiveDestroys s idxs).reverse.map some ∧
      (trace exec (run ugcHandleDestroyAt s idxs) ops).2.count = s.count ∧
      (trace exec (run ugcHandleDestroyAt s idxs) ops).2.freeCount = s.freeCount ∧
      ∀ k < s.freeCount,
        (trace exec (run ugcHandleDestroyAt s idxs) ops).2.freeStack k = s.freeStack k) ∧
    ∀ ops, Admitted step KeepsTags s ops →
      (trace exec s ops).1 = (trace predict (poolOf s inv) ops).1 := by
  constructor
  · intro idxs ops inside creates many
    exact ⟨effective_destroys_eq (pool_of_tracks s inv) inside, recycled inv inside creates many⟩
  · intro ops keeps
    exact (trace_related exec_predicted (pool_of_tracks s inv) keeps).1

def threeHandles : List (StoreOp 64) :=
  [.create 1#64 0, .createWithExtra 2#64 5 3#64, .createDependent 4#64 5#64 6]

theorem three_handles_inv : StoreInv (run step initial threeHandles) :=
  kept_inv (invariant_run Kept step_kept initial_kept (by decide +kernel))

/-- Slots 0 and 2 are destroyed, slot 0 once more, and both come back. -/
theorem recycling_lifo_sample :
    (trace exec (run ugcHandleDestroyAt (run step initial threeHandles) [0, 2, 0])
      [.create 7#64 1, .createDependent 8#64 9#64 6]).1 = [some 2, some 0] :=
  ((recycling_lifo _ three_handles_inv).1 [0, 2, 0] [.create 7#64 1, .createDependent 8#64 9#64 6]
    (by decide +kernel) (by decide) (by decide +kernel)).2.1.trans (by decide +kernel)

end UgcRecyclingOrder
