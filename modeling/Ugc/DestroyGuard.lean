import Ugc.HandleManager
import Ugc.StorePool

/-!
Destroying any pointer. `uGCHandleStore::uDestroyHandle` drops pointers outside
`ugc_handles` and passes every other one on. A slot never handed out carries the
type 0, which reads as a live one: destroying it puts a slot on the free stack
that the next growth hands out again. A pointer into the middle of a live slot
destroys its handle. The two are all that can go wrong.
-/
namespace UgcDestroyGuard
open SlotPools StepRuns UgcAllocator UgcHandleStore UgcStorePool UgcHandleAddresses UgcHandleManager
variable {w : Nat}

/-- The calls that create or destroy handles. -/
def Churns (image : Image w) (op : ManagerOp w) : Prop :=
  (∃ record, op.record image = some record) ∨ ∃ hndl, op.destroyed = some hndl

def churn (image : Image w) (s : Store w) (op : ManagerOp w) : Store w :=
  ((managerStep image s op).map Prod.snd).getD s

def answer (image : Image w) (s : Store w) (op : ManagerOp w) : Option (Answer w) :=
  (managerStep image s op).map Prod.fst

/-- The second half of `ugc_store_consistent`, with no entry twice. -/
structure Consistent (s : Store w) : Prop where
  below : ∀ k < s.freeCount, s.freeStack k < s.count
  distinct : ∀ j k, j < s.freeCount → k < s.freeCount → s.freeStack j = s.freeStack k → j = k

/-- Only the handle of slot `i` is freed. -/
structure Frees (s t : Store w) (i : Nat) : Prop where
  live : s.Live i
  count : t.count = s.count
  others : ∀ j, t.Live j ↔ s.Live j ∧ j ≠ i
  frame : ∀ j, j ≠ i → t.slot j = s.slot j

/-- No create, made after any others, returns the handle of a live slot. -/
def NeverReissues (image : Image w) (s : Store w) : Prop :=
  ∀ (ops : List (ManagerOp w)) (op : ManagerOp w) (h : Word w) (i : Nat),
    (∀ e ∈ ops, ∃ record, e.record image = some record) →
    (∃ record, op.record image = some record) →
    answer image (run (churn image) s ops) op = some (.handle h) →
    (run (churn image) s ops).Live i → h ≠ slotAddress image.toLayout i

/-- What a destroy of a pointer must leave. -/
structure DestroySafe (image : Image w) (s : Store w) (hndl : Word w) : Prop where
  consistent : Consistent (uDestroyHandle image s hndl)
  only_live : uDestroyHandle image s hndl = s ∨
    ∃ i < ugcHandleCount, hndl = slotAddress image.toLayout i ∧
      Frees s (uDestroyHandle image s hndl) i
  apart : NeverReissues image (uDestroyHandle image s hndl)

/-- The pointer lies outside the array, in a slot already free, or at the start of a slot
    handed out before. -/
def Guarded (image : Image w) (s : Store w) (hndl : Word w) : Prop :=
  ugcHandleStoreContains image.toLayout hndl = true →
    (ugcHandleIndex image.toLayout hndl).toNat < s.count ∧
      (s.types (ugcHandleIndex image.toLayout hndl).toNat < 0 ∨
        hndl = slotAddress image.toLayout (ugcHandleIndex image.toLayout hndl).toNat)

/-- What creates of any type and guarded destroys keep. -/
structure Loose (s : Store w) : Prop where
  follows : ∃ p, Follows p s
  unused : ∀ i, s.count ≤ i → i < ugcHandleCount → s.types i = 0

theorem fresh_loose {s : Store w} (fresh : s.Fresh) : Loose s := by
  refine ⟨⟨_, (fresh_tracks fresh).toFollows⟩, ?_⟩
  rcases fresh with rfl | ⟨before, rfl⟩
  · exact fun _ _ _ => rfl
  · exact fun _ _ inside => reset_types inside

theorem loose_consistent {s : Store w} (loose : Loose s) : Consistent s := by
  obtain ⟨p, follows⟩ := loose.follows
  constructor
  · intro k below
    rw [follows.count]
    apply p.free_lt
    rw [← follows.stack]
    exact mem_stacked.mpr ⟨k, below, rfl⟩
  · exact nodup_stacked.mp (follows.stack ▸ p.free_nodup)

theorem create_loose {s : Store w} (loose : Loose s) (record : Record w) :
    Loose (createSlot s record).2 := by
  obtain ⟨p, follows⟩ := loose.follows
  refine ⟨⟨_, (create_follows follows record).2⟩, fun j above bound => ?_⟩
  cases got : (createSlot s record).1 with
  | none =>
    rw [create_slot_none got] at above ⊢
    exact loose.unused j above bound
  | some i =>
    have inside := create_inside follows got
    obtain ⟨-, other, counted⟩ := create_slot_frame got
    rw [types_of_slot (other j (by omega))]
    exact loose.unused j (by omega) bound

theorem destroy_frees {s : Store w} (loose : Loose s) {i : Nat} (live : s.Live i) :
    Frees s (ugcHandleDestroyAt s i) i ∧ Loose (ugcHandleDestroyAt s i) := by
  obtain ⟨p, follows⟩ := loose.follows
  have after := destroy_follows follows live
  obtain ⟨count, own, other⟩ :=
    destroy_at_frame live.2 (follows.room (follows.held_of_live live))
  refine ⟨⟨live, count, fun j => ?_, other⟩, ⟨⟨_, after⟩, fun j above bound => ?_⟩⟩
  · by_cases same : j = i
    · subst same
      have tag : (ugcHandleDestroyAt s j).types j = ugcHandleTypeFree := congrArg Record.type own
      refine iff_of_false (fun still => ?_) (fun both => both.2 rfl)
      exact absurd (tag ▸ still.2) (by decide)
    · simp only [Store.Live, count, types_of_slot (other j same), ne_eq, same, not_false_eq_true,
        and_true]
  · have apart : j ≠ i := fun same => absurd live.1 (Nat.not_lt.mpr (same ▸ count ▸ above))
    rw [types_of_slot (other j apart)]
    exact loose.unused j (count ▸ above) bound

theorem churn_create {image : Image w} {op : ManagerOp w} {record : Record w}
    (creates : op.record image = some record) (s : Store w) :
    churn image s op = (createSlot s record).2 := by
  rw [churn, manager_create creates]
  rfl

theorem churn_destroy {op : ManagerOp w} {hndl : Word w} (destroys : op.destroyed = some hndl)
    (image : Image w) (s : Store w) : churn image s op = uDestroyHandle image s hndl := by
  rw [churn, manager_destroy destroys]
  rfl

theorem loose_never_reissues {image : Image w} {s : Store w} (loose : Loose s) :
    NeverReissues image s := by
  intro ops op h i creates last answered live
  have kept : Loose (run (churn image) s ops) := by
    refine invariant_run Loose (fun s e loose => ?_) loose (admitted_of_forall creates s)
    rintro ⟨record, made⟩
    rw [churn_create made]
    exact create_loose loose record
  obtain ⟨p, follows⟩ := kept.follows
  obtain ⟨record, made⟩ := last
  have used := follows.held_of_live live
  have given := (create_follows follows record).1
  rw [answer, manager_create made, given] at answered
  obtain rfl : handleOf image p.acquire.1 = h := by simpa using answered
  cases got : p.acquire.1 with
  | none => exact (slot_address_ne_null image (Pool.held_lt used)).symm
  | some j =>
    obtain ⟨fresh, held⟩ := Pool.acquire_some got
    have member : j ∈ p.acquire.2.held := held ▸ Finset.mem_insert_self j p.held
    intro same
    have equal := slot_address_inj (Pool.held_lt member) (Pool.held_lt used) same
    exact fresh (equal ▸ used)

theorem guarded_destroy {image : Image w} {s : Store w} (loose : Loose s) {hndl : Word w}
    (guarded : Guarded image s hndl) :
    Loose (uDestroyHandle image s hndl) ∧ (uDestroyHandle image s hndl = s ∨
      ∃ i < ugcHandleCount, hndl = slotAddress image.toLayout i ∧
        Frees s (uDestroyHandle image s hndl) i) := by
  by_cases contains : ugcHandleStoreContains image.toLayout hndl = true
  · obtain ⟨inside, place⟩ := guarded contains
    rw [destroy_of_contains contains]
    by_cases tag : s.types (ugcHandleIndex image.toLayout hndl).toNat < 0
    · rw [destroy_at_free tag]
      exact ⟨loose, Or.inl rfl⟩
    · obtain ⟨frees, after⟩ := destroy_frees loose ⟨inside, Int.not_lt.mp tag⟩
      exact ⟨after, Or.inr ⟨_, index_lt contains, place.resolve_left tag, frees⟩⟩
  · rw [destroy_of_not_contains contains]
    exact ⟨loose, Or.inl rfl⟩

theorem churn_loose (image : Image w) (s : Store w) (op : ManagerOp w) (loose : Loose s)
    (both : Churns image op ∧ ∀ hndl, op.destroyed = some hndl → Guarded image s hndl) :
    Loose (churn image s op) := by
  obtain ⟨⟨record, creates⟩ | ⟨hndl, destroys⟩, guarded⟩ := both
  · rw [churn_create creates]
    exact create_loose loose record
  · rw [churn_destroy destroys]
    exact (guarded_destroy loose (guarded hndl destroys)).1

/-- Destroying a slot never handed out pushes an index that is not below the count. -/
theorem unguarded_index {image : Image w} {s : Store w} (loose : Loose s) {hndl : Word w}
    (contains : ugcHandleStoreContains image.toLayout hndl = true)
    (consistent : Consistent (uDestroyHandle image s hndl)) :
    (ugcHandleIndex image.toLayout hndl).toNat < s.count := by
  by_contra above
  obtain ⟨p, follows⟩ := loose.follows
  have bound := index_lt contains
  have tag := loose.unused _ (Nat.not_lt.mp above) bound
  have length := follows.freeCount
  have free := p.free_length_le
  have count := follows.count
  have opened := destroy_at_effective (s := s) (Int.le_of_eq tag.symm) (by omega)
  rw [destroy_of_contains contains, opened] at consistent
  have pushed := consistent.below s.freeCount (Nat.lt_succ_self s.freeCount)
  simp only [Function.update_self] at pushed
  exact above pushed

theorem destroy_safe_iff {image : Image w} {s : Store w} (loose : Loose s) (hndl : Word w) :
    DestroySafe image s hndl ↔ Guarded image s hndl := by
  constructor
  · intro safe contains
    have inside := unguarded_index loose contains safe.consistent
    refine ⟨inside, or_iff_not_imp_left.mpr fun live => ?_⟩
    rcases safe.only_live with same | ⟨i, bound, address, -⟩
    · obtain ⟨p, follows⟩ := loose.follows
      have room := follows.room (follows.held_of_live ⟨inside, Int.not_lt.mp live⟩)
      rw [destroy_of_contains contains, destroy_at_effective (Int.not_lt.mp live) room] at same
      have grown := congrArg Store.freeCount same
      simp at grown
    · rw [address, index_slot image.toLayout bound]
  · intro guarded
    obtain ⟨after, effect⟩ := guarded_destroy loose guarded
    exact ⟨loose_consistent after, effect, loose_never_reissues after⟩

/-- In every run of creates and destroys of any pointers, all destroys are safe if and
    only if all are guarded. -/
theorem destroys_safe_iff (image : Image w) {s : Store w} (fresh : s.Fresh)
    (ops : List (ManagerOp w)) (churns : ∀ op ∈ ops, Churns image op) :
    Admitted (churn image) (fun s op => ∀ hndl, op.destroyed = some hndl →
        DestroySafe image s hndl) s ops ↔
      Admitted (churn image) (fun s op => ∀ hndl, op.destroyed = some hndl →
        Guarded image s hndl) s ops := by
  have allowed : Admitted (churn image) (fun _ op => Churns image op) s ops :=
    admitted_of_forall churns s
  have same : Admitted (churn image) (fun s op => Churns image op ∧
        ∀ hndl, op.destroyed = some hndl → DestroySafe image s hndl) s ops ↔
      Admitted (churn image) (fun s op => Churns image op ∧
        ∀ hndl, op.destroyed = some hndl → Guarded image s hndl) s ops := by
    apply admitted_congr Loose _ (churn_loose image) (fresh_loose fresh)
    intro s op loose
    exact and_congr_right fun _ => forall_congr' fun hndl =>
      imp_congr_right fun _ => destroy_safe_iff loose hndl
  constructor
  · intro safe
    exact admitted_mono (fun _ _ both => both.2) (same.mp (admitted_and allowed safe))
  · intro guarded
    exact admitted_mono (fun _ _ both => both.2) (same.mpr (admitted_and allowed guarded))

/-- Destroying the first slot of an empty store makes two creates return one handle. -/
theorem unguarded_destroy_aliases :
    answer image64 (run (churn image64) initial [.destroyHandleOfUnknownType 4096#64])
        (.createHandleOfType 7#64 1) = some (.handle 4096#64) ∧
      answer image64 (run (churn image64) initial [.destroyHandleOfUnknownType 4096#64,
        .createHandleOfType 7#64 1]) (.createHandleOfType 8#64 1) = some (.handle 4096#64) ∧
      ¬ DestroySafe image64 initial 4096#64 := by
  refine ⟨by decide +kernel, by decide +kernel, fun safe => ?_⟩
  have pushed := safe.consistent.below 0 (by decide +kernel)
  exact absurd pushed (by decide +kernel)

theorem destroys_safe_sample :
    Admitted (churn image64) (fun s op => ∀ hndl, op.destroyed = some hndl →
      DestroySafe image64 s hndl) initial
      [.createHandleOfType 7#64 1, .destroyHandleOfType 4096#64 1, .destroyHandleOfType 4096#64 1,
        .destroyHandleOfUnknownType 8#64] := by
  refine (destroys_safe_iff image64 (Or.inl rfl) _ ?_).mpr ?_
  · intro op member
    simp only [List.mem_cons, List.not_mem_nil, or_false] at member
    rcases member with rfl | rfl | rfl | rfl
    · exact Or.inl ⟨_, rfl⟩
    · exact Or.inr ⟨_, rfl⟩
    · exact Or.inr ⟨_, rfl⟩
    · exact Or.inr ⟨_, rfl⟩
  · refine ⟨fun _ other => (by cases other), ?_, ?_, ?_, trivial⟩ <;> rintro _ ⟨rfl⟩
    · exact fun _ => by decide +kernel
    · exact fun _ => by decide +kernel
    · exact fun contains => absurd contains (by decide +kernel)

end UgcDestroyGuard
