import Ugc.StorePool

/-!
Runs that meet the published preconditions of the handle store and no more.
A client may set any type on any slot and duplicate a handle whose slot has been
freed, as `SetExtraInfoForHandle` and `CreateDuplicateHandle` do with a stale
handle. Either can take a type tag out of step with the free stack, after which
two creates may return one slot; the runs that keep every tag in step are exactly
those in which this does not happen.
-/
namespace UgcStaleHandles
open SlotPools StepRuns UgcAllocator UgcHandleStore UgcStorePool
variable {w : Nat}

/-- A call of the store, or `CreateDuplicateHandle` of the handle of a slot. -/
inductive ClientOp (w : Nat) where
  | call (op : StoreOp w)
  | duplicate (idx : Nat)

/-- A duplicate is a create with the object and the type found in the slot. -/
def ClientOp.lower (s : Store w) : ClientOp w → StoreOp w
  | .call op => op
  | .duplicate idx => .create (s.handles idx) (ugcHandleGetTypeAt s idx)

def clientStep (s : Store w) (e : ClientOp w) : Store w := step s (e.lower s)

def handedOut (s : Store w) (e : ClientOp w) : Option Nat := created s (e.lower s)

/-- The preconditions in the contracts of the exported functions. -/
def Published (s : Store w) : ClientOp w → Prop
  | .call (.create _ type) => 0 ≤ type
  | .call (.createWithExtra _ type _) => 0 ≤ type
  | .call (.createDependent _ _ type) => 0 ≤ type
  | .call (.destroyAt idx) => idx < s.count
  | .call (.setTypeAt idx _) => idx < ugcHandleCount
  | .call (.setExtraAt idx _) => idx < ugcHandleCount
  | .call (.setDependentAt idx _) => idx < ugcHandleCount
  | .call (.slotStore slot _) => slot.idx < ugcHandleCount
  | .call (.slotStoreIfNull slot _) => slot.idx < ugcHandleCount
  | .call (.slotCas slot _ _) => slot.idx < ugcHandleCount
  | .call .reset => True
  | .duplicate idx => idx < ugcHandleCount

/-- What the published preconditions leave out: a type set on a slot has the sign of
    the one it replaces, and a slot that is duplicated is not tagged as free. -/
def KeepsSign (s : Store w) : ClientOp w → Prop
  | .call (.setTypeAt idx type) => type < 0 ↔ s.types idx < 0
  | .duplicate idx => 0 ≤ s.types idx
  | _ => True

instance (s : Store w) : (e : ClientOp w) → Decidable (Published s e)
  | .call (.create _ type) => inferInstanceAs (Decidable (0 ≤ type))
  | .call (.createWithExtra _ type _) => inferInstanceAs (Decidable (0 ≤ type))
  | .call (.createDependent _ _ type) => inferInstanceAs (Decidable (0 ≤ type))
  | .call (.destroyAt idx) => inferInstanceAs (Decidable (idx < s.count))
  | .call (.setTypeAt idx _) => inferInstanceAs (Decidable (idx < ugcHandleCount))
  | .call (.setExtraAt idx _) => inferInstanceAs (Decidable (idx < ugcHandleCount))
  | .call (.setDependentAt idx _) => inferInstanceAs (Decidable (idx < ugcHandleCount))
  | .call (.slotStore slot _) => inferInstanceAs (Decidable (slot.idx < ugcHandleCount))
  | .call (.slotStoreIfNull slot _) => inferInstanceAs (Decidable (slot.idx < ugcHandleCount))
  | .call (.slotCas slot _ _) => inferInstanceAs (Decidable (slot.idx < ugcHandleCount))
  | .call .reset => isTrue trivial
  | .duplicate idx => inferInstanceAs (Decidable (idx < ugcHandleCount))

instance (s : Store w) : (e : ClientOp w) → Decidable (KeepsSign s e)
  | .call (.setTypeAt idx type) => inferInstanceAs (Decidable (type < 0 ↔ s.types idx < 0))
  | .duplicate idx => inferInstanceAs (Decidable (0 ≤ s.types idx))
  | .call (.create _ _) => isTrue trivial
  | .call (.createWithExtra _ _ _) => isTrue trivial
  | .call (.createDependent _ _ _) => isTrue trivial
  | .call (.destroyAt _) => isTrue trivial
  | .call (.setExtraAt _ _) => isTrue trivial
  | .call (.setDependentAt _ _) => isTrue trivial
  | .call (.slotStore _ _) => isTrue trivial
  | .call (.slotStoreIfNull _ _) => isTrue trivial
  | .call (.slotCas _ _ _) => isTrue trivial
  | .call .reset => isTrue trivial

def OnStack (s : Store w) (i : Nat) : Prop := ∃ k < s.freeCount, s.freeStack k = i

/-- Exactly the slots on the free stack carry a negative type, and none is on it twice. -/
structure TagsExact (s : Store w) : Prop where
  tagged_iff : ∀ i < ugcHandleCount, s.types i < 0 ↔ OnStack s i
  distinct : ∀ j k, j < s.freeCount → k < s.freeCount → s.freeStack j = s.freeStack k → j = k

/-- An effective destroy of the slot, or a reset of the whole store. -/
def Releases (s : Store w) (e : ClientOp w) (i : Nat) : Prop :=
  e = .call .reset ∨
    (e = .call (.destroyAt i) ∧ 0 ≤ s.types i ∧ s.freeCount ≠ ugcHandleCount)

/-- Between two creates that return one slot there is a release of it. -/
def NoAlias (s : Store w) (events : List (ClientOp w)) : Prop :=
  ∀ before e middle f after i, events = before ++ e :: (middle ++ f :: after) →
    handedOut (run clientStep s before) e = some i →
    handedOut (run clientStep s (before ++ e :: middle)) f = some i →
    ∃ front g back, middle = front ++ g :: back ∧
      Releases (run clientStep s (before ++ e :: front)) g i

/-- What the comment on `UGC_HANDLE_TYPE_FREE` promises of a run. -/
structure Unaliased (s : Store w) (events : List (ClientOp w)) : Prop where
  tags : ∀ before after, events = before ++ after → TagsExact (run clientStep s before)
  apart : NoAlias s events

theorem on_stack_iff {p : Pool ugcHandleCount} {s : Store w} (follows : Follows p s) (i : Nat) :
    OnStack s i ↔ i ∈ p.free := by
  rw [← follows.stack, mem_stacked]
  exact Iff.rfl

theorem tracks_exact {p : Pool ugcHandleCount} {s : Store w} (tracks : Tracks p s) :
    TagsExact s := by
  constructor
  · intro i inside
    rw [on_stack_iff tracks.toFollows]
    exact ⟨tracks.tagged i inside, tracks.freed i⟩
  · exact nodup_stacked.mp (tracks.stack ▸ p.free_nodup)

theorem published_keeps (s : Store w) (e : ClientOp w) (published : Published s e)
    (sign : KeepsSign s e) : KeepsTags s (e.lower s) := by
  cases e with
  | duplicate idx => exact sign
  | call op =>
    cases op with
    | create | createWithExtra | createDependent | destroyAt => exact published
    | setTypeAt => exact sign
    | setExtraAt | setDependentAt | slotStore | slotStoreIfNull | slotCas | reset => trivial

theorem client_tracks (p : Pool ugcHandleCount) (s : Store w) (e : ClientOp w)
    (tracks : Tracks p s) (permitted : Published s e ∧ KeepsSign s e) :
    Tracks (poolStep p (e.lower s)) (clientStep s e) :=
  step_tracks p s (e.lower s) tracks (published_keeps s e permitted.1 permitted.2)

theorem client_tracked (s : Store w) (e : ClientOp w) (tracked : Tracked s)
    (permitted : Published s e ∧ KeepsSign s e) : Tracked (clientStep s e) :=
  step_tracked s (e.lower s) tracked (published_keeps s e permitted.1 permitted.2)

/-- A duplicate of a freed slot is created with a negative type, off the stack. -/
theorem duplicate_exposed {p : Pool ugcHandleCount} {s : Store w} (tracks : Tracks p s) {idx : Nat}
    (inside : idx < ugcHandleCount) (tags : TagsExact (clientStep s (.duplicate idx))) :
    0 ≤ s.types idx := by
  by_contra negative
  have stacked := tracks.tagged idx inside (Int.not_le.mp negative)
  obtain ⟨given, after⟩ := create_follows tracks.toFollows
    (⟨s.handles idx, s.types idx, 0#w, 0#w⟩ : Record w)
  cases got : p.acquire.1 with
  | none =>
    obtain ⟨i, top, -⟩ | ⟨-, free, -⟩ | ⟨-, free, -⟩ := p.acquire_cases
    · simp [top] at got
    · simp [free] at stacked
    · simp [free] at stacked
  | some i =>
    have held := (Pool.acquire_some got).2
    have member : i ∈ p.acquire.2.held := held ▸ Finset.mem_insert_self i p.held
    have slot := create_slot_some (given.trans got)
    have tag : (createSlot s ⟨s.handles idx, s.types idx, 0#w, 0#w⟩).2.types i < 0 := by
      rw [slot, types_set_slot, Function.update_self]
      exact Int.not_le.mp negative
    have free := (on_stack_iff after i).mp ((tags.tagged_iff i (Pool.held_lt member)).mp tag)
    exact (Pool.mem_held.mp member).2 free

theorem exact_step_iff {s : Store w} {e : ClientOp w} (tracked : Tracked s)
    (published : Published s e) : TagsExact (clientStep s e) ↔ KeepsSign s e := by
  obtain ⟨p, tracks⟩ := tracked
  constructor
  · intro tags
    cases e with
    | duplicate idx => exact duplicate_exposed tracks published tags
    | call op =>
      cases op with
      | setTypeAt idx type =>
        have same : (clientStep s (.call (.setTypeAt idx type))).types idx = type := by
          simp [clientStep, ClientOp.lower, step, exec, ugcHandleSetTypeAt]
        have after := tags.tagged_iff idx published
        rw [same] at after
        exact after.trans ((tracks_exact tracks).tagged_iff idx published).symm
      | create | createWithExtra | createDependent | destroyAt | setExtraAt | setDependentAt
      | slotStore | slotStoreIfNull | slotCas | reset => trivial
  · intro sign
    exact tracks_exact (client_tracks p s e tracks ⟨published, sign⟩)

theorem exact_run_iff {events : List (ClientOp w)}
    (published : Admitted clientStep Published initial events) :
    (∀ before after, events = before ++ after → TagsExact (run clientStep initial before)) ↔
      Admitted clientStep KeepsSign initial events := by
  have same : Admitted clientStep (fun s e => Published s e ∧ TagsExact (clientStep s e))
      initial events ↔
      Admitted clientStep (fun s e => Published s e ∧ KeepsSign s e) initial events :=
    admitted_congr Tracked
      (fun s e tracked => and_congr_right fun published => exact_step_iff tracked published)
      client_tracked initial_tracked events
  constructor
  · intro tags
    have each : Admitted clientStep (fun s e => TagsExact (clientStep s e)) initial events := by
      refine (admitted_iff_each _ _ _ _).mpr fun before e after split => ?_
      have reached := tags (before ++ [e]) after (by simp [split])
      rwa [run_snoc] at reached
    exact admitted_mono (fun _ _ both => both.2) (same.mp (admitted_and published each))
  · rintro sign before after rfl
    have permitted := admitted_and ((admitted_append _ _ _ _ _).mp published).1
      ((admitted_append _ _ _ _ _).mp sign).1
    obtain ⟨p, tracks⟩ := invariant_run Tracked client_tracked initial_tracked permitted
    exact tracks_exact tracks

/-- A slot in use stays in use until it is released. -/
theorem step_held {p : Pool ugcHandleCount} {s : Store w} {e : ClientOp w} {i : Nat}
    (tracks : Tracks p s) (member : i ∈ p.held) (kept : ¬ Releases s e i) :
    i ∈ (poolStep p (e.lower s)).held := by
  have grown : i ∈ p.acquire.2.held := by
    cases got : p.acquire.1 with
    | none => rwa [Pool.acquire_none got]
    | some j => exact (Pool.acquire_some got).2 ▸ Finset.mem_insert_of_mem member
  cases e with
  | duplicate idx => exact grown
  | call op =>
    cases op with
    | create | createWithExtra | createDependent => exact grown
    | destroyAt idx =>
      change i ∈ (p.release idx).held
      by_cases same : idx = i
      · subst same
        exact absurd (Or.inr ⟨rfl, (tracks.held_iff.mp member).2, tracks.room member⟩) kept
      · by_cases other : idx ∈ p.held
        · rw [(Pool.release_held other).2.2]
          exact Finset.mem_erase.mpr ⟨Ne.symm same, member⟩
        · rwa [Pool.release_of_not_held other]
    | reset => exact absurd (Or.inl rfl) kept
    | setTypeAt | setExtraAt | setDependentAt | slotStore | slotStoreIfNull | slotCas =>
      exact member

theorem lower_record {s : Store w} {e : ClientOp w} {i : Nat} (given : handedOut s e = some i) :
    ∃ record, (e.lower s).record = some record := by
  cases creates : (e.lower s).record with
  | none => rw [handedOut, created_none creates] at given; cases given
  | some record => exact ⟨record, rfl⟩

theorem handed_out_fresh {p : Pool ugcHandleCount} {s : Store w} {e : ClientOp w} {i : Nat}
    (tracks : Tracks p s) (given : handedOut s e = some i) :
    i ∉ p.held ∧ i ∈ (poolStep p (e.lower s)).held := by
  obtain ⟨record, creates⟩ := lower_record given
  obtain ⟨fresh, held⟩ :=
    Pool.acquire_some ((created_acquires tracks.toFollows creates).symm.trans given)
  have pool : poolStep p (e.lower s) = p.acquire.2 := by
    cases same : e.lower s <;> first | rfl | simp [same, StoreOp.record] at creates
  exact ⟨fresh, by rw [pool, held]; exact Finset.mem_insert_self i p.held⟩

theorem no_alias {events : List (ClientOp w)} (permitted : Admitted clientStep
    (fun s e => Published s e ∧ KeepsSign s e) initial events) : NoAlias initial events := by
  rintro before e middle f after i rfl first second
  by_contra unreleased
  obtain ⟨early, here, late⟩ := (admitted_append _ _ _ _ _).mp permitted
  obtain ⟨p, tracks⟩ := invariant_run Tracked client_tracked initial_tracked early
  have start : ∃ q, Tracks q (clientStep (run clientStep initial before) e) ∧ i ∈ q.held :=
    ⟨_, client_tracks p _ e tracks here, (handed_out_fresh tracks first).2⟩
  have calm : Admitted clientStep (fun s g => ¬ Releases s g i)
      (clientStep (run clientStep initial before) e) middle := by
    refine (admitted_iff_each _ _ _ _).mpr fun front g back split released => ?_
    refine unreleased ⟨front, g, back, split, ?_⟩
    rwa [run_append]
  obtain ⟨q, tracked, held⟩ := invariant_run
    (fun s : Store w => ∃ q, Tracks q s ∧ i ∈ q.held)
    (fun s g ⟨q, tracked, member⟩ ⟨permitted, kept⟩ =>
      ⟨_, client_tracks q s g tracked permitted, step_held tracked member kept⟩)
    start (admitted_and ((admitted_append _ _ _ _ _).mp late).1 calm)
  rw [run_append] at second
  exact (handed_out_fresh tracked second).1 held

/-- The runs within the published preconditions that keep the promise are those that
    never change the sign of a slot's tag and never duplicate a freed slot. -/
theorem unaliased_iff (events : List (ClientOp w))
    (published : Admitted clientStep Published initial events) :
    Unaliased initial events ↔ Admitted clientStep KeepsSign initial events := by
  constructor
  · intro unaliased
    exact (exact_run_iff published).mp unaliased.tags
  · intro sign
    exact ⟨(exact_run_iff published).mpr sign, no_alias (admitted_and published sign)⟩

/-- A handle destroyed, given a type and destroyed again: the next two creates return it. -/
def aliasing : List (ClientOp 64) :=
  [.call (.create 7#64 1), .call (.destroyAt 0), .call (.setTypeAt 0 5),
    .call (.setExtraAt 0 9#64), .call (.destroyAt 0), .call (.create 8#64 1),
    .call (.create 9#64 1)]

theorem aliasing_not_unaliased :
    Admitted clientStep Published initial aliasing ∧
      handedOut (run clientStep initial (aliasing.take 5)) (.call (.create 8#64 1)) = some 0 ∧
      handedOut (run clientStep initial (aliasing.take 6)) (.call (.create 9#64 1)) = some 0 ∧
      ¬ Unaliased initial aliasing := by
  have first : handedOut (run clientStep initial (aliasing.take 5)) (.call (.create 8#64 1)) =
      some 0 := by decide +kernel
  have second : handedOut (run clientStep initial (aliasing.take 6)) (.call (.create 9#64 1)) =
      some 0 := by decide +kernel
  refine ⟨by decide +kernel, first, second, fun unaliased => ?_⟩
  obtain ⟨front, g, back, split, -⟩ := unaliased.apart (aliasing.take 5)
    (.call (.create 8#64 1)) [] (.call (.create 9#64 1)) [] 0 rfl first second
  exact List.append_ne_nil_of_right_ne_nil front (List.cons_ne_nil g back) split.symm

/-- A live handle may change its type and be duplicated, and be destroyed twice. -/
theorem unaliased_sample :
    Unaliased (initial : Store 64) [.call (.create 7#64 1), .call (.setTypeAt 0 3), .duplicate 0,
      .call (.destroyAt 0), .call (.destroyAt 0), .call (.create 8#64 2)] :=
  (unaliased_iff [.call (.create 7#64 1), .call (.setTypeAt 0 3), .duplicate 0,
    .call (.destroyAt 0), .call (.destroyAt 0), .call (.create 8#64 2)] (by decide +kernel)).mpr
    (by decide +kernel)

end UgcStaleHandles
