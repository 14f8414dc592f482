import Ugc.HandleMap
import Ugc.StorePool

/-!
The handle manager refines the bounded map. The map holds, under the address of
every live slot, what the arrays hold at its index; a handle destroyed and not
handed out again is the address of a freed slot. Every call a client may make is
defined, answers as the map allows, and keeps the two in step.
-/
namespace UgcManagerRefinement
open SlotPools BoundedMaps StepRuns UgcAllocator UgcHandleStore UgcStorePool UgcHandleAddresses
open UgcHandleManager UgcHandleMap
variable {w : Nat}

structure Represents (image : Image w) (s : Store w) (m : HandleMap w) : Prop where
  tracked : Tracked s
  lookup : ∀ h record, m.map.lookup h = some record ↔
    ∃ i, s.Live i ∧ h = slotAddress image.toLayout i ∧ record = s.slot i
  retired : ∀ h ∈ m.retired, ∃ i, i < s.count ∧ s.types i < 0 ∧
    h = slotAddress image.toLayout i

theorem live_lt {s : Store w} (tracked : Tracked s) {i : Nat} (live : s.Live i) :
    i < ugcHandleCount := by
  obtain ⟨p, tracks⟩ := tracked
  exact Pool.held_lt (tracks.held_iff.mpr live)

theorem Represents.live_slot {image : Image w} {s : Store w} {m : HandleMap w}
    (rep : Represents image s m) {h : Word w} (live : m.Live h) :
    ∃ i < ugcHandleCount, s.Live i ∧ h = slotAddress image.toLayout i ∧
      m.map.lookup h = some (s.slot i) := by
  obtain ⟨record, found⟩ := live
  obtain ⟨i, used, address, rfl⟩ := (rep.lookup h record).mp found
  exact ⟨i, live_lt rep.tracked used, used, address, found⟩

theorem fresh_represents (image : Image w) {s : Store w} (fresh : s.Fresh) :
    Represents image s HandleMap.empty := by
  have tracks := fresh_tracks fresh
  refine ⟨⟨_, tracks⟩, fun h record => ?_, fun h member => absurd member (Set.notMem_empty h)⟩
  constructor
  · intro found
    cases found
  · rintro ⟨i, live, -⟩
    have member := tracks.held_iff.mpr live
    rw [Pool.held_empty] at member
    exact absurd member (Finset.notMem_empty i)

theorem represents_size {image : Image w} {s : Store w} {m : HandleMap w}
    (rep : Represents image s m) {p : Pool ugcHandleCount} (tracks : Tracks p s) :
    m.map.size = p.held.card := by
  have keys : m.map.entries.keys = p.held.image (slotAddress image.toLayout) := by
    ext h
    rw [BoundedMap.mem_keys, Finset.mem_image]
    constructor
    · rintro ⟨record, found⟩
      obtain ⟨i, live, address, -⟩ := (rep.lookup h record).mp found
      exact ⟨i, tracks.held_iff.mpr live, address.symm⟩
    · rintro ⟨i, member, address⟩
      exact ⟨s.slot i, (rep.lookup h _).mpr ⟨i, tracks.held_iff.mp member, address.symm, rfl⟩⟩
  rw [BoundedMap.size, keys]
  apply Finset.card_image_of_injOn
  intro i hi j hj same
  exact slot_address_inj (Pool.held_lt hi) (Pool.held_lt hj) same

/-- A step that works on one slot keeps the lookups if it does so on that slot. -/
theorem lookup_update {image : Image w} {s t : Store w} {m m' : HandleMap w} {i : Nat}
    (before : ∀ h record, m.map.lookup h = some record ↔
      ∃ j, s.Live j ∧ h = slotAddress image.toLayout j ∧ record = s.slot j)
    (inside : i < ugcHandleCount) (bound : ∀ j, t.Live j → j < ugcHandleCount)
    (other : ∀ j, j ≠ i → t.slot j = s.slot j ∧ (t.Live j ↔ s.Live j))
    (here : ∀ record, m'.map.lookup (slotAddress image.toLayout i) = some record ↔
      t.Live i ∧ record = t.slot i)
    (there : ∀ h, h ≠ slotAddress image.toLayout i → m'.map.lookup h = m.map.lookup h)
    (h : Word w) (record : Record w) : m'.map.lookup h = some record ↔
      ∃ j, t.Live j ∧ h = slotAddress image.toLayout j ∧ record = t.slot j := by
  by_cases same : h = slotAddress image.toLayout i
  · subst same
    rw [here]
    constructor
    · rintro ⟨live, found⟩
      exact ⟨i, live, rfl, found⟩
    · rintro ⟨j, live, address, found⟩
      obtain rfl := slot_address_inj inside (bound j live) address
      exact ⟨live, found⟩
  · rw [there h same, before]
    constructor
    · rintro ⟨j, live, rfl, rfl⟩
      have apart : j ≠ i := fun equal => same (equal ▸ rfl)
      exact ⟨j, (other j apart).2.mpr live, rfl, (other j apart).1.symm⟩
    · rintro ⟨j, live, rfl, rfl⟩
      have apart : j ≠ i := fun equal => same (equal ▸ rfl)
      exact ⟨j, (other j apart).2.mp live, rfl, (other j apart).1⟩

theorem represents_create {image : Image w} {s : Store w} {m : HandleMap w}
    (rep : Represents image s m) (record : Record w) (positive : 0 ≤ record.type) :
    ∃ m', Creates m record (.handle (handleOf image (createSlot s record).1)) m' ∧
      Represents image (createSlot s record).2 m' := by
  obtain ⟨p, tracks⟩ := rep.tracked
  have size := represents_size rep tracks
  have given := (create_follows tracks.toFollows record).1
  have after := create_tracks tracks positive
  cases got : p.acquire.1 with
  | none =>
    rw [create_slot_none (given.trans got), given, got]
    exact ⟨m, Or.inl ⟨size.trans (p.acquire_none_iff.mp got), rfl, rfl⟩, rep⟩
  | some i =>
    obtain ⟨fresh, held⟩ := Pool.acquire_some got
    have inside : i < ugcHandleCount :=
      Pool.held_lt (p := p.acquire.2) (held ▸ Finset.mem_insert_self i p.held)
    have room : m.map.size < ugcHandleCount := by
      have unfilled : p.held.card ≠ ugcHandleCount := by
        rw [Ne, ← p.acquire_none_iff, got]
        exact Option.some_ne_none i
      have count := p.card_held
      have bound := p.issued_le
      omega
    have live : ∀ j, (createSlot s record).2.Live j ↔ j = i ∨ s.Live j := by
      intro j
      rw [← after.held_iff, held, Finset.mem_insert, tracks.held_iff]
    obtain ⟨own, other, counted⟩ := create_slot_frame (given.trans got)
    have absent : m.map.lookup (slotAddress image.toLayout i) = none := by
      refine Option.eq_none_iff_forall_ne_some.mpr fun found there => ?_
      obtain ⟨j, used, address, -⟩ := (rep.lookup _ _).mp there
      obtain rfl := slot_address_inj inside (live_lt rep.tracked used) address
      exact fresh (tracks.held_iff.mpr used)
    rw [given, got]
    refine ⟨_, Or.inr ⟨slotAddress image.toLayout i, room, slot_address_ne_null image inside,
      absent, rfl, rfl⟩, ⟨⟨_, after⟩, ?_, ?_⟩⟩
    · refine lookup_update rep.lookup inside (fun j => live_lt ⟨_, after⟩) (fun j apart => ?_)
        (fun found => ?_) fun h apart => ?_
      · exact ⟨other j apart, by simp [live, apart]⟩
      · simp [BoundedMap.lookup_add, live, own, eq_comm]
      · simp [BoundedMap.lookup_add, apart]
    · rintro h ⟨member, apart⟩
      obtain ⟨j, below, tag, rfl⟩ := rep.retired h member
      have distinct : j ≠ i := fun equal => apart (equal ▸ rfl)
      exact ⟨j, by omega, types_of_slot (other j distinct) ▸ tag, rfl⟩

theorem represents_destroy {image : Image w} {s : Store w} {m : HandleMap w}
    (rep : Represents image s m) {h : Word w} (known : m.Live h ∨ h ∈ m.retired) :
    Represents image (uDestroyHandle image s h) (m.destroy h) := by
  obtain ⟨p, tracks⟩ := rep.tracked
  by_cases live : m.Live h
  · rw [destroy_live live]
    obtain ⟨i, inside, used, rfl, -⟩ := rep.live_slot live
    have member := tracks.held_iff.mpr used
    have after := destroy_tracks tracks used.1
    have held := (Pool.release_held member).2.2
    obtain ⟨count, own, other⟩ := destroy_at_frame used.2 (tracks.room member)
    have still : ∀ j, (ugcHandleDestroyAt s i).Live j ↔ j ≠ i ∧ s.Live j := by
      intro j
      rw [← after.held_iff, held, Finset.mem_erase, tracks.held_iff]
    rw [destroy_slot image s inside]
    refine ⟨⟨_, after⟩, ?_, ?_⟩
    · refine lookup_update rep.lookup inside (fun j => live_lt ⟨_, after⟩) (fun j apart => ?_)
        (fun found => ?_) fun h apart => ?_
      · exact ⟨other j apart, by simp [still, apart]⟩
      · simp [BoundedMap.lookup_remove, still]
      · simp [BoundedMap.lookup_remove, apart]
    · rintro h (rfl | before)
      · have freed : (ugcHandleDestroyAt s i).types i = ugcHandleTypeFree :=
          congrArg Record.type own
        exact ⟨i, count ▸ used.1, freed ▸ (by decide), rfl⟩
      · obtain ⟨j, below, tag, rfl⟩ := rep.retired h before
        have apart : j ≠ i := fun equal => absurd used.2 (Int.not_le.mpr (equal ▸ tag))
        exact ⟨j, count ▸ below, types_of_slot (other j apart) ▸ tag, rfl⟩
  · rw [destroy_absent live]
    obtain ⟨i, below, tag, rfl⟩ := rep.retired h (known.resolve_left live)
    have bound := p.issued_le
    have counted := tracks.count
    rw [destroy_slot image s (by omega), destroy_at_free tag]
    exact rep

/-- The record of a live handle is changed in its slot. -/
theorem represents_modify {image : Image w} {s t : Store w} {m : HandleMap w}
    (rep : Represents image s m) {i : Nat} (live : s.Live i) {change : Record w → Record w}
    (tracked : Tracked t) (count : t.count = s.count)
    (own : t.slot i = change (s.slot i)) (positive : 0 ≤ (change (s.slot i)).type)
    (other : ∀ j, j ≠ i → t.slot j = s.slot j) :
    Represents image t (m.modify (slotAddress image.toLayout i) change) := by
  have inside := live_lt rep.tracked live
  have here := (rep.lookup _ _).mpr ⟨i, live, rfl, rfl⟩
  have typed : t.types i = (change (s.slot i)).type := congrArg Record.type own
  have now : t.Live i := ⟨count ▸ live.1, typed ▸ positive⟩
  refine ⟨tracked, ?_, ?_⟩
  · refine lookup_update rep.lookup inside (fun j => live_lt tracked) (fun j apart => ?_)
      (fun found => ?_) fun h apart => ?_
    · exact ⟨other j apart, by simp [Store.Live, count, types_of_slot (other j apart)]⟩
    · simp [HandleMap.modify, BoundedMap.lookup_modify, here, now, own, eq_comm]
    · simp [HandleMap.modify, BoundedMap.lookup_modify, apart]
  · rintro h member
    obtain ⟨j, below, tag, rfl⟩ := rep.retired h member
    have apart : j ≠ i := fun equal => absurd live.2 (Int.not_le.mpr (equal ▸ tag))
    exact ⟨j, count ▸ below, types_of_slot (other j apart) ▸ tag, rfl⟩

theorem quiet_matched {image : Image w} {s : Store w} {m : HandleMap w}
    (rep : Represents image s m) {i : Nat} (live : s.Live i) (op : StoreOp w) (quiet : op.Quiet)
    (touched : op.touched = some i) {change : Record w → Record w}
    (own : (step s op).slot i = change (s.slot i)) :
    Represents image (step s op) (m.modify (slotAddress image.toLayout i) change) := by
  obtain ⟨p, tracks⟩ := rep.tracked
  obtain ⟨count, -, -, types⟩ := quiet_frame quiet s
  refine represents_modify rep live ⟨p, quiet_tracks tracks op quiet⟩ count own ?_ fun j apart =>
    touched_other touched apart s
  have typed : ((step s op).slot i).type = s.types i := congrFun types i
  rw [← own, typed]
  exact live.2

theorem step_matched (image : Image w) (s : Store w) (m : HandleMap w) (op : ManagerOp w)
    (rep : Represents image s m) (admitted : Admits m op) :
    ∃ r s' m', managerStep image s op = some (r, s') ∧
      Specified image.hndtypeDependent m op r m' ∧ Represents image s' m' := by
  cases op with
  | createGlobalHandleOfType object type =>
    obtain ⟨m', created, after⟩ := represents_create rep ⟨object, type, 0#w, 0#w⟩ admitted
    exact ⟨_, _, m', rfl, created, after⟩
  | createHandleOfType object type =>
    obtain ⟨m', created, after⟩ := represents_create rep ⟨object, type, 0#w, 0#w⟩ admitted
    exact ⟨_, _, m', rfl, created, after⟩
  | createHandleWithExtraInfo object type extraInfo =>
    obtain ⟨m', created, after⟩ := represents_create rep ⟨object, type, extraInfo, 0#w⟩ admitted
    exact ⟨_, _, m', rfl, created, after⟩
  | createDependentHandle primary secondary =>
    obtain ⟨m', created, after⟩ := represents_create rep
      ⟨primary, image.hndtypeDependent, 0#w, secondary⟩ image.dependent_type
    exact ⟨_, _, m', rfl, created, after⟩
  | createDuplicateHandle handle =>
    by_cases null : handle = 0#w
    · subst null
      refine ⟨_, _, m, ?_, Or.inl ⟨rfl, rfl, rfl⟩, rep⟩
      simp [managerStep, createDuplicateHandle]
    · obtain ⟨i, inside, live, rfl, found⟩ := rep.live_slot (admitted.resolve_left null)
      obtain ⟨m', created, after⟩ := represents_create rep ⟨s.handles i, s.types i, 0#w, 0#w⟩ live.2
      refine ⟨_, _, m', ?_, Or.inr ⟨s.slot i, found, created⟩, after⟩
      rw [managerStep, duplicate_slot image s inside]
      rfl
  | destroyHandleOfType handle type =>
    exact ⟨_, _, _, rfl, ⟨rfl, rfl⟩, represents_destroy rep admitted⟩
  | destroyHandleOfUnknownType handle =>
    exact ⟨_, _, _, rfl, ⟨rfl, rfl⟩, represents_destroy rep admitted⟩
  | setExtraInfoForHandle handle type extraInfo =>
    obtain ⟨known, positive⟩ := admitted
    obtain ⟨i, inside, live, rfl, found⟩ := rep.live_slot known
    obtain ⟨p, tracks⟩ := rep.tracked
    have typed := set_type_tracks tracks i type
      (iff_of_false (Int.not_lt.mpr positive) (Int.not_lt.mpr live.2))
    refine ⟨_, _, _, ?_, ⟨s.slot i, found, rfl, rfl⟩,
      represents_modify rep live
        ⟨p, quiet_tracks typed (.setExtraAt i extraInfo) trivial⟩ rfl ?_ positive ?_⟩
    · rw [managerStep, set_extra_info_slot image s inside]
      rfl
    · simp [step, exec, ugcHandleSetExtraAt, ugcHandleSetTypeAt, Store.slot]
    · intro j apart
      simp [step, exec, ugcHandleSetExtraAt, ugcHandleSetTypeAt, Store.slot, apart]
  | getExtraInfoFromHandle handle =>
    obtain ⟨i, inside, live, rfl, found⟩ := rep.live_slot admitted
    refine ⟨_, s, m, ?_, ⟨s.slot i, found, rfl, rfl⟩, rep⟩
    rw [managerStep, get_extra_info_slot image s inside]
    rfl
  | storeObjectInHandle handle object =>
    obtain ⟨i, inside, live, rfl, found⟩ := rep.live_slot admitted
    refine ⟨_, _, _, ?_, ⟨s.slot i, found, rfl, rfl⟩,
      quiet_matched rep live (.slotStore (.handle i) object) trivial rfl ?_⟩
    · rw [managerStep, store_object_slot image s inside]
      rfl
    · exact slot_store_handle s object i
  | storeObjectInHandleIfNull handle object =>
    obtain ⟨i, inside, live, rfl, found⟩ := rep.live_slot admitted
    refine ⟨_, _, _, ?_, ⟨s.slot i, found, rfl, rfl⟩,
      quiet_matched rep live (.slotStoreIfNull (.handle i) object) trivial rfl ?_⟩
    · rw [managerStep, store_if_null_slot image s inside]
      by_cases null : s.handles i = 0#w <;>
        simp [step, exec, ugcHandleSlotStoreIfNull, Store.read, Store.slot, null]
    · by_cases null : s.handles i = 0#w
      · have stored := slot_store_handle s object i
        simpa [step, exec, ugcHandleSlotStoreIfNull, Store.read, storeIfNull, Store.slot, null]
          using stored
      · simp [step, exec, ugcHandleSlotStoreIfNull, Store.read, storeIfNull, Store.slot, null]
  | setDependentHandleSecondary handle object =>
    obtain ⟨i, inside, live, rfl, found⟩ := rep.live_slot admitted
    refine ⟨_, _, _, ?_, ⟨s.slot i, found, rfl, rfl⟩,
      quiet_matched rep live (.setDependentAt i object) trivial rfl ?_⟩
    · rw [managerStep, set_dependent_slot image s inside]
      rfl
    · simp [step, exec, ugcHandleSetDependentAt, Store.slot]
  | getDependentHandleSecondary handle =>
    obtain ⟨i, inside, live, rfl, found⟩ := rep.live_slot admitted
    refine ⟨_, s, m, ?_, ⟨s.slot i, found, rfl, rfl⟩, rep⟩
    rw [managerStep, get_dependent_slot image s inside]
    rfl
  | interlockedCompareExchangeObjectInHandle handle object oldObject =>
    obtain ⟨i, inside, live, rfl, found⟩ := rep.live_slot admitted
    have swapped : (step s (.slotCas (.handle i) object oldObject)).slot i =
        compareExchange object oldObject (s.slot i) := by
      by_cases equal : s.handles i = oldObject
      · have stored := slot_store_handle s object i
        simpa [step, exec, ugcHandleSlotCas, Store.read, compareExchange, Store.slot, equal]
          using stored
      · simp [step, exec, ugcHandleSlotCas, Store.read, compareExchange, Store.slot, equal]
    have answered : (ugcHandleSlotCas s (.handle i) object oldObject).1 =
        (compareExchange object oldObject (s.slot i)).object :=
      (slot_cas_answer s (.handle i) object oldObject).trans (congrArg Record.object swapped)
    refine ⟨_, _, _, ?_, ⟨s.slot i, found, rfl, rfl⟩,
      quiet_matched rep live (.slotCas (.handle i) object oldObject) trivial rfl swapped⟩
    rw [managerStep, compare_exchange_slot image s inside, Option.map_some,
      answered]
    rfl
  | handleFetchType handle =>
    obtain ⟨i, inside, live, rfl, found⟩ := rep.live_slot admitted
    refine ⟨_, s, m, ?_, ⟨s.slot i, found, rfl, rfl⟩, rep⟩
    rw [managerStep, fetch_type_slot image s inside]
    rfl

/-- From a store that starts or was reset, the manager simulates the empty map along
    every list of calls, as long as the calls are admitted. -/
theorem manager_refines_map (image : Image w) {s : Store w} (fresh : s.Fresh)
    (ops : List (ManagerOp w)) :
    Simulates (Represents image) (managerStep image) Admits (Specified image.hndtypeDependent)
      ops s HandleMap.empty :=
  simulates_of_step (step_matched image) ops (fresh_represents image fresh)

theorem manager_refines_map_sample :
    Simulates (Represents image64) (managerStep image64) Admits (Specified 6)
      [.createDependentHandle 7#64 9#64, .createDuplicateHandle 4096#64,
        .setExtraInfoForHandle 4096#64 2 3#64, .destroyHandleOfType 4096#64 2,
        .destroyHandleOfUnknownType 4096#64, .createHandleOfType 8#64 1,
        .interlockedCompareExchangeObjectInHandle 4096#64 5#64 8#64]
      initial HandleMap.empty :=
  manager_refines_map image64 (Or.inl rfl) _

end UgcManagerRefinement
