import Ugc.HandleManager
import Ugc.KeptMemory
import Ugc.PlugSkew

/-!
The collector as a whole: the heap and the handles of one process, called in any order.
What a handle holds is null or an object that the heap handed out, and whatever was
called since then, that object still holds what the mutator last wrote to it.
-/
namespace UgcCollector
open ByteExtents StepRuns UgcAllocator UgcHeapRuns UgcHeapSafety UgcZeroedObjects UgcKeptMemory
open UgcHandleStore UgcHandleAddresses UgcHandleManager
variable {w : Nat} {ι : Type}

structure Collector (w : Nat) (ι : Type) where
  heap : Heap w ι
  store : Store w

inductive Call (w : Nat) (ι : Type) where
  | heap (e : Event w ι)
  | handles (op : ManagerOp w)

def start (answers : List (Word w)) (bytes : Nat → UInt8) : Collector w ι :=
  ⟨UgcHeapRuns.initial answers bytes, UgcHandleStore.initial⟩

/-- The objects among the arguments of a call on handles. -/
def objectsGiven : ManagerOp w → List (Word w)
  | .createGlobalHandleOfType object _ => [object]
  | .createHandleOfType object _ => [object]
  | .createHandleWithExtraInfo object _ _ => [object]
  | .createDependentHandle primary secondary => [primary, secondary]
  | .storeObjectInHandle _ object => [object]
  | .storeObjectInHandleIfNull _ object => [object]
  | .setDependentHandleSecondary _ object => [object]
  | .interlockedCompareExchangeObjectInHandle _ object _ => [object]
  | _ => []

/-- The calls on handles that answer with an object. -/
def readsObject : ManagerOp w → Bool
  | .getDependentHandleSecondary _ => true
  | .interlockedCompareExchangeObjectInHandle _ _ _ => true
  | _ => false

def heapEvents (calls : List (Call w ι)) : List (Event w ι) :=
  calls.filterMap fun call => match call with
    | .heap e => some e
    | .handles _ => none

theorem heap_events_append (first second : List (Call w ι)) :
    heapEvents (first ++ second) = heapEvents first ++ heapEvents second :=
  List.filterMap_append

/- What the cells of a store hold, said for any set of words. -/
section Cells
variable {known : Word w → Prop} {s t : Store w}

def HoldsOnly (known : Word w → Prop) (s : Store w) : Prop := ∀ cell, known (s.read cell)

theorem holds_of_same (holds : HoldsOnly known s) (handles : t.handles = s.handles)
    (dependent : t.dependent = s.dependent) : HoldsOnly known t := by
  intro cell
  have before := holds cell
  cases cell <;> simp only [Store.read, handles, dependent] at before ⊢ <;> exact before

theorem holds_slot_store (holds : HoldsOnly known s) {object : Word w} (given : known object)
    (slot : Cell) : HoldsOnly known (ugcHandleSlotStore s object slot) := by
  intro cell
  have before := holds cell
  cases slot with
  | handle idx =>
    cases cell with
    | handle i =>
      by_cases same : i = idx
      · simpa [ugcHandleSlotStore, Store.read, same] using given
      · simpa [ugcHandleSlotStore, Store.read, same] using before
    | dependent i => exact before
  | dependent idx =>
    cases cell with
    | handle i => exact before
    | dependent i =>
      by_cases same : i = idx
      · simpa [ugcHandleSlotStore, Store.read, same] using given
      · simpa [ugcHandleSlotStore, Store.read, same] using before

theorem holds_set_slot (holds : HoldsOnly known s) {record : Record w}
    (object : known record.object) (dependent : known record.dependent) (idx : Nat) :
    HoldsOnly known (s.setSlot idx record) := by
  have first : HoldsOnly known (ugcHandleSlotStore s record.object (.handle idx)) :=
    holds_slot_store holds object (.handle idx)
  exact holds_of_same (holds_slot_store first dependent (.dependent idx)) rfl rfl

theorem holds_acquire (holds : HoldsOnly known s) : HoldsOnly known (ugcHandleSlotAcquire s).2 := by
  have slots := (acquire_frame s).2
  refine holds_of_same holds (funext fun i => ?_) (funext fun i => ?_)
  · exact congrArg Record.object (slots i)
  · exact congrArg Record.dependent (slots i)

theorem holds_create (holds : HoldsOnly known s) {record : Record w}
    (object : known record.object) (dependent : known record.dependent) :
    HoldsOnly known (createSlot s record).2 := by
  cases given : (createSlot s record).1 with
  | none =>
    rw [create_slot_none given]
    exact holds
  | some idx =>
    rw [create_slot_some given]
    exact holds_set_slot (holds_acquire holds) object dependent idx

theorem holds_destroy (holds : HoldsOnly known s) (null : known 0#w) (idx : Nat) :
    HoldsOnly known (ugcHandleDestroyAt s idx) := by
  unfold ugcHandleDestroyAt
  split
  · exact holds
  · have freed : HoldsOnly known (s.setSlot idx Record.freed) := holds_set_slot holds null null idx
    exact holds_of_same freed rfl rfl

theorem holds_slot_cas (holds : HoldsOnly known s) {object comparand : Word w}
    (given : known object) (slot : Cell) :
    HoldsOnly known (ugcHandleSlotCas s slot object comparand).2 := by
  unfold ugcHandleSlotCas
  split
  · exact holds_slot_store holds given slot
  · exact holds

theorem holds_store_if_null (holds : HoldsOnly known s) {object : Word w} (given : known object)
    (slot : Cell) : HoldsOnly known (ugcHandleSlotStoreIfNull s slot object).2 := by
  unfold ugcHandleSlotStoreIfNull
  split
  · exact holds_slot_store holds given slot
  · exact holds

variable {image : Image w} {op : ManagerOp w} {answer : Answer w}

theorem record_known {record : Record w} (creates : op.record image = some record)
    (null : known 0#w) (given : ∀ v ∈ objectsGiven op, known v) :
    known record.object ∧ known record.dependent := by
  cases op <;> simp only [ManagerOp.record, Option.some.injEq, reduceCtorEq] at creates <;>
    subst creates
  case createDependentHandle primary secondary =>
    exact ⟨given primary List.mem_cons_self,
      given secondary (List.mem_cons_of_mem _ List.mem_cons_self)⟩
  all_goals exact ⟨given _ List.mem_cons_self, null⟩

theorem create_holds {record : Record w} (creates : op.record image = some record)
    (done : managerStep image s op = some (answer, t)) (holds : HoldsOnly known s)
    (null : known 0#w) (given : ∀ v ∈ objectsGiven op, known v) : HoldsOnly known t := by
  obtain ⟨object, dependent⟩ := record_known creates null given
  rw [manager_create creates] at done
  cases done
  exact holds_create holds object dependent

theorem manager_destroy_holds {hndl : Word w} (destroys : op.destroyed = some hndl)
    (done : managerStep image s op = some (answer, t)) (holds : HoldsOnly known s)
    (null : known 0#w) : HoldsOnly known t := by
  rw [manager_destroy destroys] at done
  cases done
  unfold uDestroyHandle
  split
  · exact holds_destroy holds null _
  · exact holds

theorem duplicate_holds {handle made : Word w}
    (done : createDuplicateHandle image s handle = some (made, t)) (holds : HoldsOnly known s)
    (null : known 0#w) : HoldsOnly known t := by
  unfold createDuplicateHandle at done
  split at done
  · cases done
    exact holds
  · obtain ⟨slot, -, rest⟩ := Option.bind_eq_some_iff.mp done
    obtain ⟨type, -, same⟩ := Option.bind_eq_some_iff.mp rest
    cases same
    exact holds_create holds (holds slot) null

theorem set_extra_holds {handle extraInfo : Word w} {type : Int}
    (done : setExtraInfoForHandle image s handle type extraInfo = some t)
    (holds : HoldsOnly known s) : HoldsOnly known t := by
  obtain ⟨middle, typed, rest⟩ := Option.bind_eq_some_iff.mp done
  obtain ⟨idx, -, rfl⟩ := Option.map_eq_some_iff.mp typed
  obtain ⟨same, -, rfl⟩ := Option.map_eq_some_iff.mp rest
  exact holds_of_same holds rfl rfl

/-- A call on handles moves no word into the store, or to its caller as an object, but the
    objects it is given, those of other cells and null. -/
theorem manager_holds (done : managerStep image s op = some (answer, t))
    (holds : HoldsOnly known s) (null : known 0#w) (given : ∀ v ∈ objectsGiven op, known v) :
    HoldsOnly known t ∧ ∀ v, readsObject op = true → answer = .pointer v → known v := by
  cases op with
  | createGlobalHandleOfType | createHandleOfType | createHandleWithExtraInfo
  | createDependentHandle => exact ⟨create_holds rfl done holds null given, nofun⟩
  | destroyHandleOfType | destroyHandleOfUnknownType =>
    exact ⟨manager_destroy_holds rfl done holds null, nofun⟩
  | createDuplicateHandle handle =>
    obtain ⟨made, duplicated, same⟩ := Option.map_eq_some_iff.mp done
    cases same
    exact ⟨duplicate_holds duplicated holds null, nofun⟩
  | setExtraInfoForHandle handle type extraInfo =>
    obtain ⟨after, set, same⟩ := Option.map_eq_some_iff.mp done
    cases same
    exact ⟨set_extra_holds set holds, nofun⟩
  | getExtraInfoFromHandle | handleFetchType =>
    obtain ⟨read, -, same⟩ := Option.map_eq_some_iff.mp done
    cases same
    exact ⟨holds, nofun⟩
  | storeObjectInHandle handle object =>
    obtain ⟨after, stored, same⟩ := Option.map_eq_some_iff.mp done
    obtain ⟨slot, -, rfl⟩ := Option.map_eq_some_iff.mp stored
    cases same
    exact ⟨holds_slot_store holds (given object List.mem_cons_self) slot, nofun⟩
  | storeObjectInHandleIfNull handle object =>
    obtain ⟨after, stored, same⟩ := Option.map_eq_some_iff.mp done
    obtain ⟨slot, -, rfl⟩ := Option.map_eq_some_iff.mp stored
    cases same
    exact ⟨holds_store_if_null holds (given object List.mem_cons_self) slot, nofun⟩
  | setDependentHandleSecondary handle object =>
    obtain ⟨after, stored, same⟩ := Option.map_eq_some_iff.mp done
    obtain ⟨idx, -, rfl⟩ := Option.map_eq_some_iff.mp stored
    cases same
    exact ⟨holds_slot_store holds (given object List.mem_cons_self) (.dependent idx), nofun⟩
  | getDependentHandleSecondary handle =>
    obtain ⟨object, read, same⟩ := Option.map_eq_some_iff.mp done
    obtain ⟨pointer, -, rest⟩ := Option.bind_eq_some_iff.mp read
    obtain ⟨slot, -, found⟩ := Option.bind_eq_some_iff.mp rest
    cases found
    cases same
    refine ⟨holds, fun v _ pointer => ?_⟩
    cases pointer
    exact holds slot
  | interlockedCompareExchangeObjectInHandle handle object oldObject =>
    obtain ⟨after, swapped, same⟩ := Option.map_eq_some_iff.mp done
    obtain ⟨slot, -, rfl⟩ := Option.map_eq_some_iff.mp swapped
    cases same
    have kept : HoldsOnly known (ugcHandleSlotCas s slot object oldObject).2 :=
      holds_slot_cas holds (given object List.mem_cons_self) slot
    refine ⟨kept, fun v _ pointer => ?_⟩
    cases pointer
    exact slot_cas_answer s slot object oldObject ▸ kept slot

end Cells

section Runs
variable [DecidableEq ι] {cfg : Config w} {image : Image w}

def step (cfg : Config w) (image : Image w) (c : Collector w ι) : Call w ι → Collector w ι
  | .heap e => { c with heap := UgcHeapRuns.step cfg c.heap e }
  | .handles op => { c with store := ((managerStep image c.store op).map Prod.snd).getD c.store }

/-- Null, or the address of an object that the heap has handed out. -/
def Known (s : Heap w ι) (v : Word w) : Prop := v = 0#w ∨ ∃ o ∈ s.objects, o.start = v.toNat

/-- The mutator writes into its objects, calls the manager where that is defined, and
    hands it no object but those it was given. -/
def Permitted (cfg : Config w) (image : Image w) (c : Collector w ι) : Call w ι → Prop
  | .heap e => WriteConfined cfg c.heap e
  | .handles op =>
    (managerStep image c.store op).isSome = true ∧ ∀ v ∈ objectsGiven op, Known c.heap v

theorem run_heap (cfg : Config w) (image : Image w) (c : Collector w ι)
    (calls : List (Call w ι)) : (run (step cfg image) c calls).heap =
      run (UgcHeapRuns.step cfg) c.heap (heapEvents calls) := by
  induction calls generalizing c with
  | nil => rfl
  | cons call calls ih =>
    cases call with
    | heap e => exact ih (step cfg image c (.heap e))
    | handles op => exact ih (step cfg image c (.handles op))

theorem heap_confined {c : Collector w ι} {calls : List (Call w ι)}
    (permitted : Admitted (step cfg image) (Permitted cfg image) c calls) :
    Admitted (UgcHeapRuns.step cfg) (WriteConfined cfg) c.heap (heapEvents calls) := by
  induction calls generalizing c with
  | nil => trivial
  | cons call calls ih =>
    have rest := ih permitted.2
    cases call with
    | heap e => exact ⟨permitted.1, rest⟩
    | handles op => exact rest

theorem known_later {s : Heap w ι} {v : Word w} (known : Known s v) (e : Event w ι) :
    Known (UgcHeapRuns.step cfg s e) v := by
  refine known.imp id ?_
  rintro ⟨o, member, at_start⟩
  refine ⟨o, ?_, at_start⟩
  rw [step_objects]
  unfold record
  split
  · exact member
  · exact List.mem_cons_of_mem _ member

theorem step_holds (c : Collector w ι) (call : Call w ι)
    (holds : HoldsOnly (Known c.heap) c.store) (permitted : Permitted cfg image c call) :
    HoldsOnly (Known (step cfg image c call).heap) (step cfg image c call).store := by
  cases call with
  | heap e => exact fun cell => known_later (holds cell) e
  | handles op =>
    obtain ⟨⟨answer, t⟩, done⟩ := Option.isSome_iff_exists.mp permitted.1
    have moved : (step cfg image c (.handles op)).store = t := by simp [step, done]
    rw [moved]
    exact (manager_holds done holds (Or.inl rfl) permitted.2).1

theorem run_holds {answers : List (Word w)} {bytes : Nat → UInt8} {calls : List (Call w ι)}
    (permitted : Admitted (step cfg image) (Permitted cfg image) (start answers bytes) calls) :
    HoldsOnly (Known (run (step cfg image) (start answers bytes) calls).heap)
      (run (step cfg image) (start answers bytes) calls).store := by
  refine invariant_run (fun c : Collector w ι => HoldsOnly (Known c.heap) c.store) step_holds
    (fun cell => Or.inl ?_) permitted
  cases cell <;> rfl

/-- One of the events of a run handed out the object. -/
def HandedOut (cfg : Config w) (answers : List (Word w)) (bytes : Nat → UInt8)
    (events : List (Event w ι)) (o : Extent) : Prop :=
  ∃ before e after, events = before ++ e :: after ∧
    returned cfg (run (UgcHeapRuns.step cfg) (initial answers bytes) before) e ≠ 0#w ∧
    o = ⟨(returned cfg (run (UgcHeapRuns.step cfg) (initial answers bytes) before) e).toNat,
      e.size.toNat⟩

/-- Null, or an object that an event of the run handed out: from its header to its end,
    its bytes are what the mutator's writes since that event have made of zeros. -/
def Refers (cfg : Config w) (answers : List (Word w)) (bytes : Nat → UInt8)
    (events : List (Event w ι)) (v : Word w) : Prop :=
  v = 0#w ∨ ∃ before e after, events = before ++ e :: after ∧
    returned cfg (run (UgcHeapRuns.step cfg) (initial answers bytes) before) e = v ∧
    ∀ p, v.toNat ≤ p + cfg.header.toNat → p < v.toNat + e.size.toNat →
      (run (UgcHeapRuns.step cfg) (initial answers bytes) events).arena.bytes p =
        lastWritten after p 0

variable {answers : List (Word w)} {bytes : Nat → UInt8}

theorem handed_out_later {events : List (Event w ι)} {o : Extent}
    (handed : HandedOut cfg answers bytes events o) (last : Event w ι) :
    HandedOut cfg answers bytes (events ++ [last]) o := by
  obtain ⟨before, e, after, split, rest⟩ := handed
  exact ⟨before, e, after ++ [last], by simp [split], rest⟩

theorem object_handed_out {events : List (Event w ι)} {o : Extent}
    (member : o ∈ (run (UgcHeapRuns.step cfg) (initial answers bytes) events).objects) :
    HandedOut cfg answers bytes events o := by
  induction events using List.reverseRecOn with
  | nil => exact absurd member List.not_mem_nil
  | append_singleton events last ih =>
    rw [run_snoc, step_objects] at member
    by_cases null : returned cfg (run (UgcHeapRuns.step cfg) (initial answers bytes) events) last =
        0#w
    · rw [null, record_null] at member
      exact handed_out_later (ih member) last
    · rw [record_returned _ null] at member
      rcases List.mem_cons.mp member with rfl | old
      · exact ⟨events, last, [], rfl, null, rfl⟩
      · exact handed_out_later (ih old) last

/-- What an event hands out is zero at first, and from then on what the writes make of it. -/
theorem handed_out_bytes {before after : List (Event w ι)} {e : Event w ι}
    (contract : ZallocContract
      (run (UgcHeapRuns.step cfg) (initial answers bytes) (before ++ e :: after)).arena)
    (confined : Admitted (UgcHeapRuns.step cfg) (WriteConfined cfg) (initial answers bytes) before)
    {v : Word w} (handed : returned cfg (run (UgcHeapRuns.step cfg) (initial answers bytes) before)
      e = v) (nonnull : v ≠ 0#w) {p : Nat} (low : v.toNat ≤ p + cfg.header.toNat)
    (high : p < v.toNat + e.size.toNat) :
    (run (UgcHeapRuns.step cfg) (initial answers bytes) (before ++ e :: after)).arena.bytes p =
      lastWritten after p 0 := by
  rw [run_append] at contract ⊢
  have there : ZallocContract (UgcHeapRuns.step cfg
      (run (UgcHeapRuns.step cfg) (initial answers bytes) before) e).arena :=
    contract_before_run contract
  have earlier := contract_step_back cfg _ e there
  have sound := run_sound cfg (initial_sound cfg answers bytes) earlier
  have after_sound := step_sound cfg _ e sound there
  have objects := step_objects cfg (run (UgcHeapRuns.step cfg) (initial answers bytes) before) e
  rw [handed, record_returned _ nonnull] at objects
  have member : ⟨v.toNat, e.size.toNat⟩ ∈ (UgcHeapRuns.step cfg
      (run (UgcHeapRuns.step cfg) (initial answers bytes) before) e).objects := by
    rw [objects]
    exact List.mem_cons_self
  obtain ⟨b, block, placed⟩ := after_sound.placed _ member
  have h1 := placed.1; have h2 := placed.2
  have held : b.Holds p := ⟨by simp only at h1; omega, by simp only [stop_mk] at h2; omega⟩
  have blank := run_blank cfg answers bytes before earlier confined
  have zero := step_object_zeroed cfg _ e sound blank there objects low high
  exact (run_kept after_sound contract block held).trans (congrArg (lastWritten after p) zero)

theorem refers_of_known {events : List (Event w ι)}
    (contract : ZallocContract
      (run (UgcHeapRuns.step cfg) (initial answers bytes) events).arena)
    (confined : Admitted (UgcHeapRuns.step cfg) (WriteConfined cfg) (initial answers bytes) events)
    {v : Word w} (known : Known (run (UgcHeapRuns.step cfg) (initial answers bytes) events) v) :
    Refers cfg answers bytes events v := by
  refine known.imp id ?_
  rintro ⟨o, member, at_start⟩
  obtain ⟨before, e, after, rfl, nonnull, rfl⟩ := object_handed_out member
  have same : returned cfg (run (UgcHeapRuns.step cfg) (initial answers bytes) before) e = v :=
    BitVec.eq_of_toNat_eq at_start
  rw [same] at nonnull
  have first := ((admitted_append _ _ _ before _).mp confined).1
  exact ⟨before, e, after, rfl, same,
    fun p low high => handed_out_bytes contract first same nonnull low high⟩

/-- Whatever a handle holds after any calls, and whatever object any of them answered, is
    null or an object of this heap that still holds what was written to it. -/
theorem references_kept (cfg : Config w) (image : Image w) (answers : List (Word w))
    (bytes : Nat → UInt8) (calls : List (Call w ι))
    (contract : ZallocContract (run (step cfg image) (start answers bytes) calls).heap.arena)
    (permitted : Admitted (step cfg image) (Permitted cfg image) (start answers bytes) calls) :
    (∀ cell, Refers cfg answers bytes (heapEvents calls)
      ((run (step cfg image) (start answers bytes) calls).store.read cell)) ∧
    ∀ before op after v t, calls = before ++ .handles op :: after → readsObject op = true →
      managerStep image (run (step cfg image) (start answers bytes) before).store op =
        some (.pointer v, t) → Refers cfg answers bytes (heapEvents before) v := by
  have known_refers : ∀ before after, calls = before ++ after → ∀ v,
      Known (run (step cfg image) (start answers bytes) before).heap v →
      Refers cfg answers bytes (heapEvents before) v := by
    intro before after split v known
    subst split
    rw [run_heap] at known
    rw [run_heap, heap_events_append, run_append] at contract
    exact refers_of_known (contract_before_run contract)
      (heap_confined ((admitted_append _ _ _ before after).mp permitted).1) known
  constructor
  · intro cell
    exact known_refers calls [] (List.append_nil calls).symm _ (run_holds permitted cell)
  · intro before op after v t split reads done
    subst split
    obtain ⟨first, ⟨defined, given⟩, -⟩ := (admitted_append _ _ _ _ _).mp permitted
    exact known_refers before (.handles op :: after) rfl v
      ((manager_holds done (run_holds first) (Or.inl rfl) given).2 v reads rfl)

end Runs

/-- An object is written to, duplicated from one handle into another and then read back
    from the second one, with a refill in between. -/
def sampleCalls : List (Call 64 Unit) :=
  [.heap (.alloc (some ()) 24#64 false), .handles (.createHandleOfType 65544#64 2),
    .heap (.write 65544 7), .heap (.alloc (some ()) 65528#64 false),
    .handles (.createDuplicateHandle 4096#64), .handles (.storeObjectInHandle 4096#64 131080#64),
    .handles (.interlockedCompareExchangeObjectInHandle 4104#64 0#64 131080#64)]

theorem references_kept_sample :
    Refers config64 [65536#64, 131072#64] (fun _ => 255) (heapEvents sampleCalls)
      ((run (step config64 image64) (start [65536#64, 131072#64] fun _ => 255)
        sampleCalls).store.read (.handle 1)) :=
  (references_kept config64 image64 [65536#64, 131072#64] (fun _ => 255) sampleCalls
    (by decide +kernel)
    ⟨trivial,
      ⟨by decide +kernel, List.forall_mem_singleton.mpr (Or.inr (by decide +kernel))⟩,
      ⟨⟨65544, 24⟩, by decide +kernel, by decide +kernel⟩, trivial, ⟨by decide +kernel, nofun⟩,
      ⟨by decide +kernel, List.forall_mem_singleton.mpr (Or.inr (by decide +kernel))⟩,
      ⟨by decide +kernel, List.forall_mem_singleton.mpr (Or.inl rfl)⟩, trivial⟩).1 (.handle 1)

end UgcCollector
