import Mathlib.Logic.Function.Basic
import Ugc.CoreAllocator

/-!
The handle store of `ugc_core.c`: four parallel arrays of slots, the number of
slots ever handed out and the stack of slots to reuse. Slots are named by their
index here; the result `some i` of a create stands for `&ugc_handles[i]`, `none`
for a null pointer. Writes beyond the arrays are excluded by the callers.
-/
namespace UgcHandleStore
open UgcAllocator
variable {w : Nat}

/-- `UGC_HANDLE_COUNT`, the capacity of the store. -/
def ugcHandleCount : Nat := 65535

def ugcHandleTypeFree : Int := -1

/-- What the four arrays hold at one index. -/
structure Record (w : Nat) where
  object : Word w
  type : Int
  extra : Word w
  dependent : Word w
  deriving DecidableEq, Repr

structure Store (w : Nat) where
  count : Nat
  freeCount : Nat
  handles : Nat → Word w
  types : Nat → Int
  extra : Nat → Word w
  dependent : Nat → Word w
  freeStack : Nat → Nat

def initial : Store w := ⟨0, 0, fun _ => 0#w, fun _ => 0, fun _ => 0#w, fun _ => 0#w, fun _ => 0⟩

def Record.null : Record w := ⟨0#w, 0, 0#w, 0#w⟩

def Record.freed : Record w := ⟨0#w, ugcHandleTypeFree, 0#w, 0#w⟩

def Store.slot (s : Store w) (idx : Nat) : Record w :=
  ⟨s.handles idx, s.types idx, s.extra idx, s.dependent idx⟩

/-- A slot in use: handed out at some time and not tagged as free. -/
def Store.Live (s : Store w) (idx : Nat) : Prop := idx < s.count ∧ 0 ≤ s.types idx

instance (s : Store w) (idx : Nat) : Decidable (s.Live idx) :=
  inferInstanceAs (Decidable (idx < s.count ∧ 0 ≤ s.types idx))

def Store.setSlot (s : Store w) (idx : Nat) (record : Record w) : Store w :=
  { s with
    handles := Function.update s.handles idx record.object
    types := Function.update s.types idx record.type
    extra := Function.update s.extra idx record.extra
    dependent := Function.update s.dependent idx record.dependent }

def ugcHandleSlotAcquire (s : Store w) : Option Nat × Store w :=
  if 0 < s.freeCount then
    (some (s.freeStack (s.freeCount - 1)), { s with freeCount := s.freeCount - 1 })
  else if s.count < ugcHandleCount then (some s.count, { s with count := s.count + 1 })
  else (none, s)

def createSlot (s : Store w) (record : Record w) : Option Nat × Store w :=
  match ugcHandleSlotAcquire s with
  | (none, s) => (none, s)
  | (some idx, s) => (some idx, s.setSlot idx record)

def ugcHandleCreate (s : Store w) (object : Word w) (type : Int) : Option Nat × Store w :=
  createSlot s ⟨object, type, 0#w, 0#w⟩

def ugcHandleCreateWithExtra (s : Store w) (object : Word w) (type : Int) (extra : Word w) :
    Option Nat × Store w :=
  createSlot s ⟨object, type, extra, 0#w⟩

def ugcHandleCreateDependent (s : Store w) (primary secondary : Word w) (type : Int) :
    Option Nat × Store w :=
  createSlot s ⟨primary, type, 0#w, secondary⟩

def ugcHandleDestroyAt (s : Store w) (idx : Nat) : Store w :=
  if s.types idx < 0 ∨ s.freeCount = ugcHandleCount then s
  else { s.setSlot idx Record.freed with
    freeStack := Function.update s.freeStack s.freeCount idx
    freeCount := s.freeCount + 1 }

def ugcHandleSetDependentAt (s : Store w) (idx : Nat) (secondary : Word w) : Store w :=
  { s with dependent := Function.update s.dependent idx secondary }

def ugcHandleGetTypeAt (s : Store w) (idx : Nat) : Int := s.types idx

def ugcHandleSetTypeAt (s : Store w) (idx : Nat) (type : Int) : Store w :=
  { s with types := Function.update s.types idx type }

def ugcHandleGetExtraAt (s : Store w) (idx : Nat) : Word w := s.extra idx

def ugcHandleSetExtraAt (s : Store w) (idx : Nat) (extra : Word w) : Store w :=
  { s with extra := Function.update s.extra idx extra }

/-- The loop of `ugc_handle_store_reset` after its first `n` iterations. -/
def clearSlots : Nat → Store w → Store w
  | 0, s => s
  | i + 1, s =>
    let s := clearSlots i s
    { s.setSlot i Record.null with freeStack := Function.update s.freeStack i 0 }

def Store.zeroCounts (s : Store w) : Store w := { s with count := 0, freeCount := 0 }

def ugcHandleStoreReset (s : Store w) : Store w := (clearSlots ugcHandleCount s).zeroCounts

/-- The store of a process that starts, or one that was just reset. -/
def Store.Fresh (s : Store w) : Prop := s = initial ∨ ∃ before, s = ugcHandleStoreReset before

/-- The cells a slot pointer can point to: `&ugc_handles[idx]`, `&ugc_handle_dependent[idx]`. -/
inductive Cell where
  | handle (idx : Nat)
  | dependent (idx : Nat)
  deriving DecidableEq, Repr

def Cell.idx : Cell → Nat
  | .handle idx => idx
  | .dependent idx => idx

def Store.read (s : Store w) : Cell → Word w
  | .handle idx => s.handles idx
  | .dependent idx => s.dependent idx

def ugcHandleSlotStore (s : Store w) (object : Word w) : Cell → Store w
  | .handle idx => { s with handles := Function.update s.handles idx object }
  | .dependent idx => { s with dependent := Function.update s.dependent idx object }

def ugcHandleSlotStoreIfNull (s : Store w) (slot : Cell) (object : Word w) : Bool × Store w :=
  if s.read slot = 0#w then (true, ugcHandleSlotStore s object slot) else (false, s)

/-- The value returned is the one in the slot after the operation. -/
def ugcHandleSlotCas (s : Store w) (slot : Cell) (object comparand : Word w) : Word w × Store w :=
  if s.read slot = comparand then
    let s := ugcHandleSlotStore s object slot
    (s.read slot, s)
  else (s.read slot, s)

/-- The exported functions that write the store. -/
inductive StoreOp (w : Nat) where
  | create (object : Word w) (type : Int)
  | createWithExtra (object : Word w) (type : Int) (extra : Word w)
  | createDependent (primary secondary : Word w) (type : Int)
  | destroyAt (idx : Nat)
  | setTypeAt (idx : Nat) (type : Int)
  | setExtraAt (idx : Nat) (extra : Word w)
  | setDependentAt (idx : Nat) (secondary : Word w)
  | slotStore (slot : Cell) (object : Word w)
  | slotStoreIfNull (slot : Cell) (object : Word w)
  | slotCas (slot : Cell) (object comparand : Word w)
  | reset

def exec (s : Store w) : StoreOp w → Option Nat × Store w
  | .create object type => ugcHandleCreate s object type
  | .createWithExtra object type extra => ugcHandleCreateWithExtra s object type extra
  | .createDependent primary secondary type => ugcHandleCreateDependent s primary secondary type
  | .destroyAt idx => (none, ugcHandleDestroyAt s idx)
  | .setTypeAt idx type => (none, ugcHandleSetTypeAt s idx type)
  | .setExtraAt idx extra => (none, ugcHandleSetExtraAt s idx extra)
  | .setDependentAt idx secondary => (none, ugcHandleSetDependentAt s idx secondary)
  | .slotStore slot object => (none, ugcHandleSlotStore s object slot)
  | .slotStoreIfNull slot object => (none, (ugcHandleSlotStoreIfNull s slot object).2)
  | .slotCas slot object comparand => (none, (ugcHandleSlotCas s slot object comparand).2)
  | .reset => (none, ugcHandleStoreReset s)

def step (s : Store w) (op : StoreOp w) : Store w := (exec s op).2

/-- The slot a create hands out. -/
def created (s : Store w) (op : StoreOp w) : Option Nat := (exec s op).1

/-- The record a create writes into its slot. -/
def StoreOp.record : StoreOp w → Option (Record w)
  | .create object type => some ⟨object, type, 0#w, 0#w⟩
  | .createWithExtra object type extra => some ⟨object, type, extra, 0#w⟩
  | .createDependent primary secondary type => some ⟨primary, type, 0#w, secondary⟩
  | _ => none

theorem exec_create {op : StoreOp w} {record : Record w} (creates : op.record = some record)
    (s : Store w) : exec s op = createSlot s record := by
  cases op <;> simp only [StoreOp.record, Option.some.injEq, reduceCtorEq] at creates <;>
    subst creates <;> rfl

theorem created_none {op : StoreOp w} (other : op.record = none) (s : Store w) :
    created s op = none := by
  cases op <;> first | rfl | simp [StoreOp.record] at other

/-- The operations that leave both counters, the stack and the type tags alone. -/
def StoreOp.Quiet : StoreOp w → Prop
  | .setExtraAt _ _ => True
  | .setDependentAt _ _ => True
  | .slotStore _ _ => True
  | .slotStoreIfNull _ _ => True
  | .slotCas _ _ _ => True
  | _ => False

theorem slot_store_frame (s : Store w) (object : Word w) (slot : Cell) :
    (ugcHandleSlotStore s object slot).count = s.count ∧
      (ugcHandleSlotStore s object slot).freeCount = s.freeCount ∧
      (ugcHandleSlotStore s object slot).freeStack = s.freeStack ∧
      (ugcHandleSlotStore s object slot).types = s.types := by
  cases slot <;> exact ⟨rfl, rfl, rfl, rfl⟩

theorem quiet_frame {op : StoreOp w} (quiet : op.Quiet) (s : Store w) :
    (step s op).count = s.count ∧ (step s op).freeCount = s.freeCount ∧
      (step s op).freeStack = s.freeStack ∧ (step s op).types = s.types := by
  cases op with
  | setExtraAt idx extra => exact ⟨rfl, rfl, rfl, rfl⟩
  | setDependentAt idx secondary => exact ⟨rfl, rfl, rfl, rfl⟩
  | slotStore slot object => exact slot_store_frame s object slot
  | slotStoreIfNull slot object =>
    simp only [step, exec, ugcHandleSlotStoreIfNull]
    split
    · exact slot_store_frame s object slot
    · exact ⟨rfl, rfl, rfl, rfl⟩
  | slotCas slot object comparand =>
    simp only [step, exec, ugcHandleSlotCas]
    split
    · exact slot_store_frame s object slot
    · exact ⟨rfl, rfl, rfl, rfl⟩
  | create | createWithExtra | createDependent | destroyAt | setTypeAt | reset => exact quiet.elim

theorem slot_set_self (s : Store w) (idx : Nat) (record : Record w) :
    (s.setSlot idx record).slot idx = record := by
  simp [Store.slot, Store.setSlot]

theorem slot_set_of_ne (s : Store w) {idx other : Nat} (record : Record w) (apart : other ≠ idx) :
    (s.setSlot idx record).slot other = s.slot other := by
  simp [Store.slot, Store.setSlot, apart]

theorem types_of_slot {s t : Store w} {i j : Nat} (same : s.slot i = t.slot j) :
    s.types i = t.types j :=
  congrArg Record.type same

theorem acquire_frame (s : Store w) :
    (ugcHandleSlotAcquire s).2.freeStack = s.freeStack ∧
      ∀ i, (ugcHandleSlotAcquire s).2.slot i = s.slot i := by
  unfold ugcHandleSlotAcquire
  split
  · exact ⟨rfl, fun _ => rfl⟩
  · split <;> exact ⟨rfl, fun _ => rfl⟩

theorem acquire_none {s : Store w} (full : (ugcHandleSlotAcquire s).1 = none) :
    (ugcHandleSlotAcquire s).2 = s := by
  by_cases some : 0 < s.freeCount
  · simp [ugcHandleSlotAcquire, some] at full
  · by_cases room : s.count < ugcHandleCount
    · simp [ugcHandleSlotAcquire, some, room] at full
    · rw [ugcHandleSlotAcquire, if_neg some, if_neg room]

theorem acquire_count {s : Store w} {idx : Nat} (given : (ugcHandleSlotAcquire s).1 = some idx) :
    (ugcHandleSlotAcquire s).2.count = s.count ∨
      (idx = s.count ∧ (ugcHandleSlotAcquire s).2.count = s.count + 1) := by
  by_cases some : 0 < s.freeCount
  · exact Or.inl (by simp [ugcHandleSlotAcquire, some])
  · by_cases room : s.count < ugcHandleCount
    · rw [ugcHandleSlotAcquire, if_neg some, if_pos room] at given ⊢
      exact Or.inr ⟨(Option.some.inj given).symm, rfl⟩
    · exact Or.inl (by simp [ugcHandleSlotAcquire, some, room])

theorem create_slot_acquires (s : Store w) (record : Record w) :
    (createSlot s record).1 = (ugcHandleSlotAcquire s).1 := by
  unfold createSlot
  split <;> rename_i acquired <;> rw [acquired]

theorem create_slot_none {s : Store w} {record : Record w}
    (full : (createSlot s record).1 = none) : (createSlot s record).2 = s := by
  have kept := acquire_none ((create_slot_acquires s record).symm.trans full)
  unfold createSlot at full ⊢
  split at full <;> rename_i acquired
  · rwa [acquired] at kept
  · cases full

theorem create_slot_some {s : Store w} {record : Record w} {idx : Nat}
    (given : (createSlot s record).1 = some idx) :
    (createSlot s record).2 = (ugcHandleSlotAcquire s).2.setSlot idx record := by
  unfold createSlot at given ⊢
  split at given <;> rename_i acquired
  · cases given
  · cases given
    rw [acquired]

/-- A create that succeeds writes one slot and at most grows the array by it. -/
theorem create_slot_frame {s : Store w} {record : Record w} {idx : Nat}
    (given : (createSlot s record).1 = some idx) :
    (createSlot s record).2.slot idx = record ∧
      (∀ i, i ≠ idx → (createSlot s record).2.slot i = s.slot i) ∧
      ((createSlot s record).2.count = s.count ∨
        (idx = s.count ∧ (createSlot s record).2.count = s.count + 1)) := by
  have acquired := (create_slot_acquires s record).symm.trans given
  rw [create_slot_some given]
  refine ⟨slot_set_self _ idx record, fun i apart => ?_, acquire_count acquired⟩
  rw [slot_set_of_ne _ record apart, (acquire_frame s).2]

theorem destroy_at_effective {s : Store w} {idx : Nat} (live : 0 ≤ s.types idx)
    (room : s.freeCount ≠ ugcHandleCount) :
    ugcHandleDestroyAt s idx = { s.setSlot idx Record.freed with
      freeStack := Function.update s.freeStack s.freeCount idx
      freeCount := s.freeCount + 1 } :=
  if_neg fun either => either.elim (fun free => absurd live (Int.not_le.mpr free)) room

theorem destroy_at_frame {s : Store w} {idx : Nat} (live : 0 ≤ s.types idx)
    (room : s.freeCount ≠ ugcHandleCount) :
    (ugcHandleDestroyAt s idx).count = s.count ∧
      (ugcHandleDestroyAt s idx).slot idx = Record.freed ∧
      ∀ i, i ≠ idx → (ugcHandleDestroyAt s idx).slot i = s.slot i := by
  rw [destroy_at_effective live room]
  exact ⟨rfl, slot_set_self s idx Record.freed, fun i apart => slot_set_of_ne s Record.freed apart⟩

theorem destroy_at_free {s : Store w} {idx : Nat} (free : s.types idx < 0) :
    ugcHandleDestroyAt s idx = s :=
  if_pos (Or.inl free)

/-- The slot that a setter or a slot operation works on. -/
def StoreOp.touched : StoreOp w → Option Nat
  | .setTypeAt idx _ => some idx
  | .setExtraAt idx _ => some idx
  | .setDependentAt idx _ => some idx
  | .slotStore slot _ => some slot.idx
  | .slotStoreIfNull slot _ => some slot.idx
  | .slotCas slot _ _ => some slot.idx
  | _ => none

theorem slot_store_other (s : Store w) (object : Word w) {slot : Cell} {i : Nat}
    (apart : i ≠ slot.idx) : (ugcHandleSlotStore s object slot).slot i = s.slot i := by
  cases slot <;> simp only [Cell.idx] at apart <;> simp [ugcHandleSlotStore, Store.slot, apart]

theorem slot_store_handle (s : Store w) (object : Word w) (idx : Nat) :
    (ugcHandleSlotStore s object (.handle idx)).slot idx =
      { s.slot idx with object := object } := by
  simp [ugcHandleSlotStore, Store.slot]

theorem slot_cas_answer (s : Store w) (slot : Cell) (object comparand : Word w) :
    (ugcHandleSlotCas s slot object comparand).1 =
      (ugcHandleSlotCas s slot object comparand).2.read slot := by
  unfold ugcHandleSlotCas
  split <;> rfl

theorem touched_other {op : StoreOp w} {idx i : Nat} (touched : op.touched = some idx)
    (apart : i ≠ idx) (s : Store w) : (step s op).slot i = s.slot i := by
  cases op with
  | setTypeAt | setExtraAt | setDependentAt =>
    obtain rfl := Option.some.inj touched
    simp [step, exec, ugcHandleSetTypeAt, ugcHandleSetExtraAt, ugcHandleSetDependentAt,
      Store.slot, apart]
  | slotStore slot object =>
    obtain rfl := Option.some.inj touched
    exact slot_store_other s object apart
  | slotStoreIfNull slot object =>
    obtain rfl := Option.some.inj touched
    simp only [step, exec, ugcHandleSlotStoreIfNull]
    split
    · exact slot_store_other s object apart
    · rfl
  | slotCas slot object comparand =>
    obtain rfl := Option.some.inj touched
    simp only [step, exec, ugcHandleSlotCas]
    split
    · exact slot_store_other s object apart
    · rfl
  | create | createWithExtra | createDependent | destroyAt | reset => cases touched

theorem clear_slots_spec (s : Store w) (n : Nat) (i : Nat) :
    (clearSlots n s).slot i = (if i < n then Record.null else s.slot i) ∧
      (clearSlots n s).freeStack i = if i < n then 0 else s.freeStack i := by
  induction n with
  | zero => simp [clearSlots]
  | succ n ih =>
    by_cases here : i = n
    · subst here
      have cleared := slot_set_self (clearSlots i s) i Record.null
      exact ⟨by simpa [clearSlots, Store.slot] using cleared, by simp [clearSlots]⟩
    · have kept := slot_set_of_ne (clearSlots n s) Record.null here
      have below : i < n + 1 ↔ i < n := by omega
      simp only [below]
      refine ⟨?_, ?_⟩
      · rw [← ih.1, ← kept]
        rfl
      · rw [← ih.2]
        exact Function.update_of_ne here _ _

theorem zero_counts_slot (s : Store w) (i : Nat) : s.zeroCounts.slot i = s.slot i := rfl

theorem reset_slot {s : Store w} {i : Nat} (inside : i < ugcHandleCount) :
    (ugcHandleStoreReset s).slot i = Record.null := by
  rw [ugcHandleStoreReset, zero_counts_slot, (clear_slots_spec s ugcHandleCount i).1,
    if_pos inside]

theorem reset_types {s : Store w} {i : Nat} (inside : i < ugcHandleCount) :
    (ugcHandleStoreReset s).types i = 0 :=
  congrArg Record.type (reset_slot (s := s) inside)

end UgcHandleStore
