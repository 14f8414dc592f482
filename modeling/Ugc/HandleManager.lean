import Ugc.HandleAddresses

/-!
The handle store and the handle manager of the runtime interface, over the store
of `ugc_core.c`. Handles are machine words. A pointer is followed only if it is
the address of a cell of the store and an array is indexed only within its
bounds: where the code would leave its arrays the result is `none`.
-/
namespace UgcHandleManager
open UgcAllocator UgcHandleStore UgcHandleAddresses
variable {w : Nat}

/-- What the linked image fixes: where the two arrays of pointers lie, neither of them
    at the null address, and the value of the runtime's `HNDTYPE_DEPENDENT`. -/
structure Image (w : Nat) extends Layout w where
  dependent : Word w
  hndtypeDependent : Int
  handles_pos : 0 < handles.toNat
  dependent_end : dependent.toNat + ugcHandleCount * slotSize < 2 ^ w
  apart : handles.toNat + ugcHandleCount * slotSize ≤ dependent.toNat ∨
    dependent.toNat + ugcHandleCount * slotSize ≤ handles.toNat
  dependent_type : 0 ≤ hndtypeDependent

/-- An image with 8-byte slots, for runs on fixed inputs. -/
def image64 : Image 64 :=
  { slotSize := 8
    handles := 4096#64
    slot_pos := by decide
    handles_end := by decide
    dependent := 1048576#64
    hndtypeDependent := 6
    handles_pos := by decide
    dependent_end := by decide
    apart := by decide
    dependent_type := by decide }

def Image.dependents (image : Image w) : Layout w :=
  ⟨image.slotSize, image.dependent, image.slot_pos, image.dependent_end⟩

/-- The address `&ugc_handle_dependent[idx]`. -/
def ugcHandleDependentSlotAt (image : Image w) (idx : Nat) : Word w :=
  slotAddress image.dependents idx

/-- The slot of an array that an address is the address of. -/
def slotAt (l : Layout w) (pointer : Word w) : Option Nat :=
  let idx := (ugcHandleIndex l pointer).toNat
  if ugcHandleStoreContains l pointer = true ∧ slotAddress l idx = pointer then some idx else none

def cellAt (image : Image w) (pointer : Word w) : Option Cell :=
  match slotAt image.toLayout pointer with
  | some idx => some (.handle idx)
  | none => (slotAt image.dependents pointer).map .dependent

/-- The index of a handle as an array index. -/
def indexOf (image : Image w) (hndl : Word w) : Option Nat :=
  let idx := (ugcHandleIndex image.toLayout hndl).toNat
  if idx < ugcHandleCount then some idx else none

def handleOf (image : Image w) : Option Nat → Word w
  | some idx => slotAddress image.toLayout idx
  | none => 0#w

/-- Both overloads: the heap number of the second is not used. -/
def createHandleOfType (image : Image w) (s : Store w) (object : Word w) (type : Int) :
    Word w × Store w :=
  let made := ugcHandleCreate s object type
  (handleOf image made.1, made.2)

def createHandleWithExtraInfo (image : Image w) (s : Store w) (object : Word w) (type : Int)
    (extraInfo : Word w) : Word w × Store w :=
  let made := ugcHandleCreateWithExtra s object type extraInfo
  (handleOf image made.1, made.2)

def createDependentHandle (image : Image w) (s : Store w) (primary secondary : Word w) :
    Word w × Store w :=
  let made := ugcHandleCreateDependent s primary secondary image.hndtypeDependent
  (handleOf image made.1, made.2)

def uDestroyHandle (image : Image w) (s : Store w) (hndl : Word w) : Store w :=
  if ugcHandleStoreContains image.toLayout hndl = true then
    ugcHandleDestroyAt s (ugcHandleIndex image.toLayout hndl).toNat
  else s

def uGetDependentHandle (image : Image w) (hndl : Word w) : Option (Word w) :=
  (indexOf image hndl).map (ugcHandleDependentSlotAt image)

def uSetDependentHandle (image : Image w) (s : Store w) (hndl secondary : Word w) :
    Option (Store w) :=
  (indexOf image hndl).map fun idx => ugcHandleSetDependentAt s idx secondary

def uGetHandleType (image : Image w) (s : Store w) (hndl : Word w) : Option Int :=
  (indexOf image hndl).map (ugcHandleGetTypeAt s)

def uSetHandleType (image : Image w) (s : Store w) (hndl : Word w) (type : Int) :
    Option (Store w) :=
  (indexOf image hndl).map fun idx => ugcHandleSetTypeAt s idx type

def uGetHandleExtraInfo (image : Image w) (s : Store w) (hndl : Word w) : Option (Word w) :=
  (indexOf image hndl).map (ugcHandleGetExtraAt s)

def uSetHandleExtraInfo (image : Image w) (s : Store w) (hndl extraInfo : Word w) :
    Option (Store w) :=
  (indexOf image hndl).map fun idx => ugcHandleSetExtraAt s idx extraInfo

def createGlobalHandleOfType (image : Image w) (s : Store w) (object : Word w) (type : Int) :
    Word w × Store w :=
  createHandleOfType image s object type

def createDuplicateHandle (image : Image w) (s : Store w) (handle : Word w) :
    Option (Word w × Store w) :=
  if handle = 0#w then some (0#w, s)
  else do
    let slot ← cellAt image handle
    let type ← uGetHandleType image s handle
    return createHandleOfType image s (s.read slot) type

/-- The type given by the caller is not used. -/
def destroyHandleOfType (image : Image w) (s : Store w) (handle : Word w) (_type : Int) : Store w :=
  uDestroyHandle image s handle

def destroyHandleOfUnknownType (image : Image w) (s : Store w) (handle : Word w) : Store w :=
  uDestroyHandle image s handle

def setExtraInfoForHandle (image : Image w) (s : Store w) (handle : Word w) (type : Int)
    (extraInfo : Word w) : Option (Store w) := do
  let s ← uSetHandleType image s handle type
  uSetHandleExtraInfo image s handle extraInfo

def getExtraInfoFromHandle (image : Image w) (s : Store w) (handle : Word w) : Option (Word w) :=
  uGetHandleExtraInfo image s handle

def storeObjectInHandle (image : Image w) (s : Store w) (handle object : Word w) :
    Option (Store w) :=
  (cellAt image handle).map fun slot => ugcHandleSlotStore s object slot

def storeObjectInHandleIfNull (image : Image w) (s : Store w) (handle object : Word w) :
    Option (Bool × Store w) :=
  (cellAt image handle).map fun slot => ugcHandleSlotStoreIfNull s slot object

def setDependentHandleSecondary (image : Image w) (s : Store w) (handle object : Word w) :
    Option (Store w) :=
  uSetDependentHandle image s handle object

def getDependentHandleSecondary (image : Image w) (s : Store w) (handle : Word w) :
    Option (Word w) := do
  let handleObj ← uGetDependentHandle image handle
  let slot ← cellAt image handleObj
  return s.read slot

def interlockedCompareExchangeObjectInHandle (image : Image w) (s : Store w)
    (handle object oldObject : Word w) : Option (Word w × Store w) :=
  (cellAt image handle).map fun slot => ugcHandleSlotCas s slot object oldObject

def handleFetchType (image : Image w) (s : Store w) (handle : Word w) : Option Int :=
  uGetHandleType image s handle

/-- The calls of the interface on handles. -/
inductive ManagerOp (w : Nat) where
  | createGlobalHandleOfType (object : Word w) (type : Int)
  | createHandleOfType (object : Word w) (type : Int)
  | createHandleWithExtraInfo (object : Word w) (type : Int) (extraInfo : Word w)
  | createDependentHandle (primary secondary : Word w)
  | createDuplicateHandle (handle : Word w)
  | destroyHandleOfType (handle : Word w) (type : Int)
  | destroyHandleOfUnknownType (handle : Word w)
  | setExtraInfoForHandle (handle : Word w) (type : Int) (extraInfo : Word w)
  | getExtraInfoFromHandle (handle : Word w)
  | storeObjectInHandle (handle object : Word w)
  | storeObjectInHandleIfNull (handle object : Word w)
  | setDependentHandleSecondary (handle object : Word w)
  | getDependentHandleSecondary (handle : Word w)
  | interlockedCompareExchangeObjectInHandle (handle object oldObject : Word w)
  | handleFetchType (handle : Word w)

inductive Answer (w : Nat) where
  | done
  | handle (value : Word w)
  | pointer (value : Word w)
  | flag (value : Bool)
  | type (value : Int)
  deriving DecidableEq, Repr

def managerStep (image : Image w) (s : Store w) : ManagerOp w → Option (Answer w × Store w)
  | .createGlobalHandleOfType object type =>
    let made := createGlobalHandleOfType image s object type
    some (.handle made.1, made.2)
  | .createHandleOfType object type =>
    let made := createHandleOfType image s object type
    some (.handle made.1, made.2)
  | .createHandleWithExtraInfo object type extraInfo =>
    let made := createHandleWithExtraInfo image s object type extraInfo
    some (.handle made.1, made.2)
  | .createDependentHandle primary secondary =>
    let made := createDependentHandle image s primary secondary
    some (.handle made.1, made.2)
  | .createDuplicateHandle handle =>
    (createDuplicateHandle image s handle).map fun made => (.handle made.1, made.2)
  | .destroyHandleOfType handle type => some (.done, destroyHandleOfType image s handle type)
  | .destroyHandleOfUnknownType handle => some (.done, destroyHandleOfUnknownType image s handle)
  | .setExtraInfoForHandle handle type extraInfo =>
    (setExtraInfoForHandle image s handle type extraInfo).map fun s => (.done, s)
  | .getExtraInfoFromHandle handle =>
    (getExtraInfoFromHandle image s handle).map fun extra => (.pointer extra, s)
  | .storeObjectInHandle handle object =>
    (storeObjectInHandle image s handle object).map fun s => (.done, s)
  | .storeObjectInHandleIfNull handle object =>
    (storeObjectInHandleIfNull image s handle object).map fun stored => (.flag stored.1, stored.2)
  | .setDependentHandleSecondary handle object =>
    (setDependentHandleSecondary image s handle object).map fun s => (.done, s)
  | .getDependentHandleSecondary handle =>
    (getDependentHandleSecondary image s handle).map fun object => (.pointer object, s)
  | .interlockedCompareExchangeObjectInHandle handle object oldObject =>
    (interlockedCompareExchangeObjectInHandle image s handle object oldObject).map
      fun swapped => (.pointer swapped.1, swapped.2)
  | .handleFetchType handle => (handleFetchType image s handle).map fun type => (.type type, s)

/-- The record that a create puts into its slot. -/
def ManagerOp.record (image : Image w) : ManagerOp w → Option (Record w)
  | .createGlobalHandleOfType object type => some ⟨object, type, 0#w, 0#w⟩
  | .createHandleOfType object type => some ⟨object, type, 0#w, 0#w⟩
  | .createHandleWithExtraInfo object type extraInfo => some ⟨object, type, extraInfo, 0#w⟩
  | .createDependentHandle primary secondary =>
    some ⟨primary, image.hndtypeDependent, 0#w, secondary⟩
  | _ => none

/-- The pointer that a destroy is called with. -/
def ManagerOp.destroyed : ManagerOp w → Option (Word w)
  | .destroyHandleOfType handle _ => some handle
  | .destroyHandleOfUnknownType handle => some handle
  | _ => none

theorem manager_create {image : Image w} {op : ManagerOp w} {record : Record w}
    (creates : op.record image = some record) (s : Store w) :
    managerStep image s op =
      some (.handle (handleOf image (createSlot s record).1), (createSlot s record).2) := by
  cases op <;> simp only [ManagerOp.record, Option.some.injEq, reduceCtorEq] at creates <;>
    subst creates <;> rfl

theorem manager_destroy {op : ManagerOp w} {hndl : Word w} (destroys : op.destroyed = some hndl)
    (image : Image w) (s : Store w) :
    managerStep image s op = some (.done, uDestroyHandle image s hndl) := by
  cases op <;> simp only [ManagerOp.destroyed, Option.some.injEq, reduceCtorEq] at destroys <;>
    subst destroys <;> rfl

theorem destroy_of_contains {image : Image w} {hndl : Word w}
    (contains : ugcHandleStoreContains image.toLayout hndl = true) (s : Store w) :
    uDestroyHandle image s hndl =
      ugcHandleDestroyAt s (ugcHandleIndex image.toLayout hndl).toNat :=
  if_pos contains

theorem destroy_of_not_contains {image : Image w} {hndl : Word w}
    (outside : ¬ ugcHandleStoreContains image.toLayout hndl = true) (s : Store w) :
    uDestroyHandle image s hndl = s :=
  if_neg outside

theorem destroy_slot (image : Image w) (s : Store w) {idx : Nat} (inside : idx < ugcHandleCount) :
    uDestroyHandle image s (slotAddress image.toLayout idx) = ugcHandleDestroyAt s idx := by
  rw [destroy_of_contains (contains_slot image.toLayout inside), index_slot image.toLayout inside]

theorem slot_at_slot (l : Layout w) {idx : Nat} (inside : idx < ugcHandleCount) :
    slotAt l (slotAddress l idx) = some idx := by
  simp [slotAt, contains_slot l inside, index_slot l inside]

theorem slot_at_outside {l : Layout w} {pointer : Word w}
    (outside : ¬ ugcHandleStoreContains l pointer = true) : slotAt l pointer = none := by
  simp [slotAt, outside]

theorem index_of_slot (image : Image w) {idx : Nat} (inside : idx < ugcHandleCount) :
    indexOf image (slotAddress image.toLayout idx) = some idx := by
  simp [indexOf, index_slot image.toLayout inside, inside]

theorem cell_at_handle (image : Image w) {idx : Nat} (inside : idx < ugcHandleCount) :
    cellAt image (slotAddress image.toLayout idx) = some (.handle idx) := by
  rw [cellAt, slot_at_slot image.toLayout inside]

theorem cell_at_dependent (image : Image w) {idx : Nat} (inside : idx < ugcHandleCount) :
    cellAt image (ugcHandleDependentSlotAt image idx) = some (.dependent idx) := by
  have own := (contains_iff image.dependents _).mp (contains_slot image.dependents inside)
  have outside :
      ¬ ugcHandleStoreContains image.toLayout (slotAddress image.dependents idx) = true := by
    rw [contains_iff]
    have apart := image.apart
    simp only [Image.dependents] at own ⊢
    omega
  rw [cellAt, ugcHandleDependentSlotAt, slot_at_outside outside,
    slot_at_slot image.dependents inside]
  rfl

theorem slot_address_ne_null (image : Image w) {idx : Nat} (inside : idx < ugcHandleCount) :
    slotAddress image.toLayout idx ≠ 0#w := by
  intro null
  have address := slot_address_exact image.toLayout inside
  have positive := image.handles_pos
  rw [null, BitVec.toNat_zero] at address
  omega

/- The calls on the handle of a slot, in terms of the slot. -/
section OnSlot
variable (image : Image w) (s : Store w) {idx : Nat} (inside : idx < ugcHandleCount)
include inside

theorem duplicate_slot : createDuplicateHandle image s (slotAddress image.toLayout idx) =
    some (createHandleOfType image s (s.handles idx) (s.types idx)) := by
  simp [createDuplicateHandle, slot_address_ne_null image inside, cell_at_handle image inside,
    uGetHandleType, index_of_slot image inside, ugcHandleGetTypeAt, Store.read]

theorem set_extra_info_slot (type : Int) (extraInfo : Word w) :
    setExtraInfoForHandle image s (slotAddress image.toLayout idx) type extraInfo =
      some (ugcHandleSetExtraAt (ugcHandleSetTypeAt s idx type) idx extraInfo) := by
  simp [setExtraInfoForHandle, uSetHandleType, uSetHandleExtraInfo, index_of_slot image inside]

theorem get_extra_info_slot :
    getExtraInfoFromHandle image s (slotAddress image.toLayout idx) = some (s.extra idx) := by
  simp [getExtraInfoFromHandle, uGetHandleExtraInfo, index_of_slot image inside,
    ugcHandleGetExtraAt]

theorem store_object_slot (object : Word w) :
    storeObjectInHandle image s (slotAddress image.toLayout idx) object =
      some (ugcHandleSlotStore s object (.handle idx)) := by
  simp [storeObjectInHandle, cell_at_handle image inside]

theorem store_if_null_slot (object : Word w) :
    storeObjectInHandleIfNull image s (slotAddress image.toLayout idx) object =
      some (ugcHandleSlotStoreIfNull s (.handle idx) object) := by
  simp [storeObjectInHandleIfNull, cell_at_handle image inside]

theorem set_dependent_slot (object : Word w) :
    setDependentHandleSecondary image s (slotAddress image.toLayout idx) object =
      some (ugcHandleSetDependentAt s idx object) := by
  simp [setDependentHandleSecondary, uSetDependentHandle, index_of_slot image inside]

theorem get_dependent_slot :
    getDependentHandleSecondary image s (slotAddress image.toLayout idx) =
      some (s.dependent idx) := by
  simp [getDependentHandleSecondary, uGetDependentHandle, index_of_slot image inside,
    cell_at_dependent image inside, Store.read]

theorem compare_exchange_slot (object oldObject : Word w) :
    interlockedCompareExchangeObjectInHandle image s (slotAddress image.toLayout idx) object
      oldObject = some (ugcHandleSlotCas s (.handle idx) object oldObject) := by
  simp [interlockedCompareExchangeObjectInHandle, cell_at_handle image inside]

theorem fetch_type_slot :
    handleFetchType image s (slotAddress image.toLayout idx) = some (s.types idx) := by
  simp [handleFetchType, uGetHandleType, index_of_slot image inside, ugcHandleGetTypeAt]

end OnSlot

end UgcHandleManager
