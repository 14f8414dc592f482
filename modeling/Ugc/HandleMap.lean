import Ugc.BoundedMaps
import Ugc.HandleManager

/-!
What the handle manager is for, stated without its arrays: a finite map from
handles to records that holds at most `UGC_HANDLE_COUNT` entries, with the
handles destroyed and not handed out again. A create may return any handle that
is not in the map, and null only when the map is full; every other call reads or
changes the record of one handle.
-/
namespace UgcHandleMap
open BoundedMaps UgcAllocator UgcHandleStore UgcHandleManager
variable {w : Nat}

structure HandleMap (w : Nat) where
  map : BoundedMap (Word w) (Record w) ugcHandleCount
  retired : Set (Word w)

def HandleMap.empty : HandleMap w := ⟨.empty, ∅⟩

def HandleMap.Live (m : HandleMap w) (h : Word w) : Prop := ∃ record, m.map.lookup h = some record

def HandleMap.modify (m : HandleMap w) (h : Word w) (change : Record w → Record w) : HandleMap w :=
  { m with map := m.map.modify h change }

/-- Destroying a handle that is not in the map changes nothing. -/
def HandleMap.destroy (m : HandleMap w) (h : Word w) : HandleMap w :=
  match m.map.lookup h with
  | some _ => ⟨m.map.remove h, insert h m.retired⟩
  | none => m

def Creates (m : HandleMap w) (record : Record w) (r : Answer w) (m' : HandleMap w) : Prop :=
  (m.map.size = ugcHandleCount ∧ r = .handle 0#w ∧ m' = m) ∨
    ∃ (h : Word w) (room : m.map.size < ugcHandleCount), h ≠ 0#w ∧ m.map.lookup h = none ∧
      r = .handle h ∧ m' = ⟨m.map.add room h record, m.retired \ {h}⟩

def Reads (m : HandleMap w) (h : Word w) (view : Record w → Answer w) (r : Answer w)
    (m' : HandleMap w) : Prop :=
  ∃ record, m.map.lookup h = some record ∧ r = view record ∧ m' = m

def Changes (m : HandleMap w) (h : Word w) (change : Record w → Record w)
    (view : Record w → Answer w) (r : Answer w) (m' : HandleMap w) : Prop :=
  ∃ record, m.map.lookup h = some record ∧ r = view record ∧ m' = m.modify h change

def storeIfNull (object : Word w) (record : Record w) : Record w :=
  if record.object = 0#w then { record with object := object } else record

def compareExchange (object comparand : Word w) (record : Record w) : Record w :=
  if record.object = comparand then { record with object := object } else record

/-- What a client may call: types are not negative and handles are live, but for a null
    handle to duplicate and a handle already destroyed to destroy. -/
def Admits (m : HandleMap w) : ManagerOp w → Prop
  | .createGlobalHandleOfType _ type => 0 ≤ type
  | .createHandleOfType _ type => 0 ≤ type
  | .createHandleWithExtraInfo _ type _ => 0 ≤ type
  | .createDependentHandle _ _ => True
  | .createDuplicateHandle handle => handle = 0#w ∨ m.Live handle
  | .destroyHandleOfType handle _ => m.Live handle ∨ handle ∈ m.retired
  | .destroyHandleOfUnknownType handle => m.Live handle ∨ handle ∈ m.retired
  | .setExtraInfoForHandle handle type _ => m.Live handle ∧ 0 ≤ type
  | .getExtraInfoFromHandle handle => m.Live handle
  | .storeObjectInHandle handle _ => m.Live handle
  | .storeObjectInHandleIfNull handle _ => m.Live handle
  | .setDependentHandleSecondary handle _ => m.Live handle
  | .getDependentHandleSecondary handle => m.Live handle
  | .interlockedCompareExchangeObjectInHandle handle _ _ => m.Live handle
  | .handleFetchType handle => m.Live handle

/-- The answers and the maps that a call may lead to. A duplicate copies the object and
    the type; a compare and exchange answers with the object after it. -/
def Specified (dependentType : Int) (m : HandleMap w) : ManagerOp w → Answer w → HandleMap w → Prop
  | .createGlobalHandleOfType object type => Creates m ⟨object, type, 0#w, 0#w⟩
  | .createHandleOfType object type => Creates m ⟨object, type, 0#w, 0#w⟩
  | .createHandleWithExtraInfo object type extraInfo => Creates m ⟨object, type, extraInfo, 0#w⟩
  | .createDependentHandle primary secondary => Creates m ⟨primary, dependentType, 0#w, secondary⟩
  | .createDuplicateHandle handle => fun r m' =>
    (handle = 0#w ∧ r = .handle 0#w ∧ m' = m) ∨
      ∃ record, m.map.lookup handle = some record ∧
        Creates m ⟨record.object, record.type, 0#w, 0#w⟩ r m'
  | .destroyHandleOfType handle _ => fun r m' => r = .done ∧ m' = m.destroy handle
  | .destroyHandleOfUnknownType handle => fun r m' => r = .done ∧ m' = m.destroy handle
  | .setExtraInfoForHandle handle type extraInfo =>
    Changes m handle (fun record => { record with type := type, extra := extraInfo }) fun _ => .done
  | .getExtraInfoFromHandle handle => Reads m handle fun record => .pointer record.extra
  | .storeObjectInHandle handle object =>
    Changes m handle (fun record => { record with object := object }) fun _ => .done
  | .storeObjectInHandleIfNull handle object =>
    Changes m handle (storeIfNull object) fun record => .flag (decide (record.object = 0#w))
  | .setDependentHandleSecondary handle object =>
    Changes m handle (fun record => { record with dependent := object }) fun _ => .done
  | .getDependentHandleSecondary handle => Reads m handle fun record => .pointer record.dependent
  | .interlockedCompareExchangeObjectInHandle handle object oldObject =>
    Changes m handle (compareExchange object oldObject) fun record =>
      .pointer (compareExchange object oldObject record).object
  | .handleFetchType handle => Reads m handle fun record => .type record.type

theorem destroy_live {m : HandleMap w} {h : Word w} (live : m.Live h) :
    m.destroy h = ⟨m.map.remove h, insert h m.retired⟩ := by
  obtain ⟨record, found⟩ := live
  rw [HandleMap.destroy, found]

theorem destroy_absent {m : HandleMap w} {h : Word w} (absent : ¬ m.Live h) : m.destroy h = m := by
  cases found : m.map.lookup h with
  | none => rw [HandleMap.destroy, found]
  | some record => exact absurd ⟨record, found⟩ absent

end UgcHandleMap
