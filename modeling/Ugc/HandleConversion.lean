import Ugc.HandleManager

/-!
Membership and index conversion over all words: the addresses that belong to the
store are those of the bytes of `ugc_handles`, each of them has the index of the slot
that holds it, and no destroy reaches past the arrays.
-/
namespace UgcHandleConversion
open UgcAllocator UgcHandleStore UgcHandleAddresses UgcHandleManager
variable {w : Nat}

def InArray (l : Layout w) (hndl : Word w) : Prop :=
  ∃ offset < ugcHandleCount * l.slotSize, hndl.toNat = l.handles.toNat + offset

def InSlot (l : Layout w) (idx : Nat) (hndl : Word w) : Prop :=
  l.handles.toNat + idx * l.slotSize ≤ hndl.toNat ∧
    hndl.toNat < l.handles.toNat + (idx + 1) * l.slotSize

def IsHandle (l : Layout w) (hndl : Word w) : Prop :=
  ∃ idx < ugcHandleCount, hndl = slotAddress l idx

/-- The index that `uDestroyHandle` calls `ugc_handle_destroy_at` with, if it calls it. -/
def destroyedIndex (l : Layout w) (hndl : Word w) : Option Nat :=
  if ugcHandleStoreContains l hndl = true then some (ugcHandleIndex l hndl).toNat else none

theorem contains_byte (l : Layout w) (hndl : Word w) :
    ugcHandleStoreContains l hndl = true ↔ InArray l hndl := by
  rw [contains_iff]
  constructor
  · intro bounds
    exact ⟨hndl.toNat - l.handles.toNat, by omega, by omega⟩
  · rintro ⟨offset, inside, same⟩
    omega

theorem in_slot_iff (l : Layout w) (idx : Nat) (hndl : Word w) :
    InSlot l idx hndl ↔
      l.handles.toNat ≤ hndl.toNat ∧ idx = (ugcHandleIndex l hndl).toNat := by
  by_cases above : l.handles.toNat ≤ hndl.toNat
  · have quotient : (hndl.toNat - l.handles.toNat) / l.slotSize = idx ↔
        idx * l.slotSize ≤ hndl.toNat - l.handles.toNat ∧
          hndl.toNat - l.handles.toNat ≤ idx * l.slotSize + l.slotSize - 1 :=
      Nat.div_eq_iff l.slot_pos
    have positive := l.slot_pos
    rw [index_exact above, InSlot, eq_comm, quotient, Nat.succ_mul]
    omega
  · have below : ¬ InSlot l idx hndl :=
      fun slot => above (Nat.le_trans (Nat.le_add_right _ _) slot.1)
    simp only [above, below, false_and]

/-- The slot that holds a byte of the array exists and is the one of the index. -/
theorem slot_of_byte {l : Layout w} {hndl : Word w}
    (contains : ugcHandleStoreContains l hndl = true) :
    (ugcHandleIndex l hndl).toNat < ugcHandleCount ∧
      ∀ idx, InSlot l idx hndl ↔ idx = (ugcHandleIndex l hndl).toNat := by
  have above := ((contains_iff l hndl).mp contains).1
  refine ⟨index_lt contains, fun idx => ?_⟩
  rw [in_slot_iff]
  exact and_iff_right above

theorem handles_apart {l : Layout w} {first second : Word w} (one : IsHandle l first)
    (other : IsHandle l second) (same : ugcHandleIndex l first = ugcHandleIndex l second) :
    first = second := by
  obtain ⟨i, hi, rfl⟩ := one
  obtain ⟨j, hj, rfl⟩ := other
  rw [← index_slot l hi, same, index_slot l hj]

theorem destroyed_index_lt {l : Layout w} {hndl : Word w} {idx : Nat}
    (passed : destroyedIndex l hndl = some idx) : idx < ugcHandleCount := by
  obtain ⟨contains, rfl⟩ : _ ∧ (ugcHandleIndex l hndl).toNat = idx := by
    simpa [destroyedIndex] using passed
  exact index_lt contains

theorem destroy_passes (image : Image w) (s : Store w) (hndl : Word w) :
    uDestroyHandle image s hndl =
      ((destroyedIndex image.toLayout hndl).map (ugcHandleDestroyAt s)).getD s := by
  by_cases contains : ugcHandleStoreContains image.toLayout hndl = true
  · rw [destroy_of_contains contains, destroyedIndex, if_pos contains]
    rfl
  · rw [destroy_of_not_contains contains, destroyedIndex, if_neg contains]
    rfl

/-- For every width, slot size and place of the array, and for every word. -/
theorem handle_conversion_exact (l : Layout w) :
    (∀ hndl, ugcHandleStoreContains l hndl = true ↔ InArray l hndl) ∧
    (∀ hndl, InArray l hndl → (ugcHandleIndex l hndl).toNat < ugcHandleCount ∧
      ∀ idx, InSlot l idx hndl ↔ idx = (ugcHandleIndex l hndl).toNat) ∧
    (∀ idx < ugcHandleCount,
      (slotAddress l idx).toNat = l.handles.toNat + idx * l.slotSize ∧
      (ugcHandleIndex l (slotAddress l idx)).toNat = idx) ∧
    (∀ first second, IsHandle l first → IsHandle l second →
      ugcHandleIndex l first = ugcHandleIndex l second → first = second) ∧
    (∀ hndl idx, destroyedIndex l hndl = some idx → idx < ugcHandleCount) ∧
    ∀ image : Image w, image.toLayout = l → ∀ s hndl,
      uDestroyHandle image s hndl =
        ((destroyedIndex l hndl).map (ugcHandleDestroyAt s)).getD s := by
  refine ⟨contains_byte l, ?_, ?_, ?_, ?_, ?_⟩
  · intro hndl byte
    exact slot_of_byte ((contains_byte l hndl).mpr byte)
  · intro idx inside
    exact ⟨slot_address_exact l inside, index_slot l inside⟩
  · intro first second one other same
    exact handles_apart one other same
  · intro hndl idx passed
    exact destroyed_index_lt passed
  · intro image placed s hndl
    rw [destroy_passes, placed]

/-- 4-byte slots at the top of a 32-bit address space. -/
def layout32 : Layout 32 :=
  { slotSize := 4
    handles := BitVec.ofNat 32 (2 ^ 32 - 4 - ugcHandleCount * 4)
    slot_pos := by decide
    handles_end := by decide }

example : destroyedIndex layout32 0xFFFFFFFB#32 = some (ugcHandleCount - 1) ∧
    destroyedIndex layout32 0xFFFFFFFC#32 = none := by
  decide +kernel

end UgcHandleConversion
