import Ugc.HandleStore

/-!
Handles as machine words. A handle is the address of a slot of `ugc_handles`, an
array placed anywhere in the address space that it fits in. Membership compares
addresses, the index is a wrapping subtraction and a division: both are exact on
every word, and the address of a slot converts back to its index.
-/
namespace UgcHandleAddresses
open UgcAllocator UgcHandleStore
variable {w : Nat}

structure Layout (w : Nat) where
  slotSize : Nat
  handles : Word w
  slot_pos : 0 < slotSize
  handles_end : handles.toNat + ugcHandleCount * slotSize < 2 ^ w

def ugcHandleStoreContains (l : Layout w) (hndl : Word w) : Bool :=
  let handleStart := l.handles
  let handleEnd := handleStart + BitVec.ofNat w (ugcHandleCount * l.slotSize)
  decide (hndl ≥ handleStart) && decide (hndl < handleEnd)

def ugcHandleIndex (l : Layout w) (hndl : Word w) : Word w :=
  (hndl - l.handles) / BitVec.ofNat w l.slotSize

/-- The address `&ugc_handles[idx]`. -/
def slotAddress (l : Layout w) (idx : Nat) : Word w :=
  l.handles + BitVec.ofNat w (idx * l.slotSize)

theorem offset_exact {l : Layout w} {idx : Nat} (inside : idx ≤ ugcHandleCount) :
    (l.handles + BitVec.ofNat w (idx * l.slotSize)).toNat =
      l.handles.toNat + idx * l.slotSize := by
  have scaled := Nat.mul_le_mul_right l.slotSize inside
  have bound := l.handles_end
  have small : (BitVec.ofNat w (idx * l.slotSize)).toNat = idx * l.slotSize :=
    BitVec.toNat_ofNat _ _ ▸ Nat.mod_eq_of_lt (by omega)
  rw [BitVec.toNat_add_of_lt (by omega), small]

theorem slot_address_exact (l : Layout w) {idx : Nat} (inside : idx < ugcHandleCount) :
    (slotAddress l idx).toNat = l.handles.toNat + idx * l.slotSize :=
  offset_exact (Nat.le_of_lt inside)

theorem contains_iff (l : Layout w) (hndl : Word w) :
    ugcHandleStoreContains l hndl = true ↔ l.handles.toNat ≤ hndl.toNat ∧
      hndl.toNat < l.handles.toNat + ugcHandleCount * l.slotSize := by
  have stop := offset_exact (l := l) (Nat.le_refl ugcHandleCount)
  simp only [ugcHandleStoreContains, Bool.and_eq_true, decide_eq_true_eq, ge_iff_le,
    BitVec.le_def, BitVec.lt_def, stop]

theorem index_exact {l : Layout w} {hndl : Word w} (above : l.handles.toNat ≤ hndl.toNat) :
    (ugcHandleIndex l hndl).toNat = (hndl.toNat - l.handles.toNat) / l.slotSize := by
  have bound := l.handles_end
  have one : 1 * l.slotSize ≤ ugcHandleCount * l.slotSize :=
    Nat.mul_le_mul_right l.slotSize (by decide)
  have small : (BitVec.ofNat w l.slotSize).toNat = l.slotSize :=
    BitVec.toNat_ofNat _ _ ▸ Nat.mod_eq_of_lt (by omega)
  rw [ugcHandleIndex, BitVec.toNat_udiv, BitVec.toNat_sub_of_le (BitVec.le_def.mpr above), small]

theorem index_lt {l : Layout w} {hndl : Word w} (contains : ugcHandleStoreContains l hndl = true) :
    (ugcHandleIndex l hndl).toNat < ugcHandleCount := by
  obtain ⟨above, below⟩ := (contains_iff l hndl).mp contains
  rw [index_exact above]
  apply Nat.div_lt_of_lt_mul
  rw [Nat.mul_comm]
  omega

theorem contains_slot (l : Layout w) {idx : Nat} (inside : idx < ugcHandleCount) :
    ugcHandleStoreContains l (slotAddress l idx) = true := by
  have scaled : (idx + 1) * l.slotSize ≤ ugcHandleCount * l.slotSize :=
    Nat.mul_le_mul_right l.slotSize inside
  rw [Nat.succ_mul] at scaled
  have positive := l.slot_pos
  rw [contains_iff, slot_address_exact l inside]
  omega

theorem index_slot (l : Layout w) {idx : Nat} (inside : idx < ugcHandleCount) :
    (ugcHandleIndex l (slotAddress l idx)).toNat = idx := by
  have address := slot_address_exact l inside
  rw [index_exact (by omega), address, Nat.add_sub_cancel_left, Nat.mul_div_cancel _ l.slot_pos]

theorem slot_address_inj {l : Layout w} {i j : Nat} (hi : i < ugcHandleCount)
    (hj : j < ugcHandleCount) (same : slotAddress l i = slotAddress l j) : i = j := by
  rw [← index_slot l hi, same, index_slot l hj]

end UgcHandleAddresses
