import Mathlib.Order.Interval.Finset.Nat
import Ugc.ByteExtents

/-!
The bytes that a list of ranges holds together. Ranges that are apart take up no less room
than they hold, so within bounds their total is bounded.
-/
namespace ExtentTotals
open ByteExtents
variable {e : Extent} {extents : List Extent} {low high : Nat}

def total : List Extent → Nat
  | [] => 0
  | e :: extents => e.size + total extents

@[simp] theorem total_cons (start size : Nat) (extents : List Extent) :
    total (⟨start, size⟩ :: extents) = size + total extents := rfl

def covered : List Extent → Finset Nat
  | [] => ∅
  | e :: extents => Finset.Ico e.start e.stop ∪ covered extents

theorem mem_covered {p : Nat} : p ∈ covered extents ↔ ∃ e ∈ extents, e.Holds p := by
  induction extents with
  | nil => simp [covered]
  | cons e extents ih => simp [covered, ih, Extent.Holds]

theorem card_covered (apart : extents.Pairwise Extent.Apart) :
    (covered extents).card = total extents := by
  induction extents with
  | nil => rfl
  | cons e extents ih =>
    obtain ⟨first, rest⟩ := List.pairwise_cons.mp apart
    have disjoint : Disjoint (Finset.Ico e.start e.stop) (covered extents) := by
      rw [Finset.disjoint_left]
      intro p here there
      obtain ⟨f, member, held⟩ := mem_covered.mp there
      have h1 := Finset.mem_Ico.mp here
      have h2 := held.1; have h3 := held.2
      rcases first f member with before | after <;> omega
    rw [covered, Finset.card_union_of_disjoint disjoint, ih rest, Nat.card_Ico, total_cons]
    simp [Extent.stop]

theorem total_le_room (apart : extents.Pairwise Extent.Apart)
    (within : ∀ e ∈ extents, low ≤ e.start ∧ e.stop ≤ high) : total extents ≤ high - low := by
  rw [← card_covered apart, ← Nat.card_Ico]
  refine Finset.card_le_card fun p held => ?_
  obtain ⟨e, member, holds⟩ := mem_covered.mp held
  have bounds := within e member
  have h1 := holds.1; have h2 := holds.2
  exact Finset.mem_Ico.mpr ⟨by omega, by omega⟩

end ExtentTotals
