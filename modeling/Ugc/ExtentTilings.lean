import Ugc.ByteExtents

/-!
Ranges laid end to end: each begins where the one before it ends. Such a list is grown
at its end, covers every address between its ends, and holds no address outside.
-/
namespace ExtentTilings
open ByteExtents
variable {a z p : Nat} {e : Extent} {es fs : List Extent}

/-- The first range begins at a and the last ends at z. -/
def Tiles : Nat → List Extent → Nat → Prop
  | a, [], z => a = z
  | a, e :: es, z => e.start = a ∧ Tiles e.stop es z

theorem tiles_append : Tiles a (es ++ fs) z ↔ ∃ m, Tiles a es m ∧ Tiles m fs z := by
  induction es generalizing a with
  | nil =>
    constructor
    · intro tiles
      exact ⟨a, rfl, tiles⟩
    · rintro ⟨m, rfl, tiles⟩
      exact tiles
  | cons e es ih =>
    change (e.start = a ∧ Tiles e.stop (es ++ fs) z) ↔ ∃ m, (e.start = a ∧ Tiles e.stop es m) ∧ _
    rw [ih]
    constructor
    · rintro ⟨here, m, first, second⟩
      exact ⟨m, ⟨here, first⟩, second⟩
    · rintro ⟨m, ⟨here, first⟩, second⟩
      exact ⟨here, m, first, second⟩

theorem tiles_snoc (tiles : Tiles a es e.start) : Tiles a (es ++ [e]) e.stop :=
  tiles_append.mpr ⟨e.start, tiles, rfl, rfl⟩

theorem tiles_le (tiles : Tiles a es z) : a ≤ z := by
  induction es generalizing a with
  | nil => exact Nat.le_of_eq tiles
  | cons e es ih =>
    have rest := ih tiles.2
    have start := tiles.1
    unfold Extent.stop at rest
    omega

theorem tiles_within (tiles : Tiles a es z) : ∀ e ∈ es, a ≤ e.start ∧ e.stop ≤ z := by
  induction es generalizing a with
  | nil => exact fun e member => absurd member List.not_mem_nil
  | cons e es ih =>
    have start := tiles.1
    intro f member
    rcases List.mem_cons.mp member with rfl | later
    · exact ⟨Nat.le_of_eq start.symm, tiles_le tiles.2⟩
    · have rest := ih tiles.2 f later
      unfold Extent.stop at rest
      exact ⟨by omega, rest.2⟩

/-- No address between the ends is left out. -/
theorem tiles_hold (tiles : Tiles a es z) (low : a ≤ p) (high : p < z) :
    ∃ e ∈ es, e.Holds p := by
  induction es generalizing a with
  | nil =>
    have same : a = z := tiles
    omega
  | cons e es ih =>
    obtain ⟨start, rest⟩ := tiles
    by_cases here : p < e.stop
    · exact ⟨e, List.mem_cons_self, start ▸ low, here⟩
    · obtain ⟨f, member, holds⟩ := ih rest (Nat.le_of_not_lt here)
      exact ⟨f, List.mem_cons_of_mem e member, holds⟩

end ExtentTilings
