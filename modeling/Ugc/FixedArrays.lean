import Mathlib.Algebra.Ring.Int.Defs
import Mathlib.Algebra.Ring.Nat
import Mathlib.Logic.Function.Basic

/-!
Arrays of a fixed length and C's `int`. An access outside its array and a sum that an
`int` cannot hold are undefined: they have no result. An array shows a list of values
without end as far as it reaches.
-/
namespace FixedArrays
variable {n : Nat} {A B : Type*}

abbrev CInt := BitVec 32

@[irreducible] def load (array : Fin n → A) (i : Int) : Option A :=
  if inside : 0 ≤ i ∧ i < n then some (array ⟨i.toNat, (Int.toNat_lt inside.1).mpr inside.2⟩)
  else none

@[irreducible] def store (array : Fin n → A) (i : Int) (value : A) : Option (Fin n → A) :=
  if inside : 0 ≤ i ∧ i < n then
    some (Function.update array ⟨i.toNat, (Int.toNat_lt inside.1).mpr inside.2⟩ value)
  else none

/-- `x + d` on C's `int`. -/
def intPlus (x : CInt) (d : Int) : Option CInt :=
  if -2 ^ 31 ≤ x.toInt + d ∧ x.toInt + d < 2 ^ 31 then some (BitVec.ofInt 32 (x.toInt + d))
  else none

theorem int_plus_some {x : CInt} {d : Int} (low : -2 ^ 31 ≤ x.toInt + d)
    (high : x.toInt + d < 2 ^ 31) : ∃ y, intPlus x d = some y ∧ y.toInt = x.toInt + d := by
  refine ⟨_, if_pos ⟨low, high⟩, ?_⟩
  exact BitVec.toInt_ofInt_eq_self (by decide) low high

/-- A conversion to `int` keeps what it can hold. -/
theorem to_int_set_width {w : Nat} {x : BitVec w} (small : x.toNat < 2 ^ 31) :
    (x.setWidth 32).toInt = x.toNat := by
  have whole : (x.setWidth 32).toNat = x.toNat := by
    rw [BitVec.toNat_setWidth]
    exact Nat.mod_eq_of_lt (by omega)
  rw [BitVec.toInt_eq_toNat_of_lt (by omega), whole]

theorem load_inside (array : Fin n → A) {i : Nat} (inside : i < n) :
    load array i = some (array ⟨i, inside⟩) := by
  unfold load
  exact dif_pos ⟨Int.natCast_nonneg i, Int.ofNat_lt.mpr inside⟩

theorem load_outside (array : Fin n → A) {i : Nat} (outside : n ≤ i) :
    load array (i : Int) = none := by
  unfold load
  exact dif_neg fun inside => by omega

theorem store_inside (array : Fin n → A) {i : Nat} (inside : i < n) (value : A) :
    store array i value = some (Function.update array ⟨i, inside⟩ value) := by
  unfold store
  exact dif_pos ⟨Int.natCast_nonneg i, Int.ofNat_lt.mpr inside⟩

theorem store_outside (array : Fin n → A) {i : Nat} (outside : n ≤ i) (value : A) :
    store array (i : Int) value = none := by
  unfold store
  exact dif_neg fun inside => by omega

/-- The array shows these values, element by element. -/
def Shows (same : A → B → Prop) (array : Fin n → A) (values : Nat → B) : Prop :=
  ∀ i : Fin n, same (array i) (values i)

variable {same : A → B → Prop} {array : Fin n → A} {values : Nat → B}

theorem load_shows (shown : Shows same array values) {i : Nat} (inside : i < n) :
    ∃ x, load array i = some x ∧ same x (values i) :=
  ⟨_, load_inside array inside, shown ⟨i, inside⟩⟩

theorem store_shows (shown : Shows same array values) {i : Nat} (inside : i < n) {x : A} {v : B}
    (agree : same x v) :
    ∃ stored, store array i x = some stored ∧ Shows same stored (Function.update values i v) := by
  refine ⟨_, store_inside array inside x, fun j => ?_⟩
  by_cases here : j = ⟨i, inside⟩
  · rw [here, Function.update_self, Function.update_self]
    exact agree
  · have apart : (j : Nat) ≠ i := fun equal => here (Fin.ext equal)
    rw [Function.update_of_ne here, Function.update_of_ne apart]
    exact shown j

end FixedArrays
