import Mathlib.Data.List.Basic

/-!
Half-open ranges of byte addresses over unbounded Nat. Two ranges are apart
when one ends no later than the other begins, which also places empty ranges:
an empty range inside another one is not apart from it.
-/
namespace ByteExtents

structure Extent where
  start : Nat
  size : Nat
  deriving DecidableEq, Repr

def Extent.stop (e : Extent) : Nat := e.start + e.size
def Extent.Holds (e : Extent) (a : Nat) : Prop := e.start ≤ a ∧ a < e.stop
def Extent.Inside (e f : Extent) : Prop := f.start ≤ e.start ∧ e.stop ≤ f.stop
def Extent.Apart (e f : Extent) : Prop := e.stop ≤ f.start ∨ f.stop ≤ e.start

/-- The range of the same length that begins h bytes earlier. -/
def Extent.back (e : Extent) (h : Nat) : Extent := ⟨e.start - h, e.size⟩

instance (e : Extent) (a : Nat) : Decidable (e.Holds a) :=
  inferInstanceAs (Decidable (_ ∧ _))

instance (e f : Extent) : Decidable (e.Inside f) := inferInstanceAs (Decidable (_ ∧ _))

instance (e f : Extent) : Decidable (e.Apart f) := inferInstanceAs (Decidable (_ ∨ _))

@[simp] theorem stop_mk (start size : Nat) : (Extent.mk start size).stop = start + size := rfl

theorem apart_symm {e f : Extent} (apart : e.Apart f) : f.Apart e := Or.symm apart

theorem apart_of_inside {e f g k : Extent} (apart : f.Apart k) (he : e.Inside f)
    (hg : g.Inside k) : e.Apart g := by
  have h1 := he.1; have h2 := he.2; have h3 := hg.1; have h4 := hg.2
  rcases apart with before | after
  · exact Or.inl (by omega)
  · exact Or.inr (by omega)

/-- Moving two ranges down by one common distance keeps them apart. -/
theorem apart_back {e f : Extent} {h : Nat} (he : h ≤ e.start) (hf : h ≤ f.start)
    (apart : e.Apart f) : (e.back h).Apart (f.back h) := by
  simp only [Extent.Apart, Extent.back, Extent.stop] at apart ⊢
  omega

theorem back_inside {e f : Extent} {h : Nat} (low : f.start + h ≤ e.start)
    (high : e.stop ≤ f.stop) : (e.back h).Inside f := by
  simp only [Extent.Inside, Extent.back, Extent.stop] at high ⊢
  omega

/-- Overwrite every byte of a range with one value. -/
def fill {V : Type*} (e : Extent) (v : V) (bytes : Nat → V) : Nat → V :=
  fun a => if e.Holds a then v else bytes a

theorem fill_held {V : Type*} {e : Extent} {v : V} {bytes : Nat → V} {a : Nat}
    (held : e.Holds a) : fill e v bytes a = v := if_pos held

/-- Filling with v never destroys a v. -/
theorem fill_keeps {V : Type*} {e : Extent} {v : V} {bytes : Nat → V} {a : Nat}
    (already : bytes a = v) : fill e v bytes a = v := by
  simp [fill, already]

end ByteExtents
