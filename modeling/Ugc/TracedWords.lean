import Mathlib.Algebra.Group.Nat.Defs

/-!
Machine words whose sums and differences are recorded. A computation returns its
value and the operations it has executed, in order; an operation is exact when
its result is the one of unbounded integers. A pointer difference is formed as a
signed number of the same width. Nothing below names a particular program.
-/
namespace TracedWords
variable {w : Nat} {A B : Type}

inductive Operation (w : Nat) where
  | add (x y : BitVec w)
  | sub (x y : BitVec w)
  | ptrdiff (x y : BitVec w)
  deriving DecidableEq, Repr

def Operation.Exact : Operation w → Prop
  | .add x y => x.toNat + y.toNat < 2 ^ w
  | .sub x y => y.toNat ≤ x.toNat
  | .ptrdiff x y => y.toNat ≤ x.toNat

/-- A pointer difference is also exact as the signed number the target forms it in. -/
def Operation.SignedExact : Operation w → Prop
  | .ptrdiff x y => (x - y).toInt = (x.toNat : Int) - y.toNat
  | _ => True

structure Traced (w : Nat) (A : Type) where
  value : A
  ops : List (Operation w)

instance : Monad (Traced w) where
  pure a := ⟨a, []⟩
  bind x f := ⟨(f x.value).value, x.ops ++ (f x.value).ops⟩

def plus (x y : BitVec w) : Traced w (BitVec w) := ⟨x + y, [.add x y]⟩
def minus (x y : BitVec w) : Traced w (BitVec w) := ⟨x - y, [.sub x y]⟩
def pointerDifference (x y : BitVec w) : Traced w (BitVec w) := ⟨x - y, [.ptrdiff x y]⟩

@[simp] theorem pure_value (a : A) : (pure a : Traced w A).value = a := rfl

@[simp] theorem bind_value (x : Traced w A) (f : A → Traced w B) :
    (x >>= f).value = (f x.value).value := rfl

theorem bind_after {x : Traced w A} {f g : A → Traced w B} (same : f x.value = g x.value) :
    (x >>= f) = (x >>= g) := by
  change Traced.mk _ _ = Traced.mk _ _
  rw [same]

@[simp] theorem plus_value (x y : BitVec w) : (plus x y).value = x + y := rfl
@[simp] theorem minus_value (x y : BitVec w) : (minus x y).value = x - y := rfl

@[simp] theorem pointer_difference_value (x y : BitVec w) :
    (pointerDifference x y).value = x - y := rfl

/-- Every operation executed satisfies p. -/
def Every (p : Operation w → Prop) (x : Traced w A) : Prop := ∀ op ∈ x.ops, p op

theorem every_pure (p : Operation w → Prop) (a : A) : Every p (pure a : Traced w A) :=
  fun _ member => absurd member List.not_mem_nil

theorem every_bind {p : Operation w → Prop} {x : Traced w A} {f : A → Traced w B}
    (first : Every p x) (second : Every p (f x.value)) : Every p (x >>= f) := by
  intro op member
  rcases List.mem_append.mp member with early | late
  · exact first op early
  · exact second op late

theorem every_ite {p : Operation w → Prop} {c : Prop} [Decidable c] {x y : Traced w A}
    (pos : c → Every p x) (neg : ¬ c → Every p y) : Every p (if c then x else y) := by
  split
  · exact pos ‹c›
  · exact neg ‹¬ c›

theorem every_plus {p : Operation w → Prop} {x y : BitVec w} (holds : p (.add x y)) :
    Every p (plus x y) := fun _ member => List.mem_singleton.mp member ▸ holds

theorem every_minus {p : Operation w → Prop} {x y : BitVec w} (holds : p (.sub x y)) :
    Every p (minus x y) := fun _ member => List.mem_singleton.mp member ▸ holds

theorem every_difference {p : Operation w → Prop} {x y : BitVec w} (holds : p (.ptrdiff x y)) :
    Every p (pointerDifference x y) := fun _ member => List.mem_singleton.mp member ▸ holds

/-- A difference below half of the address space is exact as a signed number. -/
theorem ptrdiff_signed {x y : BitVec w} (le : y.toNat ≤ x.toNat)
    (half : 2 * (x.toNat - y.toNat) < 2 ^ w) : (Operation.ptrdiff x y).SignedExact := by
  have difference : (x - y).toNat = x.toNat - y.toNat :=
    BitVec.toNat_sub_of_le (BitVec.le_def.mpr le)
  have value := BitVec.toInt_eq_toNat_cond (x - y)
  unfold Operation.SignedExact
  rw [difference, if_pos half] at value
  omega

end TracedWords
