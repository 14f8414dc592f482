import Mathlib.Algebra.BigOperators.Group.Finset.Basic
import Mathlib.Algebra.Ring.Defs
import Ugc.StepRuns

/-!
Quantities accumulated along a run: every event is weighed in the state it
meets and the weights are added up. An invariant between the state and the
amount accumulated so far, or a relation between the weights of each step, is
carried to the whole run; nothing below names a particular machine.
-/
namespace RunTallies
open StepRuns
variable {S E A B κ : Type*} {step : S → E → S}

def tally [Add A] [Zero A] (step : S → E → S) (weight : S → E → A) : S → List E → A
  | _, [] => 0
  | s, e :: es => weight s e + tally step weight (step s e) es

theorem tally_append [AddMonoid A] (weight : S → E → A) (s : S) (first second : List E) :
    tally step weight s (first ++ second) =
      tally step weight s first + tally step weight (run step s first) second := by
  induction first generalizing s with
  | nil => simp [tally, run]
  | cons e first ih => simp only [List.cons_append, tally, run, ih, add_assoc]

theorem tally_invariant_from [AddMonoid A] {ok : S → E → Prop} {weight : S → E → A}
    (inv : S → A → Prop)
    (keeps : ∀ s e a, inv s a → ok s e → inv (step s e) (a + weight s e)) {s : S} {a : A}
    {es : List E} (start : inv s a) (admitted : Admitted step ok s es) :
    inv (run step s es) (a + tally step weight s es) := by
  induction es generalizing s a with
  | nil => simpa only [tally, run, add_zero] using start
  | cons e es ih =>
    have next := ih (keeps s e a start admitted.1) admitted.2
    rwa [add_assoc] at next

/-- What each step keeps between the state and the amount so far holds between
    the last state and the total. -/
theorem tally_invariant [AddMonoid A] {ok : S → E → Prop} {weight : S → E → A}
    (inv : S → A → Prop)
    (keeps : ∀ s e a, inv s a → ok s e → inv (step s e) (a + weight s e)) {s : S}
    {es : List E} (start : inv s 0) (admitted : Admitted step ok s es) :
    inv (run step s es) (tally step weight s es) := by
  have total := tally_invariant_from inv keeps start admitted
  rwa [zero_add] at total

/-- A relation that addition respects, met by the weights of each step, is met by the totals. -/
theorem tally_related [AddMonoid A] [AddMonoid B] (rel : A → B → Prop) (zero : rel 0 0)
    (add : ∀ {a b c d}, rel a b → rel c d → rel (a + c) (b + d)) {left : S → E → A}
    {right : S → E → B} {s : S} {es : List E}
    (each : Admitted step (fun s e => rel (left s e) (right s e)) s es) :
    rel (tally step left s es) (tally step right s es) := by
  induction es generalizing s with
  | nil => exact zero
  | cons e es ih => exact add each.1 (ih each.2)

theorem tally_congr [AddMonoid A] {left right : S → E → A} {s : S} {es : List E}
    (each : Admitted step (fun s e => left s e = right s e) s es) :
    tally step left s es = tally step right s es :=
  tally_related Eq rfl (fun first second => first ▸ second ▸ rfl) each

/-- A measure that gains `into` and loses `out` at every step is in balance over the run. -/
theorem tally_balance [AddCommMonoid A] {ok : S → E → Prop} (measure : S → A) {into out : S → E → A}
    (balance : ∀ s e, ok s e → measure (step s e) + out s e = measure s + into s e) {s : S}
    {es : List E} (admitted : Admitted step ok s es) :
    measure (run step s es) + tally step out s es = measure s + tally step into s es := by
  induction es generalizing s with
  | nil => simp [run, tally]
  | cons e es ih =>
    have here := balance s e admitted.1
    have rest := ih admitted.2
    calc measure (run step (step s e) es) + (out s e + tally step out (step s e) es)
        = (measure (run step (step s e) es) + tally step out (step s e) es) + out s e := by
          rw [add_comm (out s e), add_assoc]
      _ = (measure (step s e) + out s e) + tally step into (step s e) es := by
          rw [rest, add_right_comm]
      _ = measure s + (into s e + tally step into (step s e) es) := by rw [here, add_assoc]

theorem tally_add [AddCommMonoid A] (left right : S → E → A) (s : S) (es : List E) :
    tally step (fun s e => left s e + right s e) s es =
      tally step left s es + tally step right s es := by
  induction es generalizing s with
  | nil => simp [tally]
  | cons e es ih => simp only [tally, ih, add_add_add_comm]

theorem tally_mul [NonUnitalNonAssocSemiring A] (weight : S → E → A) (c : A) (s : S) (es : List E) :
    tally step (fun s e => weight s e * c) s es = tally step weight s es * c := by
  induction es generalizing s with
  | nil => simp [tally]
  | cons e es ih => simp only [tally, ih, add_mul]

theorem tally_sum [AddCommMonoid A] (keys : Finset κ) (weight : κ → S → E → A) (s : S)
    (es : List E) :
    tally step (fun s e => ∑ k ∈ keys, weight k s e) s es =
      ∑ k ∈ keys, tally step (weight k) s es := by
  induction es generalizing s with
  | nil => simp [tally]
  | cons e es ih => simp only [tally, ih, Finset.sum_add_distrib]

end RunTallies
