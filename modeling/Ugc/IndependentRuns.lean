import Mathlib.Data.List.Perm.Basic
import Ugc.StepRuns

/-!
Machines whose events belong to components. Where an event sees and changes nothing but
its own component, each component runs as if it were alone; where events of different
components can be exchanged, two orders of the same events come to the same. Nothing
below names a particular machine.
-/
namespace IndependentRuns
open StepRuns
variable {S E R κ : Type*} {step : S → E → R × S} {key : E → Option κ}

def next (step : S → E → R × S) (s : S) (e : E) : S := (step s e).2

/-- The events of a run, each with its answer. -/
def answered (step : S → E → R × S) : S → List E → List (E × R)
  | _, [] => []
  | s, e :: es => (e, (step s e).1) :: answered step (next step s e) es

theorem answered_append (s : S) (first second : List E) :
    answered step s (first ++ second) =
      answered step s first ++ answered step (run (next step) s first) second := by
  induction first generalizing s with
  | nil => rfl
  | cons e first ih => exact congrArg (List.cons _) (ih (next step s e))

theorem answered_events (s : S) (es : List E) : (answered step s es).map Prod.fst = es := by
  induction es generalizing s with
  | nil => rfl
  | cons e es ih => exact congrArg (List.cons e) (ih (next step s e))

def Apart (key : E → Option κ) (e f : E) : Prop := ∀ k, key e = some k → key f ≠ some k

theorem apart_symm {e f : E} (apart : Apart key e f) : Apart key f e :=
  fun k own same => apart k same own

/-- Events of different components can be exchanged, up to a relation on the states. -/
structure Exchanges (step : S → E → R × S) (key : E → Option κ) (alike : S → S → Prop) :
    Prop where
  equivalence : Equivalence alike
  congr : ∀ {s t : S}, alike s t → ∀ e,
    (step s e).1 = (step t e).1 ∧ alike (step s e).2 (step t e).2
  answer : ∀ s {e f : E}, Apart key e f → (step (next step s e) f).1 = (step s f).1
  order : ∀ s {e f : E}, Apart key e f →
    alike (next step (next step s e) f) (next step (next step s f) e)

theorem alike_agree {alike : S → S → Prop} (exchanges : Exchanges step key alike) {s t : S}
    (same : alike s t) (es : List E) :
    answered step s es = answered step t es ∧
      alike (run (next step) s es) (run (next step) t es) := by
  induction es generalizing s t with
  | nil => exact ⟨rfl, same⟩
  | cons e es ih =>
    obtain ⟨answer, after⟩ := exchanges.congr same e
    obtain ⟨later, final⟩ := ih after
    rw [answered, answered, answer]
    exact ⟨congrArg (List.cons _) later, final⟩

/-- Moved to the front, an event has the answer it had, and so have the others. -/
theorem moved_front {alike : S → S → Prop} (exchanges : Exchanges step key alike) {e : E}
    {front : List E} (apart : ∀ f ∈ front, Apart key f e) (s : S) :
    (step (run (next step) s front) e).1 = (step s e).1 ∧
      answered step s front = answered step (next step s e) front ∧
      alike (next step (run (next step) s front) e) (run (next step) (next step s e) front) := by
  induction front generalizing s with
  | nil => exact ⟨rfl, rfl, exchanges.equivalence.refl _⟩
  | cons f front ih =>
    obtain ⟨first, others⟩ := List.forall_mem_cons.mp apart
    obtain ⟨answer, rest, final⟩ := ih others (next step s f)
    obtain ⟨again, swapped⟩ := alike_agree exchanges (exchanges.order s first) front
    have same := exchanges.answer s (apart_symm first)
    refine ⟨answer.trans (exchanges.answer s first), ?_, ?_⟩
    · rw [answered, answered, same, rest, again]
    · exact exchanges.equivalence.trans final swapped

section Components
variable [DecidableEq κ]

/-- The events of one component. -/
def part (key : E → Option κ) (k : κ) (es : List E) : List E :=
  es.filter fun e => key e = some k

theorem part_own {k : κ} {e : E} (own : key e = some k) (es : List E) :
    part key k (e :: es) = e :: part key k es := List.filter_cons_of_pos (by simpa using own)

theorem part_other {k : κ} {e : E} (other : key e ≠ some k) (es : List E) :
    part key k (e :: es) = part key k es := List.filter_cons_of_neg (by simpa using other)

theorem part_append (k : κ) (first second : List E) :
    part key k (first ++ second) = part key k first ++ part key k second := List.filter_append _ _

/-- The components of a state, of which an event sees and changes its own. -/
structure Isolated {C : Type*} (step : S → E → R × S) (key : E → Option κ) (view : S → κ → C) :
    Prop where
  own : ∀ s t e k, key e = some k → view s k = view t k →
    (step s e).1 = (step t e).1 ∧ view (step s e).2 k = view (step t e).2 k
  other : ∀ s e k, key e ≠ some k → view (step s e).2 k = view s k

section Alone
variable {C : Type*} {view : S → κ → C} (isolated : Isolated step key view) {k : κ}
include isolated

/-- A component runs as it does without the events of the others. -/
theorem alone {s t : S} (same : view s k = view t k) (es : List E) :
    part (key ∘ Prod.fst) k (answered step s es) = answered step t (part key k es) ∧
      view (run (next step) s es) k = view (run (next step) t (part key k es)) k := by
  induction es generalizing s t with
  | nil => exact ⟨rfl, same⟩
  | cons e es ih =>
    by_cases own : key e = some k
    · have mine : (key ∘ Prod.fst) (e, (step s e).1) = some k := own
      obtain ⟨answer, after⟩ := isolated.own s t e k own same
      obtain ⟨later, final⟩ := ih after
      rw [part_own own, answered, part_own mine, answered, answer]
      exact ⟨congrArg (List.cons _) later, final⟩
    · have others : (key ∘ Prod.fst) (e, (step s e).1) ≠ some k := own
      rw [part_other own, answered, part_other others]
      exact ih ((isolated.other s e k own).trans same)

theorem isolated_agree {s t : S} (same : view s k = view t k) {es fs : List E}
    (parts : part key k es = part key k fs) :
    part (key ∘ Prod.fst) k (answered step s es) =
        part (key ∘ Prod.fst) k (answered step t fs) ∧
      view (run (next step) s es) k = view (run (next step) t fs) k := by
  obtain ⟨first, one⟩ := alone isolated same es
  obtain ⟨second, other⟩ := alone isolated (rfl : view t k = view t k) fs
  rw [parts] at first one
  exact ⟨first.trans second.symm, one.trans other.symm⟩

end Alone

/-- The same events in an order that keeps the order of each component. -/
structure Reordered (key : E → Option κ) (es fs : List E) : Prop where
  perm : es.Perm fs
  parts : ∀ k, part key k es = part key k fs

theorem reordered_symm {es fs : List E} (reordered : Reordered key es fs) :
    Reordered key fs es := ⟨reordered.perm.symm, fun k => (reordered.parts k).symm⟩

theorem reordered_trans {es fs gs : List E} (first : Reordered key es fs)
    (second : Reordered key fs gs) : Reordered key es gs :=
  ⟨first.perm.trans second.perm, fun k => (first.parts k).trans (second.parts k)⟩

theorem reordered_cons (e : E) {es fs : List E} (reordered : Reordered key es fs) :
    Reordered key (e :: es) (e :: fs) where
  perm := reordered.perm.cons e
  parts k := by
    by_cases own : key e = some k
    · rw [part_own own, part_own own, reordered.parts k]
    · rw [part_other own, part_other own, reordered.parts k]

theorem reordered_of_cons {e : E} {es fs : List E}
    (reordered : Reordered key (e :: es) (e :: fs)) : Reordered key es fs where
  perm := (List.perm_cons e).mp reordered.perm
  parts k := by
    have parts := reordered.parts k
    by_cases own : key e = some k
    · rw [part_own own, part_own own] at parts
      exact (List.cons.inj parts).2
    · rwa [part_other own, part_other own] at parts

theorem part_apart {k : κ} {e : E} {es : List E} (apart : ∀ f ∈ es, Apart key f e)
    (own : key e = some k) : part key k es = [] := by
  refine List.filter_eq_nil_iff.mpr fun f member => ?_
  have other : key f ≠ some k := fun same => apart f member k same own
  simpa using other

/-- An event that belongs to no component of those before it comes to the front. -/
theorem reordered_front {e : E} {front back : List E} (apart : ∀ f ∈ front, Apart key f e) :
    Reordered key (front ++ e :: back) (e :: (front ++ back)) where
  perm := List.perm_middle
  parts k := by
    by_cases own : key e = some k
    · rw [part_append, part_own own, part_own own, part_append, part_apart apart own]
      rfl
    · rw [part_append, part_other own, part_other own, part_append]

theorem exists_front {e : E} {es fs : List E} (reordered : Reordered key (e :: es) fs) :
    ∃ front back, fs = front ++ e :: back ∧ ∀ f ∈ front, Apart key f e := by
  cases own : key e with
  | none =>
    obtain ⟨front, back, rfl⟩ :=
      List.append_of_mem (reordered.perm.mem_iff.mp List.mem_cons_self)
    refine ⟨front, back, rfl, fun f _ k _ same => ?_⟩
    cases own.symm.trans same
  | some k =>
    have parts := reordered.parts k
    rw [part_own own] at parts
    obtain ⟨front, back, rfl, others, -⟩ := List.filter_eq_cons_iff.mp parts.symm
    refine ⟨front, back, rfl, fun f member j mine same => ?_⟩
    cases own.symm.trans same
    exact others f member (by simpa using mine)

/-- Two orders of the same events that agree on each component come to the same. -/
theorem orders_agree {alike : S → S → Prop} (exchanges : Exchanges step key alike) {s t : S}
    (same : alike s t) {es fs : List E} (reordered : Reordered key es fs) :
    Reordered (key ∘ Prod.fst) (answered step s es) (answered step t fs) ∧
      alike (run (next step) s es) (run (next step) t fs) := by
  induction es generalizing s t fs with
  | nil =>
    obtain rfl := reordered.perm.nil_eq
    exact ⟨⟨.nil, fun _ => rfl⟩, same⟩
  | cons e es ih =>
    obtain ⟨front, back, rfl, apart⟩ := exists_front reordered
    have rest := reordered_of_cons (reordered_trans reordered (reordered_front apart))
    obtain ⟨first, after⟩ := exchanges.congr same e
    obtain ⟨later, final⟩ := ih after rest
    obtain ⟨answer, kept, moved⟩ := moved_front exchanges apart t
    obtain ⟨others, ended⟩ := alike_agree exchanges moved back
    constructor
    · have clear : ∀ f ∈ answered step (next step t e) front,
          Apart (key ∘ Prod.fst) f (e, (step t e).1) := by
        intro f member k own
        refine apart f.1 ?_ k own
        exact answered_events (next step t e) front ▸ List.mem_map_of_mem member
      have whole : answered step t (front ++ e :: back) =
          answered step (next step t e) front ++ (e, (step t e).1) ::
            answered step (run (next step) (next step t e) front) back := by
        rw [answered_append, answered, answer, kept, others]
      have split : answered step (next step t e) (front ++ back) = _ := answered_append _ _ _
      rw [whole, answered, first]
      exact reordered_trans (reordered_cons _ (split ▸ later))
        (reordered_symm (reordered_front clear))
    · rw [run_append] at final ⊢
      exact exchanges.equivalence.trans final (exchanges.equivalence.symm ended)

end Components

end IndependentRuns
