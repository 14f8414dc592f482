import Mathlib.Data.List.Pairwise
import Mathlib.Data.Set.Basic
import Ugc.StepRuns

/-!
Contracts of C functions: what a call requires, the locations it may assign, what it
ensures, and behaviours that say more of complete and disjoint cases. A run of calls is
judged by the contracts alone, whatever meets them; nothing below names a program.
-/
namespace Contracts
open StepRuns
variable {S R L E : Type*}

structure Behavior (S R L : Type*) where
  assumes : S → Prop
  assigns : Set L
  ensures : S → R → S → Prop

structure Contract (S R L : Type*) where
  requires : S → Prop
  assigns : Set L
  ensures : S → R → S → Prop
  behaviors : List (Behavior S R L)

/-- All locations that may not be assigned are as before. -/
def Kept (same : L → S → S → Prop) (assigns : Set L) (s t : S) : Prop :=
  ∀ l, l ∉ assigns → same l s t

/-- A call from `s` that returned `r` and led to `t` has kept the contract. -/
structure Fulfils (same : L → S → S → Prop) (c : Contract S R L) (s : S) (r : R) (t : S) :
    Prop where
  assigned : Kept same c.assigns s t
  ensured : c.ensures s r t
  behaved : ∀ b ∈ c.behaviors, b.assumes s → Kept same b.assigns s t ∧ b.ensures s r t
  complete : c.behaviors = [] ∨ ∃ b ∈ c.behaviors, b.assumes s
  disjoint : c.behaviors.Pairwise fun b d => ¬ (b.assumes s ∧ d.assumes s)

def Meets (same : L → S → S → Prop) (f : S → R × S) (c : Contract S R L) : Prop :=
  ∀ s, c.requires s → Fulfils same c s (f s).1 (f s).2

variable {same : L → S → S → Prop} {c : Contract S R L} {s t : S} {r : R}

theorem kept_any (s t : S) : Kept same Set.univ s t := fun _ outside => absurd trivial outside

theorem kept_refl (refl : ∀ l s, same l s s) (assigns : Set L) (s : S) :
    Kept same assigns s s := fun l _ => refl l s

theorem kept_less {few many : Set L} (kept : Kept same few s t) (fewer : few ⊆ many) :
    Kept same many s t := fun l outside => kept l fun inside => outside (fewer inside)

theorem kept_trans (trans : ∀ l s t u, same l s t → same l t u → same l s u) {first second : Set L}
    {u : S} (kept : Kept same first s t) (next : Kept same second t u) :
    Kept same (first ∪ second) s u := fun l outside =>
  trans l s t u (kept l fun inside => outside (Or.inl inside))
    (next l fun inside => outside (Or.inr inside))

/-- A contract without behaviours is kept by its frame and its postcondition. -/
theorem fulfils_plain (plain : c.behaviors = []) (assigned : Kept same c.assigns s t)
    (ensured : c.ensures s r t) : Fulfils same c s r t where
  assigned := assigned
  ensured := ensured
  behaved _ member _ := absurd (plain ▸ member) List.not_mem_nil
  complete := Or.inl plain
  disjoint := plain ▸ List.Pairwise.nil

theorem assumed_once {b d : Behavior S R L}
    (disjoint : c.behaviors.Pairwise fun b d => ¬ (b.assumes s ∧ d.assumes s))
    (here : b ∈ c.behaviors) (there : d ∈ c.behaviors) (assumed : b.assumes s)
    (also : d.assumes s) : d = b := by
  by_contra apart
  have symmetric : Std.Symm fun b d : Behavior S R L => ¬ (b.assumes s ∧ d.assumes s) :=
    ⟨fun _ _ none both => none both.symm⟩
  exact disjoint.forall there here apart ⟨also, assumed⟩

/-- With disjoint behaviours it is enough to look at the one in force. -/
theorem fulfils_case {b : Behavior S R L}
    (disjoint : c.behaviors.Pairwise fun b d => ¬ (b.assumes s ∧ d.assumes s))
    (here : b ∈ c.behaviors) (assumed : b.assumes s) (assigned : Kept same c.assigns s t)
    (ensured : c.ensures s r t) (kept : Kept same b.assigns s t) (ensures : b.ensures s r t) :
    Fulfils same c s r t where
  assigned := assigned
  ensured := ensured
  behaved d there also := by
    rw [assumed_once disjoint here there assumed also]
    exact ⟨kept, ensures⟩
  complete := Or.inr ⟨b, here, assumed⟩
  disjoint := disjoint

/-- Of the behaviours of a contract exactly one is in force at each call. -/
theorem one_behavior (fulfils : Fulfils same c s r t) (some : c.behaviors ≠ []) :
    ∃! b, b ∈ c.behaviors ∧ b.assumes s := by
  obtain ⟨b, here, assumed⟩ := fulfils.complete.resolve_left some
  exact ⟨b, ⟨here, assumed⟩, fun d other =>
    assumed_once fulfils.disjoint here other.1 assumed other.2⟩

/-- What the contracts alone preserve holds in every run that meets them, and so does
    every contract at every call. -/
theorem run_contracts {step : S → E → R × S} {contract : E → Contract S R L} (inv : S → Prop)
    {allowed : S → E → Prop} (meets : ∀ e, Meets same (fun s => step s e) (contract e))
    (needs : ∀ s e, inv s → allowed s e → (contract e).requires s)
    (keeps : ∀ s e r t, inv s → Fulfils same (contract e) s r t → inv t) {s : S} {es : List E}
    (start : inv s) (admitted : Admitted (fun s e => (step s e).2) allowed s es) :
    inv (run (fun s e => (step s e).2) s es) ∧ Admitted (fun s e => (step s e).2) (fun s e =>
      (contract e).requires s ∧ Fulfils same (contract e) s (step s e).1 (step s e).2) s es := by
  have next : ∀ s e, inv s → allowed s e → inv (step s e).2 := fun s e holds ok =>
    keeps s e _ _ holds (meets e s (needs s e holds ok))
  refine ⟨invariant_run inv next start admitted, admitted_under inv next ?_ start admitted⟩
  intro s e holds ok
  have required := needs s e holds ok
  exact ⟨required, meets e s required⟩

end Contracts
