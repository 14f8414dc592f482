import Mathlib.Data.List.Nodup
import Mathlib.Logic.Function.Basic
import Ugc.ScriptRuns

/-!
Loops that set one key for each item. A pass gives its item's key a value, which it reads
from the state; the value does not depend on the keys of the other items, and no pass
gives a key twice. Such a loop is done exactly for items with distinct keys that all get
their values, and each value is the one that the first state gives. A loop that stops has
done the same for the items before.
-/
namespace KeyedUpdates
open ScriptRuns
variable {S E K X V : Type*} [DecidableEq K]

/-- The second map gives each item the value that it gets from the first, and is the
    first map elsewhere. -/
structure Filled (key : X → K) (gives : (K → V) → X → V → Prop) (items : List X)
    (f g : K → V) : Prop where
  given : ∀ x ∈ items, gives f x (g (key x))
  others : ∀ k, (∀ x ∈ items, key x ≠ k) → g k = f k

/-- What a pass of the loop does, in terms of a view of the state. -/
structure Updates (body : X → Script S E PUnit.{1}) (view : S → K → V) (key : X → K)
    (gives : (K → V) → X → V → Prop) (items : List X) : Prop where
  sets : ∀ x ∈ items, ∀ s t, Ends (body x) s ⟨⟩ t →
    ∃ v, gives (view s) x v ∧ view t = Function.update (view s) (key x) v
  ready : ∀ x ∈ items, ∀ s v, gives (view s) x v → ∃ t, Ends (body x) s ⟨⟩ t
  apart : ∀ x ∈ items, ∀ y ∈ items, ∀ f v w, key x ≠ key y →
    (gives (Function.update f (key y) w) x v ↔ gives f x v)

/-- A key that was given is not given again. -/
def Once (key : X → K) (gives : (K → V) → X → V → Prop) : Prop :=
  ∀ x y f v w, key y = key x → gives f x v → ¬ gives (Function.update f (key x) v) y w

variable {body : X → Script S E PUnit.{1}} {view : S → K → V} {key : X → K}
  {gives : (K → V) → X → V → Prop} {items : List X} {s t : S}

theorem updates_of_subset {some : List X} (updates : Updates body view key gives items)
    (subset : some ⊆ items) : Updates body view key gives some where
  sets x member := updates.sets x (subset member)
  ready x member := updates.ready x (subset member)
  apart x here y there := updates.apart x (subset here) y (subset there)

theorem updates_tail {x : X} (updates : Updates body view key gives (x :: items)) :
    Updates body view key gives items :=
  updates_of_subset updates (List.subset_cons_self x items)

/-- What an item gets is not changed by passes over items with other keys. -/
theorem gives_after {x : X} {v : V} (updates : Updates body view key gives (items ++ [x]))
    (passes : Passes body items s t) (other : ∀ y ∈ items, key x ≠ key y) :
    gives (view t) x v ↔ gives (view s) x v := by
  induction passes with
  | nil => rfl
  | @cons y ys s t u first _ ih =>
    obtain ⟨here, others⟩ := List.forall_mem_cons.mp other
    obtain ⟨w, -, same⟩ := updates.sets y List.mem_cons_self s t first
    have kept := updates.apart x (List.mem_append_right _ List.mem_cons_self) y
      List.mem_cons_self (view s) v w here
    rw [ih (updates_tail updates) others, same, kept]

theorem passes_filled (updates : Updates body view key gives items)
    (distinct : (items.map key).Nodup) (passes : Passes body items s t) :
    Filled key gives items (view s) (view t) := by
  induction passes with
  | nil => exact ⟨fun x member => absurd member List.not_mem_nil, fun k _ => rfl⟩
  | @cons x xs s t u first others ih =>
    obtain ⟨fresh, rest⟩ := List.nodup_cons.mp distinct
    obtain ⟨v, given, same⟩ := updates.sets x List.mem_cons_self s t first
    obtain ⟨filled, kept⟩ := ih (updates_tail updates) rest
    have apart : ∀ y ∈ xs, key y ≠ key x := fun y member equal =>
      fresh (equal ▸ List.mem_map_of_mem member)
    have own : view u (key x) = v := by
      rw [kept (key x) apart, same, Function.update_self]
    constructor
    · intro y member
      rcases List.mem_cons.mp member with rfl | later
      · exact own ▸ given
      · have value := filled y later
        rw [same] at value
        exact (updates.apart y member x List.mem_cons_self _ _ _ (apart y later)).mp value
    · intro k outside
      obtain ⟨here, elsewhere⟩ := List.forall_mem_cons.mp outside
      rw [kept k elsewhere, same, Function.update_of_ne (Ne.symm here)]

theorem passes_distinct (updates : Updates body view key gives items) (once : Once key gives)
    (passes : Passes body items s t) : (items.map key).Nodup := by
  induction passes with
  | nil => exact List.nodup_nil
  | @cons x xs s t u first others ih =>
    have rest := ih (updates_tail updates)
    refine List.nodup_cons.mpr ⟨fun repeated => ?_, rest⟩
    obtain ⟨y, member, equal⟩ := List.mem_map.mp repeated
    obtain ⟨v, given, same⟩ := updates.sets x List.mem_cons_self s t first
    have again := (passes_filled (updates_tail updates) rest others).given y member
    exact once x y (view s) v _ equal given (same ▸ again)

/-- Where an item does not pass after passes over the items before it, its key is one of
    theirs or it gets no value. -/
theorem stopped_item {x : X} {e : E} {u : S} (updates : Updates body view key gives (items ++ [x]))
    (passes : Passes body items s t) (stops : Stops (body x) t e u) :
    key x ∈ items.map key ∨ ∀ v, ¬ gives (view s) x v := by
  by_cases repeated : key x ∈ items.map key
  · exact Or.inl repeated
  · refine Or.inr fun v given => ?_
    have other : ∀ y ∈ items, key x ≠ key y := fun y member equal =>
      repeated (equal ▸ List.mem_map_of_mem member)
    have still := (gives_after updates passes other).mpr given
    obtain ⟨after, ends⟩ :=
      updates.ready x (List.mem_append_right _ List.mem_cons_self) t v still
    exact not_ends_of_stops stops ends

/-- A loop that stops has passed items with distinct keys, and stops at an item whose
    key was given or that gets no value. -/
theorem for_each_stopped {e : E} (updates : Updates body view key gives items)
    (distinct : Once key gives ∨ (items.map key).Nodup)
    (stops : Stops (forEach body items) s e t) :
    ∃ done x rest u, items = done ++ x :: rest ∧ (done.map key).Nodup ∧
      Filled key gives done (view s) (view u) ∧ Stops (body x) u e t ∧
      (key x ∈ done.map key ∨ ∀ v, ¬ gives (view s) x v) := by
  obtain ⟨done, x, rest, u, rfl, passes, stopped⟩ := for_each_stops_iff.mp stops
  have front : done ⊆ done ++ x :: rest := List.subset_append_left done _
  have upTo : done ++ [x] ⊆ done ++ x :: rest := by
    simp only [List.append_subset, List.cons_subset, List.nil_subset, and_true]
    exact ⟨front, List.mem_append_right _ List.mem_cons_self⟩
  have nodup : (done.map key).Nodup := by
    rcases distinct with once | all
    · exact passes_distinct (updates_of_subset updates front) once passes
    · exact all.sublist ((List.sublist_append_left done _).map key)
  exact ⟨done, x, rest, u, rfl, nodup,
    passes_filled (updates_of_subset updates front) nodup passes, stopped,
    stopped_item (updates_of_subset updates upTo) passes stopped⟩

/-- The loop is done exactly for items with distinct keys that all get values. -/
theorem for_each_ends (updates : Updates body view key gives items)
    (distinct : Once key gives ∨ (items.map key).Nodup) :
    (∃ t, Ends (forEach body items) s ⟨⟩ t) ↔
      (items.map key).Nodup ∧ ∀ x ∈ items, ∃ v, gives (view s) x v := by
  constructor
  · rintro ⟨t, done⟩
    have passes := for_each_ends_iff.mp done
    have nodup := distinct.elim (fun once => passes_distinct updates once passes) id
    exact ⟨nodup, fun x member => ⟨_, (passes_filled updates nodup passes).given x member⟩⟩
  · rintro ⟨nodup, valued⟩
    rcases ends_or_stops (forEach body items) s with ⟨_, ends⟩ | ⟨e, stops⟩
    · exact ⟨_, ends⟩
    · obtain ⟨done, x, rest, u, rfl, -, -, -, failed⟩ := for_each_stopped updates distinct stops
      exfalso
      rcases failed with repeated | valueless
      · rw [List.map_append, List.map_cons, List.nodup_middle] at nodup
        exact (List.nodup_cons.mp nodup).1 (List.mem_append_left _ repeated)
      · obtain ⟨v, given⟩ := valued x (List.mem_append_right _ List.mem_cons_self)
        exact valueless v given

theorem for_each_filled (updates : Updates body view key gives items)
    (distinct : Once key gives ∨ (items.map key).Nodup)
    (done : Ends (forEach body items) s ⟨⟩ t) : Filled key gives items (view s) (view t) := by
  have nodup := ((for_each_ends updates distinct).mp ⟨t, done⟩).1
  exact passes_filled updates nodup (for_each_ends_iff.mp done)

end KeyedUpdates
