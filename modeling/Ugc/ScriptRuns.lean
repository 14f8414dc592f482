import Mathlib.Data.List.Basic

/-!
Scripts: computations on a state which they keep when they raise. What a sequence of
two does is read off its parts. A loop ends after one pass for each item, or stops in
the pass of an item, with the passes before it done.
-/
namespace ScriptRuns
universe u
variable {S E X : Type*} {A B : Type u}

def Script (S E : Type*) (A : Type u) := S → Except E A × S

def ended (a : A) : Script S E A := fun s => (.ok a, s)

def raise (e : E) : Script S E A := fun s => (.error e, s)

def andThen (first : Script S E A) (next : A → Script S E B) : Script S E B := fun s =>
  match first s with
  | (.ok a, t) => next a t
  | (.error e, t) => (.error e, t)

instance : Monad (Script S E) where
  pure := ended
  bind := andThen

/-- A computation that only reads the state. -/
def look (reads : S → Except E A) : Script S E A := fun s => (reads s, s)

def Ends (script : Script S E A) (s : S) (a : A) (t : S) : Prop := script s = (.ok a, t)

def Stops (script : Script S E A) (s : S) (e : E) (t : S) : Prop := script s = (.error e, t)

/-- However the script comes to its end, its last state is a good one. -/
def Leaves (script : Script S E A) (s : S) (good : S → Prop) : Prop := good (script s).2

theorem pure_ends_iff {a b : A} {s t : S} :
    Ends (pure a : Script S E A) s b t ↔ a = b ∧ s = t := by
  constructor
  · intro done
    cases done
    exact ⟨rfl, rfl⟩
  · rintro ⟨rfl, rfl⟩
    rfl

theorem raise_ends_iff {e : E} {a : A} {s t : S} : ¬ Ends (raise e : Script S E A) s a t := by
  intro done
  cases done

theorem look_ends_iff {reads : S → Except E A} {s t : S} {a : A} :
    Ends (look reads) s a t ↔ reads s = .ok a ∧ t = s := by
  unfold Ends look
  rw [Prod.mk.injEq, eq_comm (a := s)]

theorem look_stops_iff {reads : S → Except E A} {s t : S} {e : E} :
    Stops (look reads) s e t ↔ reads s = .error e ∧ t = s := by
  unfold Stops look
  rw [Prod.mk.injEq, eq_comm (a := s)]

theorem ends_or_stops (script : Script S E A) (s : S) :
    (∃ a, Ends script s a (script s).2) ∨ ∃ e, Stops script s e (script s).2 := by
  unfold Ends Stops
  cases script s with
  | mk result t =>
    cases result with
    | ok a => exact Or.inl ⟨a, rfl⟩
    | error e => exact Or.inr ⟨e, rfl⟩

theorem not_ends_of_stops {script : Script S E A} {s t u : S} {e : E} {a : A}
    (stops : Stops script s e t) : ¬ Ends script s a u := by
  intro done
  cases stops.symm.trans done

section Sequence
variable {first : Script S E A} {next : A → Script S E B} {s t u : S} {a : A} {e : E}

theorem bind_of_ends (done : Ends first s a t) : (first >>= next) s = next a t := by
  change andThen first next s = _
  unfold andThen
  rw [show first s = (.ok a, t) from done]

theorem bind_of_stops (stops : Stops first s e t) : Stops (first >>= next) s e t := by
  change andThen first next s = _
  unfold andThen
  rw [show first s = (.error e, t) from stops]

theorem bind_ends_iff {b : B} :
    Ends (first >>= next) s b u ↔ ∃ a t, Ends first s a t ∧ Ends (next a) t b u := by
  constructor
  · intro done
    rcases ends_or_stops first s with ⟨a, ends⟩ | ⟨e, stops⟩
    · exact ⟨a, _, ends, (bind_of_ends ends).symm.trans done⟩
    · exact absurd done (not_ends_of_stops (bind_of_stops stops))
  · rintro ⟨a, t, ends, done⟩
    exact (bind_of_ends ends).trans done

theorem bind_stops_iff : Stops (first >>= next) s e u ↔
    Stops first s e u ∨ ∃ a t, Ends first s a t ∧ Stops (next a) t e u := by
  constructor
  · intro stopped
    rcases ends_or_stops first s with ⟨a, ends⟩ | ⟨f, stops⟩
    · exact Or.inr ⟨a, _, ends, (bind_of_ends ends).symm.trans stopped⟩
    · have early : (first >>= next) s = _ := bind_of_stops stops
      cases early.symm.trans stopped
      exact Or.inl stops
  · rintro (stops | ⟨a, t, ends, stopped⟩)
    · exact bind_of_stops stops
    · exact (bind_of_ends ends).trans stopped

/-- A sequence leaves a good state if its first part does, and its second part does
    after every end of the first. -/
theorem leaves_bind {good : S → Prop} (start : Leaves first s good)
    (rest : ∀ a t, Ends first s a t → good t → Leaves (next a) t good) :
    Leaves (first >>= next) s good := by
  unfold Leaves
  rcases ends_or_stops first s with ⟨a, ends⟩ | ⟨e, stops⟩
  · rw [bind_of_ends ends]
    exact rest a _ ends start
  · rw [show (first >>= next) s = _ from bind_of_stops stops]
    exact start

theorem leaves_look {reads : S → Except E A} {good : S → Prop} (start : good s)
    (rest : ∀ a, reads s = .ok a → Leaves (next a) s good) :
    Leaves (look reads >>= next) s good := by
  refine leaves_bind start ?_
  intro a t ends kept
  obtain ⟨found, rfl⟩ := look_ends_iff.mp ends
  exact rest a found

end Sequence

/-- The loop of a script over items. -/
def forEach (body : X → Script S E PUnit.{u + 1}) : List X → Script S E PUnit.{u + 1}
  | [] => pure ⟨⟩
  | x :: xs => body x >>= fun _ => forEach body xs

section Loops
variable {body : X → Script S E PUnit.{u + 1}} {s t : S} {e : E}

/-- One pass after another, each of which ends. -/
inductive Passes (body : X → Script S E PUnit.{u + 1}) : List X → S → S → Prop where
  | nil (s : S) : Passes body [] s s
  | cons {x : X} {xs : List X} {s t u : S} (first : Ends (body x) s ⟨⟩ t)
      (others : Passes body xs t u) : Passes body (x :: xs) s u

theorem for_each_ends_iff {xs : List X} :
    Ends (forEach body xs) s ⟨⟩ t ↔ Passes body xs s t := by
  induction xs generalizing s with
  | nil =>
    rw [forEach, pure_ends_iff]
    constructor
    · rintro ⟨-, rfl⟩
      exact .nil s
    · intro passes
      cases passes
      exact ⟨rfl, rfl⟩
  | cons x xs ih =>
    rw [forEach, bind_ends_iff]
    constructor
    · rintro ⟨_, u, first, others⟩
      exact .cons first (ih.mp others)
    · intro passes
      cases passes with
      | cons first others => exact ⟨⟨⟩, _, first, ih.mpr others⟩

theorem for_each_stops_iff {xs : List X} :
    Stops (forEach body xs) s e t ↔ ∃ done x rest u, xs = done ++ x :: rest ∧
      Passes body done s u ∧ Stops (body x) u e t := by
  induction xs generalizing s with
  | nil =>
    constructor
    · intro stopped
      cases stopped
    · rintro ⟨done, x, rest, u, split, -⟩
      simp at split
  | cons x xs ih =>
    rw [forEach, bind_stops_iff]
    constructor
    · rintro (stops | ⟨_, u, first, later⟩)
      · exact ⟨[], x, xs, s, rfl, .nil s, stops⟩
      · obtain ⟨done, y, rest, v, rfl, passes, stops⟩ := ih.mp later
        exact ⟨x :: done, y, rest, v, rfl, .cons first passes, stops⟩
    · rintro ⟨done, y, rest, v, split, passes, stops⟩
      cases passes with
      | nil =>
        cases split
        exact Or.inl stops
      | cons first others =>
        obtain ⟨rfl, rfl⟩ := List.cons.inj split
        exact Or.inr ⟨⟨⟩, _, first, ih.mpr ⟨_, y, rest, v, rfl, others, stops⟩⟩

theorem passes_append {first second : List X} {u : S} :
    Passes body (first ++ second) s u ↔ ∃ t, Passes body first s t ∧ Passes body second t u := by
  induction first generalizing s with
  | nil =>
    constructor
    · intro passes
      exact ⟨s, .nil s, passes⟩
    · rintro ⟨t, empty, passes⟩
      cases empty
      exact passes
  | cons x first ih =>
    constructor
    · intro passes
      cases passes with
      | cons here others =>
        obtain ⟨t, before, after⟩ := ih.mp others
        exact ⟨t, .cons here before, after⟩
    · rintro ⟨t, before, after⟩
      cases before with
      | cons here others => exact .cons here (ih.mpr ⟨t, others, after⟩)

/-- What every pass keeps to, a loop keeps to. -/
theorem leaves_for_each {keeps : S → S → Prop} (refl : ∀ s, keeps s s)
    (trans : ∀ s t u, keeps s t → keeps t u → keeps s u) {xs : List X}
    (each : ∀ x ∈ xs, ∀ s, Leaves (body x) s (keeps s)) (s : S) :
    Leaves (forEach body xs) s (keeps s) := by
  induction xs generalizing s with
  | nil => exact refl s
  | cons x xs ih =>
    obtain ⟨here, others⟩ := List.forall_mem_cons.mp each
    refine leaves_bind (here s) ?_
    intro _ t _ kept
    exact trans s t _ kept (ih others t)

end Loops

end ScriptRuns
