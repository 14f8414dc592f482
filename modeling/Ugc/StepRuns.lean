import Mathlib.Data.List.Induction
import Mathlib.Order.Bounds.Basic

/-!
Runs of a state machine over a finite list of events. A run is judged event
by event: `Admitted` says that every event is permitted in the state it meets.
Invariants, two machines in lockstep and forward simulations are packaged
here once; nothing below names a particular machine.
-/
namespace StepRuns
variable {S M E R : Type*}

def run (step : S → E → S) : S → List E → S
  | s, [] => s
  | s, e :: es => run step (step s e) es

def Admitted (step : S → E → S) (ok : S → E → Prop) : S → List E → Prop
  | _, [] => True
  | s, e :: es => ok s e ∧ Admitted step ok (step s e) es

instance instDecidableAdmitted {step : S → E → S} {ok : S → E → Prop}
    [∀ s e, Decidable (ok s e)] (s : S) : (es : List E) → Decidable (Admitted step ok s es)
  | [] => isTrue trivial
  | e :: es =>
    have : Decidable (Admitted step ok (step s e) es) := instDecidableAdmitted (step s e) es
    inferInstanceAs (Decidable (ok s e ∧ Admitted step ok (step s e) es))

theorem run_append (step : S → E → S) (s : S) (first second : List E) :
    run step s (first ++ second) = run step (run step s first) second := by
  induction first generalizing s with
  | nil => rfl
  | cons e first ih => exact ih (step s e)

theorem run_snoc (step : S → E → S) (s : S) (es : List E) (e : E) :
    run step s (es ++ [e]) = step (run step s es) e := by
  rw [run_append]
  rfl

theorem admitted_append (step : S → E → S) (ok : S → E → Prop) (s : S) (first second : List E) :
    Admitted step ok s (first ++ second) ↔
      Admitted step ok s first ∧ Admitted step ok (run step s first) second := by
  induction first generalizing s with
  | nil => simp [Admitted, run]
  | cons e first ih => simp only [List.cons_append, Admitted, run, ih, and_assoc]

theorem admitted_snoc (step : S → E → S) (ok : S → E → Prop) (s : S) (es : List E) (e : E) :
    Admitted step ok s (es ++ [e]) ↔ Admitted step ok s es ∧ ok (run step s es) e := by
  simp [admitted_append, Admitted]

/-- `Admitted` read along the run: the event at every position is permitted
    in the state the events before it lead to. -/
theorem admitted_iff_each (step : S → E → S) (ok : S → E → Prop) (s : S) (es : List E) :
    Admitted step ok s es ↔
      ∀ before e after, es = before ++ e :: after → ok (run step s before) e := by
  constructor
  · intro admitted before e after split
    subst split
    exact ((admitted_append step ok s before (e :: after)).mp admitted).2.1
  · intro each
    induction es generalizing s with
    | nil => trivial
    | cons e es ih =>
      refine ⟨each [] e es rfl, ih (step s e) ?_⟩
      intro before f after split
      exact each (e :: before) f after (by simp [split])

theorem admitted_of_forall {step : S → E → S} {ok : E → Prop} {es : List E}
    (each : ∀ e ∈ es, ok e) (s : S) : Admitted step (fun _ e => ok e) s es := by
  induction es generalizing s with
  | nil => trivial
  | cons e es ih =>
    exact ⟨each e List.mem_cons_self,
      ih (fun f member => each f (List.mem_cons_of_mem e member)) (step s e)⟩

theorem admitted_true (step : S → E → S) (s : S) (es : List E) :
    Admitted step (fun _ _ => True) s es := admitted_of_forall (fun _ _ => trivial) s

theorem admitted_mono {step : S → E → S} {weak strong : S → E → Prop}
    (weaker : ∀ s e, strong s e → weak s e) {s : S} {es : List E}
    (admitted : Admitted step strong s es) : Admitted step weak s es := by
  induction es generalizing s with
  | nil => trivial
  | cons e es ih => exact ⟨weaker s e admitted.1, ih admitted.2⟩

theorem admitted_and {step : S → E → S} {left right : S → E → Prop} {s : S} {es : List E}
    (hl : Admitted step left s es) (hr : Admitted step right s es) :
    Admitted step (fun s e => left s e ∧ right s e) s es := by
  induction es generalizing s with
  | nil => trivial
  | cons e es ih => exact ⟨⟨hl.1, hr.1⟩, ih hl.2 hr.2⟩

theorem invariant_run {step : S → E → S} {ok : S → E → Prop} (inv : S → Prop)
    (keeps : ∀ s e, inv s → ok s e → inv (step s e)) {s : S} {es : List E}
    (start : inv s) (admitted : Admitted step ok s es) : inv (run step s es) := by
  induction es generalizing s with
  | nil => exact start
  | cons e es ih => exact ih (keeps s e start admitted.1) admitted.2

/-- Two machines driven by the same events stay related. -/
theorem related_run {step : S → E → S} {other : M → E → M} {ok : S → E → Prop}
    {rel : M → S → Prop} (keeps : ∀ m s e, rel m s → ok s e → rel (other m e) (step s e))
    {m : M} {s : S} {es : List E} (start : rel m s) (admitted : Admitted step ok s es) :
    rel (run other m es) (run step s es) := by
  induction es generalizing m s with
  | nil => exact start
  | cons e es ih => exact ih (keeps m s e start admitted.1) admitted.2

/-- Two conditions that agree on the states of an invariant, which either of them
    preserves, admit the same runs. -/
theorem admitted_congr {step : S → E → S} {first second : S → E → Prop} (inv : S → Prop)
    (same : ∀ s e, inv s → (first s e ↔ second s e))
    (keeps : ∀ s e, inv s → second s e → inv (step s e)) {s : S} (start : inv s) (es : List E) :
    Admitted step first s es ↔ Admitted step second s es := by
  induction es generalizing s with
  | nil => exact Iff.rfl
  | cons e es ih =>
    have here := same s e start
    constructor
    · rintro ⟨head, tail⟩
      have permitted := here.mp head
      exact ⟨permitted, (ih (keeps s e start permitted)).mp tail⟩
    · rintro ⟨head, tail⟩
      exact ⟨here.mpr head, (ih (keeps s e start head)).mpr tail⟩

theorem admitted_under {step : S → E → S} {ok fact : S → E → Prop} (inv : S → Prop)
    (keeps : ∀ s e, inv s → ok s e → inv (step s e)) (gives : ∀ s e, inv s → ok s e → fact s e)
    {s : S} {es : List E} (start : inv s) (admitted : Admitted step ok s es) :
    Admitted step fact s es := by
  induction es generalizing s with
  | nil => trivial
  | cons e es ih =>
    exact ⟨gives s e start admitted.1, ih (keeps s e start admitted.1) admitted.2⟩

/-- The states of a run that no restarting event follows. -/
def sinceRestart (step : S → E → S) (restarts : E → Prop) (s : S) (es : List E) : Set S :=
  {t | ∃ before after, es = before ++ after ∧ (∀ e ∈ after, ¬ restarts e) ∧ t = run step s before}

theorem since_restart_snoc (step : S → E → S) (restarts : E → Prop) (s : S) (es : List E) (e : E)
    (t : S) : t ∈ sinceRestart step restarts s (es ++ [e]) ↔
      t = run step s (es ++ [e]) ∨ (¬ restarts e ∧ t ∈ sinceRestart step restarts s es) := by
  constructor
  · rintro ⟨before, after, split, calm, rfl⟩
    rcases List.eq_nil_or_concat after with rfl | ⟨front, last, rfl⟩
    · exact Or.inl (by rw [split, List.append_nil])
    · rw [List.concat_eq_append, ← List.append_assoc] at split
      obtain ⟨rfl, here⟩ := List.append_inj' split rfl
      obtain rfl : e = last := List.singleton_inj.mp here
      exact Or.inr ⟨calm e (by simp), before, front, rfl,
        fun f member => calm f (by simp [member]), rfl⟩
  · rintro (rfl | ⟨calm, before, after, rfl, rest, rfl⟩)
    · exact ⟨es ++ [e], [], (List.append_nil _).symm, by simp, rfl⟩
    · refine ⟨before, after ++ [e], List.append_assoc _ _ _, ?_, rfl⟩
      intro f member
      rcases List.mem_append.mp member with old | new
      · exact rest f old
      · exact List.mem_singleton.mp new ▸ calm

/-- A mark raised to the size of the state by every event, and set to it by the
    restarting ones, is the greatest size since the last restart. -/
theorem high_water {step : S → E → S} {restarts : E → Prop} {mark size : S → Nat} {s : S}
    {es : List E} (start : mark s = size s)
    (raised : Admitted step (fun s e => (restarts e → mark (step s e) = size (step s e)) ∧
      (¬ restarts e → mark (step s e) = max (mark s) (size (step s e)))) s es) :
    IsGreatest (size '' sinceRestart step restarts s es) (mark (run step s es)) := by
  induction es using List.reverseRecOn with
  | nil =>
    refine ⟨⟨s, ⟨[], [], rfl, by simp, rfl⟩, start.symm⟩, ?_⟩
    rintro _ ⟨t, ⟨before, after, split, -, rfl⟩, rfl⟩
    obtain ⟨rfl, -⟩ := List.append_eq_nil_iff.mp split.symm
    exact Nat.le_of_eq start.symm
  | append_singleton es e ih =>
    obtain ⟨earlier, reset, rise⟩ := (admitted_snoc _ _ _ _ _).mp raised
    obtain ⟨⟨top, since, sized⟩, bound⟩ := ih earlier
    have here : run step s (es ++ [e]) ∈ sinceRestart step restarts s (es ++ [e]) :=
      (since_restart_snoc _ _ _ _ _ _).mpr (Or.inl rfl)
    rw [run_snoc] at here ⊢
    by_cases restarted : restarts e
    · refine ⟨⟨_, here, (reset restarted).symm⟩, ?_⟩
      rintro _ ⟨t, member, rfl⟩
      rcases (since_restart_snoc _ _ _ _ _ _).mp member with rfl | ⟨calm, -⟩
      · rw [run_snoc, reset restarted]
      · exact absurd restarted calm
    · have risen := rise restarted
      constructor
      · rcases Nat.le_total (mark (run step s es)) (size (step (run step s es) e)) with low | high
        · exact ⟨_, here, by omega⟩
        · refine ⟨top, (since_restart_snoc _ _ _ _ _ _).mpr (Or.inr ⟨restarted, since⟩), ?_⟩
          omega
      · rintro _ ⟨t, member, rfl⟩
        rcases (since_restart_snoc _ _ _ _ _ _).mp member with rfl | ⟨-, old⟩
        · rw [run_snoc]
          omega
        · have := bound ⟨t, old, rfl⟩
          omega

/-- An assumption on the last state that is inherited by every earlier one
    (a log that only grows, say) was met by every step of the run. -/
theorem admitted_of_final {step : S → E → S} (good : S → Prop)
    (back : ∀ s e, good (step s e) → good s) {s : S} {es : List E}
    (final : good (run step s es)) : Admitted step (fun s e => good (step s e)) s es := by
  have early : ∀ (es : List E) (s : S), good (run step s es) → good s := by
    intro es
    induction es with
    | nil => intro s h; exact h
    | cons e es ih => intro s h; exact back s e (ih (step s e) h)
  induction es generalizing s with
  | nil => trivial
  | cons e es ih => exact ⟨early es (step s e) final, ih final⟩

/-- A machine whose steps also answer: all answers of the run, and its last state. -/
def trace (step : S → E → R × S) : S → List E → List R × S
  | s, [] => ([], s)
  | s, e :: es =>
    let rest := trace step (step s e).2 es
    ((step s e).1 :: rest.1, rest.2)

theorem trace_state (step : S → E → R × S) (s : S) (es : List E) :
    (trace step s es).2 = run (fun s e => (step s e).2) s es := by
  induction es generalizing s with
  | nil => rfl
  | cons e es ih => exact ih (step s e).2

theorem trace_map {F : Type*} (step : S → E → R × S) (f : F → E) (s : S) (fs : List F) :
    trace step s (fs.map f) = trace (fun s x => step s (f x)) s fs := by
  induction fs generalizing s with
  | nil => rfl
  | cons x fs ih => simp only [List.map_cons, trace, ih]

/-- Two machines driven by the same events, related state by state, give the same answers. -/
theorem trace_related {step : S → E → R × S} {other : M → E → R × M} {ok : S → E → Prop}
    {rel : M → S → Prop} (keeps : ∀ m s e, rel m s → ok s e →
      (step s e).1 = (other m e).1 ∧ rel (other m e).2 (step s e).2) {m : M} {s : S} {es : List E}
    (start : rel m s) (admitted : Admitted (fun s e => (step s e).2) ok s es) :
    (trace step s es).1 = (trace other m es).1 ∧
      rel (trace other m es).2 (trace step s es).2 := by
  induction es generalizing m s with
  | nil => exact ⟨rfl, start⟩
  | cons e es ih =>
    obtain ⟨answer, next⟩ := keeps m s e start admitted.1
    obtain ⟨answers, final⟩ := ih next admitted.2
    exact ⟨by simp only [trace, answer, answers], final⟩

/-- The events of a run and their answers, without those that were lost. -/
def surviving (step : S → E → R × S) (lost : E → R → Bool) : S → List E → List (E × R)
  | _, [] => []
  | s, e :: es =>
    if lost e (step s e).1 then surviving step lost (step s e).2 es
    else (e, (step s e).1) :: surviving step lost (step s e).2 es

/-- Where a view of the state and of the events to come does not see the lost events,
    and sees the others as a machine of its own does, the run of the others alone
    gives them the same answers. -/
theorem trace_surviving {step : S → E → R × S} {other : M → E → R × M} {ok : S → E → Prop}
    {lost : E → R → Bool} (view : S → List E → M)
    (skips : ∀ s e es, ok s e → lost e (step s e).1 = true →
      view s (e :: es) = view (step s e).2 es)
    (keeps : ∀ s e es, ok s e → lost e (step s e).1 = false →
      other (view s (e :: es)) e = ((step s e).1, view (step s e).2 es))
    {s : S} {es : List E} (admitted : Admitted (fun s e => (step s e).2) ok s es) :
    trace other (view s es) ((surviving step lost s es).map Prod.fst) =
      ((surviving step lost s es).map Prod.snd, view (trace step s es).2 []) := by
  induction es generalizing s with
  | nil => rfl
  | cons e es ih =>
    have rest := ih admitted.2
    cases fate : lost e (step s e).1 with
    | true => simp only [surviving, fate, ↓reduceIte, skips s e es admitted.1 fate, rest, trace]
    | false =>
      simp only [surviving, fate, Bool.false_eq_true, ↓reduceIte, List.map_cons, trace,
        keeps s e es admitted.1 fate, rest]

/-- Two machines that agree on the states of an invariant agree on whole runs. -/
theorem trace_congr {first second : S → E → R × S} (inv : S → Prop)
    (same : ∀ s e, inv s → first s e = second s e)
    (keeps : ∀ s e, inv s → inv (second s e).2) {s : S} (start : inv s) (es : List E) :
    trace first s es = trace second s es := by
  induction es generalizing s with
  | nil => rfl
  | cons e es ih =>
    have here := same s e start
    simp only [trace, here, ih (keeps s e start)]

/-- Forward simulation along a run. `step` is the program (`none` where it leaves
    its defined behaviour), `admits` what a client may send in a state of the
    specification, `spec` the answers and next states the specification allows. -/
def Simulates (rel : S → M → Prop) (step : S → E → Option (R × S)) (admits : M → E → Prop)
    (spec : M → E → R → M → Prop) : List E → S → M → Prop
  | [], s, m => rel s m
  | e :: es, s, m => rel s m ∧ (admits m e → ∃ r s' m',
      step s e = some (r, s') ∧ spec m e r m' ∧ Simulates rel step admits spec es s' m')

theorem simulates_of_step {rel : S → M → Prop} {step : S → E → Option (R × S)}
    {admits : M → E → Prop} {spec : M → E → R → M → Prop}
    (matched : ∀ s m e, rel s m → admits m e →
      ∃ r s' m', step s e = some (r, s') ∧ spec m e r m' ∧ rel s' m')
    (es : List E) {s : S} {m : M} (related : rel s m) :
    Simulates rel step admits spec es s m := by
  induction es generalizing s m with
  | nil => exact related
  | cons e es ih =>
    refine ⟨related, ?_⟩
    intro permitted
    obtain ⟨r, s', m', stepped, allowed, next⟩ := matched s m e related permitted
    exact ⟨r, s', m', stepped, allowed, ih next⟩

/-- A machine whose steps may be undefined: all answers of the run and its last state. -/
def partialTrace (step : S → E → Option (R × S)) : S → List E → Option (List R × S)
  | s, [] => some ([], s)
  | s, e :: es =>
    (step s e).bind fun here =>
      (partialTrace step here.2 es).map fun rest => (here.1 :: rest.1, rest.2)

/-- A machine that is defined on exactly the events `ok`, and goes there with a machine
    that is defined everywhere, is defined on exactly the runs of such events. -/
theorem partial_trace_exact {step : S → E → Option (R × S)} {whole : M → E → R × M}
    {ok : E → Prop} {rel : S → M → Prop}
    (defined : ∀ s m e, rel s m → ok e →
      ∃ t, step s e = some ((whole m e).1, t) ∧ rel t (whole m e).2)
    (stuck : ∀ s e, ¬ ok e → step s e = none) (es : List E) {s : S} {m : M} (related : rel s m) :
    ((∀ e ∈ es, ok e) → ∃ t, partialTrace step s es = some ((trace whole m es).1, t) ∧
      rel t (trace whole m es).2) ∧
    ((∃ e ∈ es, ¬ ok e) → partialTrace step s es = none) := by
  induction es generalizing s m with
  | nil => exact ⟨fun _ => ⟨s, rfl, related⟩, fun ⟨_, member, _⟩ => absurd member List.not_mem_nil⟩
  | cons e es ih =>
    by_cases here : ok e
    · obtain ⟨t, stepped, next⟩ := defined s m e related here
      obtain ⟨goes, stops⟩ := ih next
      simp only [partialTrace, stepped, Option.bind_some, List.forall_mem_cons]
      constructor
      · rintro ⟨-, rest⟩
        obtain ⟨u, traced, final⟩ := goes rest
        exact ⟨u, by rw [traced, trace, Option.map_some], final⟩
      · rintro ⟨f, member, bad⟩
        rcases List.mem_cons.mp member with rfl | later
        · exact absurd here bad
        · rw [stops ⟨f, later, bad⟩, Option.map_none]
    · refine ⟨fun all => absurd (all e List.mem_cons_self) here, fun _ => ?_⟩
      rw [partialTrace, stuck s e here, Option.bind_none]

end StepRuns
