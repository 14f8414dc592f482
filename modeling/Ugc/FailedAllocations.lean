import Ugc.GcHeapSteps
import Ugc.ThreadCounts

/-!
A call of `uGCHeap::Alloc` that returns null leaves no trace. The heap's step is
first brought into one form, `Asks`: what it does is fixed by the answer of at
most one `ugc_zalloc`. Erasing the failed calls of a run, together with the
answers they consumed, then changes nothing for the calls that remain.
-/
namespace UgcFailedAllocations
open ByteExtents StepRuns UgcAllocator UgcExactAllocation UgcInlineFastPath UgcGcHeap
open UgcGcHeapSteps UgcThreadCounts
variable {w : Nat} {ι : Type}

def onArena (s : GcHeap w ι) (arena : Arena w) : GcHeap w ι := { s with arena := arena }

/-- A call of `Alloc` that returned null. -/
def failed : Event w ι → Word w → Bool
  | .alloc _ _ _, object => object == 0#w
  | .bump _ _, _ => false

theorem failed_null {e : Event w ι} {object : Word w} (lost : failed e object = true) :
    object = 0#w := by
  cases e with
  | alloc acontext size flags => exact beq_iff_eq.mp lost
  | bump i size => exact Bool.noConfusion lost

variable [DecidableEq ι]

/-- A step and the pointer it hands out. -/
def observe (build : Build w) (s : GcHeap w ι) (e : Event w ι) : Word w × GcHeap w ι :=
  (returned build s e, step build s e)

/-- What an event does to a heap over any arena: it asks for nothing and does the same
    whatever the arena is, or it asks for n bytes and does what the answer allows. -/
inductive Asks (build : Build w) (s : GcHeap w ι) (e : Event w ι) : Prop where
  | nothing (object : Word w) (t : GcHeap w ι) (null : object = 0#w → t = s)
      (same : ∀ arena, observe build (onArena s arena) e = (object, onArena t arena))
  | bytes (n : Word w) (reply : Word w → Word w × GcHeap w ι)
      (call : ∃ acontext size flags, e = .alloc acontext size flags)
      (holds : build.config.header.toNat ≤ n.toNat) (null : reply 0#w = (0#w, s))
      (placed : ∀ answer, answer ≠ 0#w → (reply answer).1 = answer + build.config.header)
      (same : ∀ arena, observe build (onArena s arena) e =
        ((reply arena.next).1, onArena (reply arena.next).2 (arena.after n)))

/-- The heap after the core has served a call. -/
def credit (build : Build w) (s : GcHeap w ι) (acontext : Option ι) (size : Word w)
    (flags : BitVec 32) (served : Served w) : GcHeap w ι where
  contexts := match acontext with
    | some i => Function.update s.contexts i (chargeContext build served size flags (s.contexts i))
    | none => s.contexts
  allocatedBytes :=
    if served.object = 0#w then s.allocatedBytes else s.allocatedBytes + size.setWidth 64
  arena := served.arena

theorem observe_alloc {build : Build w} {s : GcHeap w ι} {acontext : Option ι} {size : Word w}
    {flags : BitVec 32} {served : Served w}
    (serves : coreServed build s acontext size flags = served) :
    observe build s (.alloc acontext size flags) =
      (served.object, credit build s acontext size flags served) := by
  subst serves
  rfl

theorem credit_null (build : Build w) (s : GcHeap w ι) (acontext : Option ι) (size : Word w)
    (flags : BitVec 32) (arena : Arena w) :
    credit build s acontext size flags
      ⟨0#w, acontext.map fun i => (s.contexts i).window, arena⟩ = onArena s arena := by
  cases acontext <;> simp [credit, onArena, chargeContext]

theorem step_asks (build : Build w) (s : GcHeap w ι) (e : Event w ι) : Asks build s e := by
  cases e with
  | alloc acontext size flags =>
    rcases core_alloc_asks build.config (acontext.map fun i => (s.contexts i).window) size
      (build.oldHeap flags) with ⟨object, after, null, same⟩ | ⟨n, reply, holds, null, placed, same⟩
    · refine Asks.nothing object (credit build s acontext size flags ⟨object, after, s.arena⟩) ?_ ?_
      · rintro rfl
        rw [null rfl]
        exact credit_null build s acontext size flags s.arena
      · intro arena
        have serves : coreServed build (onArena s arena) acontext size flags =
            ⟨object, after, arena⟩ := congrFun same arena
        exact observe_alloc serves
    · refine Asks.bytes n (fun answer => ((reply answer).1, credit build s acontext size flags
        ⟨(reply answer).1, (reply answer).2, s.arena⟩)) ⟨_, _, _, rfl⟩ holds ?_ placed ?_
      · rw [null]
        exact congrArg _ (credit_null build s acontext size flags s.arena)
      · intro arena
        have serves : coreServed build (onArena s arena) acontext size flags =
            ⟨(reply arena.next).1, (reply arena.next).2, arena.after n⟩ := congrFun same arena
        exact observe_alloc serves
  | bump i size =>
    by_cases fits : (s.contexts i).window.allocPtr ≠ 0#w ∧
        size ≤ (s.contexts i).window.allocLimit - (s.contexts i).window.allocPtr
    · refine Asks.nothing _ (step build s (.bump i size)) (fun null => absurd null fits.1) ?_
      intro arena
      simp [observe, returned, step, onArena, inlineBump, fits]
    · have unfit : inlineBump (s.contexts i).window size = none := if_neg fits
      refine Asks.nothing 0#w s (fun _ => rfl) ?_
      intro arena
      simp [observe, returned, step, onArena, unfit]

/-- What a failed event does: it may have consumed a null answer, and that is all. -/
theorem failed_effect (build : Build w) (s : GcHeap w ι) (e : Event w ι)
    (nowrap : ∀ b ∈ (step build s e).arena.blocks, b.stop < 2 ^ w)
    (null : returned build s e = 0#w) :
    step build s e = s ∨
      s.arena.next = 0#w ∧ ∃ n, step build s e = onArena s (s.arena.after n) := by
  rcases step_asks build s e with ⟨object, t, kept, same⟩ |
    ⟨n, reply, call, holds, kept, placed, same⟩
  · obtain ⟨handed, stepped⟩ := Prod.mk.inj (same s.arena)
    change returned build s e = object at handed
    change step build s e = onArena t s.arena at stepped
    rw [stepped, kept (handed.symm.trans null)]
    exact Or.inl rfl
  · obtain ⟨handed, stepped⟩ := Prod.mk.inj (same s.arena)
    change returned build s e = (reply s.arena.next).1 at handed
    change step build s e = onArena (reply s.arena.next).2 (s.arena.after n) at stepped
    by_cases granted : s.arena.next = 0#w
    · rw [granted, kept] at stepped
      exact Or.inr ⟨granted, n, stepped⟩
    · rw [stepped] at nowrap
      have placed := placed _ granted
      have object := granted_object build.config granted holds nowrap
      exact absurd (placed.symm.trans (handed.symm.trans null)) object

/-- The answers of the allocator without those that failed calls consumed. -/
def keptAnswers (build : Build w) : GcHeap w ι → List (Event w ι) → List (Word w)
  | s, [] => s.arena.answers
  | s, e :: events =>
    if failed e (returned build s e) then keptAnswers build (step build s e) events
    else
      s.arena.answers.take ((step build s e).arena.calls.length - s.arena.calls.length) ++
        keptAnswers build (step build s e) events

theorem kept_answers_lost {build : Build w} {s : GcHeap w ι} {e : Event w ι}
    (events : List (Event w ι)) (lost : failed e (returned build s e) = true) :
    keptAnswers build s (e :: events) = keptAnswers build (step build s e) events := if_pos lost

theorem kept_answers_found {build : Build w} {s : GcHeap w ι} {e : Event w ι}
    (events : List (Event w ι)) (found : failed e (returned build s e) = false) :
    keptAnswers build s (e :: events) =
      s.arena.answers.take ((step build s e).arena.calls.length - s.arena.calls.length) ++
        keptAnswers build (step build s e) events := if_neg (by simp [found])

def succeeded (c : Call w) : Bool := c.answer != 0#w

/-- The heap as it is when failed calls, before and after, have never been made. -/
def erased (build : Build w) (s : GcHeap w ι) (events : List (Event w ι)) : GcHeap w ι :=
  onArena s ⟨keptAnswers build s events, s.arena.calls.filter succeeded, s.arena.bytes⟩

theorem erased_skips (build : Build w) (s : GcHeap w ι) (e : Event w ι)
    (events : List (Event w ι))
    (nowrap : ∀ b ∈ (step build s e).arena.blocks, b.stop < 2 ^ w)
    (lost : failed e (returned build s e) = true) :
    erased build s (e :: events) = erased build (step build s e) events := by
  unfold erased
  rw [kept_answers_lost events lost]
  rcases failed_effect build s e nowrap (failed_null lost) with same | ⟨noAnswer, n, consumed⟩
  · rw [same]
  · rw [consumed]
    simp [onArena, Arena.after, ugcZalloc, noAnswer, succeeded]

theorem answers_of_granted {arena : Arena w} (granted : arena.next ≠ 0#w) :
    arena.answers = arena.next :: arena.answers.tail := by
  unfold Arena.next at granted ⊢
  cases answers : arena.answers with
  | nil => simp [answers] at granted
  | cons answer rest => rfl

theorem erased_keeps (build : Build w) (s : GcHeap w ι) (e : Event w ι)
    (events : List (Event w ι)) (found : failed e (returned build s e) = false) :
    observe build (erased build s (e :: events)) e =
      (returned build s e, erased build (step build s e) events) := by
  rcases step_asks build s e with
    ⟨object, t, null, same⟩ | ⟨n, reply, call, holds, null, placed, same⟩
  · obtain ⟨handed, stepped⟩ := Prod.mk.inj (same s.arena)
    change returned build s e = object at handed
    change step build s e = onArena t s.arena at stepped
    have silent : keptAnswers build s (e :: events) =
        keptAnswers build (step build s e) events := by
      rw [kept_answers_found events found, stepped]
      simp [onArena]
    rw [erased, same, handed, silent, stepped]
    rfl
  · obtain ⟨handed, stepped⟩ := Prod.mk.inj (same s.arena)
    change returned build s e = (reply s.arena.next).1 at handed
    change step build s e = onArena (reply s.arena.next).2 (s.arena.after n) at stepped
    have granted : s.arena.next ≠ 0#w := by
      intro noAnswer
      obtain ⟨acontext, size, flags, rfl⟩ := call
      rw [noAnswer, null] at handed
      simp [failed, handed] at found
    have consumed : keptAnswers build s (e :: events) =
        s.arena.next :: keptAnswers build (step build s e) events := by
      rw [kept_answers_found events found, stepped, answers_of_granted granted]
      simp [onArena, Arena.after, ugcZalloc]
    have next : (erased build s (e :: events)).arena.next = s.arena.next := by
      simp [erased, onArena, Arena.next, consumed]
    have called : (erased build s (e :: events)).arena.after n =
        ⟨keptAnswers build (step build s e) events,
          (s.arena.after n).calls.filter succeeded, (s.arena.after n).bytes⟩ := by
      unfold Arena.after ugcZalloc
      rw [next]
      simp [erased, onArena, consumed, List.filter_cons, succeeded, granted]
    have observed : observe build (erased build s (e :: events)) e = _ :=
      same (erased build s (e :: events)).arena
    rw [observed, next, called, handed, stepped]
    rfl

/-- The state of a run as far as later calls and the caller can tell: the failed
    calls are taken out of the allocator's log. -/
def forgetFailures (s : GcHeap w ι) : GcHeap w ι :=
  onArena s { s.arena with calls := s.arena.calls.filter succeeded }

/-- An event that hands out nothing in context i: of another context, or without result. -/
def Spares (build : Build w) (i : ι) (s : GcHeap w ι) (e : Event w ι) : Prop :=
  target e ≠ some i ∨ returned build s e = 0#w

def NoWrap (s : GcHeap w ι) : Prop := ∀ b ∈ s.arena.blocks, b.stop < 2 ^ w

theorem failed_contexts (build : Build w) (s : GcHeap w ι) (e : Event w ι)
    (nowrap : NoWrap (step build s e)) (null : returned build s e = 0#w) :
    (step build s e).contexts = s.contexts ∧
      (step build s e).allocatedBytes = s.allocatedBytes := by
  rcases failed_effect build s e nowrap null with same | ⟨_, n, consumed⟩
  · rw [same]
    exact ⟨rfl, rfl⟩
  · rw [consumed]
    exact ⟨rfl, rfl⟩

theorem spared_context (build : Build w) (i : ι) (s : GcHeap w ι) (e : Event w ι)
    (nowrap : NoWrap (step build s e)) (spares : Spares build i s e) :
    (step build s e).contexts i = s.contexts i := by
  rcases spares with other | null
  · exact step_other build s e other
  · rw [(failed_contexts build s e nowrap null).1]

theorem nowrap_back (build : Build w) (s : GcHeap w ι) (e : Event w ι)
    (nowrap : NoWrap (step build s e)) : NoWrap s :=
  fun b member => nowrap b (blocks_grow build s e member)

/-- What fits the window of a context and does not ask for the old heap is served from it. -/
theorem served_from_window (build : Build w) (s : GcHeap w ι) (i : ι) (size : Word w)
    (flags : BitVec 32) (narrow : Narrow build.config (s.contexts i).window)
    (live : (s.contexts i).window.allocPtr ≠ 0#w)
    (fits : size ≤ (s.contexts i).window.allocLimit - (s.contexts i).window.allocPtr)
    (young : build.oldHeap flags = false) :
    (uGCHeapAlloc build s (some i) size flags).1 = (s.contexts i).window.allocPtr := by
  obtain ⟨room, within⟩ := core_alloc_within narrow live fits
  simp only [uGCHeapAlloc, coreServed, Option.map_some, young]
  exact congrArg Served.object (core_alloc_bump room within ⟨live, fits⟩)

theorem step_answers (build : Build w) (s : GcHeap w ι) (e : Event w ι) :
    (step build s e).arena.answers =
      s.arena.answers.drop ((step build s e).arena.calls.length - s.arena.calls.length) := by
  rcases step_arena build s e with same | ⟨n, called⟩
  · simp [same]
  · simp [called, Arena.after, ugcZalloc]

/-- Only null answers are taken out. -/
theorem kept_answers_granted (build : Build w) {s : GcHeap w ι} {events : List (Event w ι)}
    (nowrap : Admitted (step build) (fun s e => NoWrap (step build s e)) s events) :
    (keptAnswers build s events).Sublist s.arena.answers ∧
      (keptAnswers build s events).filter (· != 0#w) = s.arena.answers.filter (· != 0#w) := by
  induction events generalizing s with
  | nil => exact ⟨List.Sublist.refl _, rfl⟩
  | cons e events ih =>
    obtain ⟨rest, granted⟩ := ih nowrap.2
    have consumed := step_answers build s e
    cases lost : failed e (returned build s e) with
    | false =>
      rw [kept_answers_found events lost, List.filter_append, granted]
      rw [consumed] at rest ⊢
      rw [← List.filter_append, List.take_append_drop]
      refine ⟨?_, rfl⟩
      have whole := (List.Sublist.refl (s.arena.answers.take
        ((step build s e).arena.calls.length - s.arena.calls.length))).append rest
      rwa [List.take_append_drop] at whole
    | true =>
      rw [kept_answers_lost events lost]
      rcases failed_effect build s e nowrap.1 (failed_null lost) with same | ⟨null, n, called⟩
      · rw [same] at rest granted ⊢
        exact ⟨rest, granted⟩
      · have tail : (step build s e).arena.answers = s.arena.answers.tail := by
          rw [called]
          rfl
        rw [tail] at rest granted
        refine ⟨rest.trans (List.tail_sublist _), granted.trans ?_⟩
        unfold Arena.next at null
        cases answers : s.arena.answers with
        | nil => rfl
        | cons answer others =>
          rw [answers] at null
          simp_all

/-- A request that does not ask for the old heap and fits the window context i has in s
    is served in t at the `alloc_ptr` of s. -/
def StillServes (build : Build w) (i : ι) (s t : GcHeap w ι) : Prop :=
  ∀ size flags, (s.contexts i).window.allocPtr ≠ 0#w →
    size ≤ (s.contexts i).window.allocLimit - (s.contexts i).window.allocPtr →
    build.oldHeap flags = false →
    (uGCHeapAlloc build t (some i) size flags).1 = (s.contexts i).window.allocPtr

section Runs
variable (build : Build w) (arena : Arena w) {events : List (Event w ι)}

theorem run_narrow (events : List (Event w ι)) (i : ι) :
    Narrow build.config ((run (step build) (initial arena) events).contexts i).window :=
  invariant_run (fun s : GcHeap w ι => ∀ i, Narrow build.config (s.contexts i).window)
    (fun s e narrow _ => step_narrow build s e narrow) (fun _ => narrow_of_null _ rfl)
    (admitted_true (step build) (initial arena) events) i

theorem spared_serves {s : GcHeap w ι} {between : List (Event w ι)} {i : ι}
    (narrow : Narrow build.config (s.contexts i).window)
    (nowrap : Admitted (step build) (fun s e => NoWrap (step build s e)) s between)
    (spares : Admitted (step build) (Spares build i) s between) :
    StillServes build i s (run (step build) s between) := by
  have kept : (run (step build) s between).contexts i = s.contexts i :=
    invariant_run (fun t : GcHeap w ι => t.contexts i = s.contexts i)
      (fun t e same both => (spared_context build i t e both.1 both.2).trans same) rfl
      (admitted_and nowrap spares)
  intro size flags live fits young
  rw [← kept] at narrow live fits ⊢
  exact served_from_window build _ i size flags narrow live fits young

/-- In every run: a call of `Alloc` that returns null leaves all contexts and the total
    as they are; through any events that hand out nothing in context i, failed calls
    among them, its window goes on serving; and the run without its failed calls, and
    without the null answers they consumed, has the same results and ends in the same state. -/
theorem failures_leave_no_trace
    (contract : ZallocContract (run (step build) (initial arena) events).arena) :
    (∀ before e after, events = before ++ e :: after →
      failed e (returned build (run (step build) (initial arena) before) e) = true →
      (step build (run (step build) (initial arena) before) e).contexts =
          (run (step build) (initial arena) before).contexts ∧
        (step build (run (step build) (initial arena) before) e).allocatedBytes =
          (run (step build) (initial arena) before).allocatedBytes) ∧
    (∀ before between after i, events = before ++ (between ++ after) →
      Admitted (step build) (Spares build i) (run (step build) (initial arena) before) between →
      StillServes build i (run (step build) (initial arena) before)
        (run (step build) (initial arena) (before ++ between))) ∧
    trace (observe build) (erased build (initial arena) events)
        ((surviving (observe build) failed (initial arena) events).map Prod.fst) =
      ((surviving (observe build) failed (initial arena) events).map Prod.snd,
        forgetFailures (run (step build) (initial arena) events)) ∧
    (keptAnswers build (initial arena) events).Sublist arena.answers ∧
    (keptAnswers build (initial arena) events).filter (· != 0#w) =
      arena.answers.filter (· != 0#w) := by
  have nowrap : Admitted (step build) (fun s e => NoWrap (step build s e))
      (initial arena) events :=
    admitted_of_final NoWrap (nowrap_back build) contract.2
  refine ⟨?_, ?_, ?_, kept_answers_granted build nowrap⟩
  · intro before e after split lost
    have here := (admitted_iff_each _ _ _ _).mp nowrap before e after split
    exact failed_contexts build _ e here (failed_null lost)
  · intro before between after i split spares
    subst split
    have later := ((admitted_append _ _ _ _ _).mp nowrap).2
    have here := ((admitted_append _ _ _ _ _).mp later).1
    rw [run_append]
    exact spared_serves build (run_narrow build arena before i) here spares
  · have steps : Admitted (fun s e => (observe build s e).2)
        (fun s e => NoWrap (step build s e)) (initial arena) events := nowrap
    have final := trace_state (observe build) (initial arena) events
    have erasing := trace_surviving (erased build)
      (fun s e rest here lost => erased_skips build s e rest here lost)
      (fun s e rest _ found => erased_keeps build s e rest found) steps
    rw [erasing, final]
    rfl

end Runs

def failureEvents : List (Event 64 Unit) :=
  [.alloc (some ()) 24#64 0#32, .alloc none 70000#64 0#32, .alloc (some ()) 65528#64 0#32,
    .alloc (some ()) 8#64 0#32]

/-- A direct call and a refill fail; the last call is served from the first quantum. -/
theorem failures_leave_no_trace_sample :
    trace (observe build64)
        (erased build64 (initial (emptyArena64 [65536#64, 0#64, 0#64])) failureEvents)
        [.alloc (some ()) 24#64 0#32, .alloc (some ()) 8#64 0#32] =
      ([65544#64, 65568#64],
        forgetFailures (run (step build64) (initial (emptyArena64 [65536#64, 0#64, 0#64]))
          failureEvents)) :=
  (failures_leave_no_trace build64 (emptyArena64 [65536#64, 0#64, 0#64])
    (by decide +kernel)).2.2.1

end UgcFailedAllocations
