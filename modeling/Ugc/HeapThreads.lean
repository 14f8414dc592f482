import Ugc.FailedAllocations
import Ugc.IndependentRuns

/-!
The heap of several threads, each with a context of its own. A step sees no more of the
heap than the context of its event and the answer of `ugc_zalloc` to it. What a thread
gets is therefore fixed by its own events and answers, and the order in which threads
take turns can be told from the order of the allocator's log alone.
-/
namespace UgcHeapThreads
open ByteExtents StepRuns IndependentRuns UgcAllocator UgcExactAllocation UgcGcHeap
open UgcGcHeapSteps UgcThreadCounts UgcFailedAllocations
variable {w : Nat} {ι : Type}

/-- What an event hands out, leaves in its context and adds to the total. -/
structure Share (w : Nat) where
  object : Word w
  context : AllocContext w
  credit : BitVec 64

/-- Heaps that differ in the order of the allocator's log, and in what it will answer. -/
structure Alike (s t : GcHeap w ι) : Prop where
  contexts : s.contexts = t.contexts
  allocatedBytes : s.allocatedBytes = t.allocatedBytes
  calls : s.arena.calls.Perm t.arena.calls
  bytes : s.arena.bytes = t.arena.bytes

theorem alike_equivalence : Equivalence (Alike : GcHeap w ι → GcHeap w ι → Prop) where
  refl _ := ⟨rfl, rfl, .refl _, rfl⟩
  symm same := ⟨same.contexts.symm, same.allocatedBytes.symm, same.calls.symm, same.bytes.symm⟩
  trans first second := ⟨first.contexts.trans second.contexts,
    first.allocatedBytes.trans second.allocatedBytes, first.calls.trans second.calls,
    first.bytes.trans second.bytes⟩

/-- The heap with one answer of the allocator to come, if any. -/
def supply (s : GcHeap w ι) (answer : Option (Word w)) : GcHeap w ι :=
  onArena s { s.arena with answers := answer.toList }

theorem supply_next (s : GcHeap w ι) (answer : Option (Word w)) :
    (supply s answer).arena.next = answer.getD 0#w := by cases answer <;> rfl

theorem supply_alike (s : GcHeap w ι) (answer : Option (Word w)) : Alike (supply s answer) s :=
  ⟨rfl, rfl, .refl _, rfl⟩

variable [DecidableEq ι]

def applied (s : GcHeap w ι) (e : Event w ι) (asked : Option (Word w)) (share : Share w) :
    GcHeap w ι where
  contexts := match target e with
    | some i => Function.update s.contexts i share.context
    | none => s.contexts
  allocatedBytes := s.allocatedBytes + share.credit
  arena := match asked with
    | some n => s.arena.after n
    | none => s.arena

/-- What an event does depends on its own context and on the answer it asks for. -/
def Follows (build : Build w) (e : Event w ι) (own : Option (AllocContext w))
    (asked : Option (Word w)) (share : Word w → Share w) : Prop :=
  (asked = none → ∀ answer, share answer = share 0#w) ∧
    ∀ s : GcHeap w ι, (target e).map s.contexts = own →
      observe build s e = ((share s.arena.next).object, applied s e asked (share s.arena.next))

/-- What a call of the core comes to for the caller, given its own context. -/
def shareOf (build : Build w) (size : Word w) (flags : BitVec 32) (own : Option (AllocContext w))
    (object : Word w) (window : Option (Window w)) : Share w where
  object := object
  context := chargeContext build ⟨object, window, ⟨[], [], fun _ => 0⟩⟩ size flags
    (own.getD ⟨⟨0#w, 0#w⟩, 0, 0⟩)
  credit := if object = 0#w then 0#64 else size.setWidth 64

theorem credit_applied (build : Build w) (s : GcHeap w ι) (acontext : Option ι) (size : Word w)
    (flags : BitVec 32) (served : Served w) (asked : Option (Word w))
    (arena : served.arena = match asked with
      | some n => s.arena.after n
      | none => s.arena) :
    credit build s acontext size flags served = applied s (.alloc acontext size flags) asked
      (shareOf build size flags (acontext.map s.contexts) served.object served.window) := by
  unfold credit applied shareOf
  congr 1
  · cases acontext <;> rfl
  · by_cases null : served.object = 0#w <;> simp [null]

theorem step_follows (build : Build w) (e : Event w ι) (own : Option (AllocContext w)) :
    ∃ asked share, Follows build e own asked share := by
  cases e with
  | alloc acontext size flags =>
    rcases core_alloc_asks build.config (own.map AllocContext.window) size
      (build.oldHeap flags) with ⟨object, after, -, same⟩ | ⟨n, reply, -, -, -, same⟩
    · refine ⟨none, fun _ => shareOf build size flags own object after, fun _ _ => rfl, ?_⟩
      rintro s rfl
      rw [Option.map_map] at same
      have serves : coreServed build s acontext size flags = ⟨object, after, s.arena⟩ :=
        congrFun same s.arena
      rw [observe_alloc serves, credit_applied build s acontext size flags _ none rfl]
      rfl
    · refine ⟨some n, fun answer => shareOf build size flags own (reply answer).1
        (reply answer).2, nofun, ?_⟩
      rintro s rfl
      rw [Option.map_map] at same
      have serves : coreServed build s acontext size flags =
          ⟨(reply s.arena.next).1, (reply s.arena.next).2, s.arena.after n⟩ :=
        congrFun same s.arena
      rw [observe_alloc serves, credit_applied build s acontext size flags _ (some n) rfl]
      rfl
  | bump i size =>
    cases own with
    | none =>
      exact ⟨none, fun _ => ⟨0#w, ⟨⟨0#w, 0#w⟩, 0, 0⟩, 0#64⟩, fun _ _ => rfl,
        fun s same => nomatch same⟩
    | some context =>
      refine ⟨none, fun _ => match inlineBump context.window size with
        | some bumped => ⟨bumped.1, { context with window := bumped.2 }, 0#64⟩
        | none => ⟨0#w, context, 0#64⟩, fun _ _ => rfl, ?_⟩
      intro s same
      obtain rfl : s.contexts i = context := Option.some.inj same
      cases bumped : inlineBump (s.contexts i).window size with
      | some served => simp [observe, returned, step, applied, target, bumped]
      | none => simp [observe, returned, step, applied, target, bumped]

/-- A step whose call of `ugc_zalloc` gets a given answer. -/
def supplied (build : Build w) (s : GcHeap w ι) (p : Event w ι × Option (Word w)) :
    Word w × GcHeap w ι := observe build (supply s p.2) p.1

/-- The answer that an event gets, if it asks for one. -/
def answerOf (build : Build w) (s : GcHeap w ι) (e : Event w ι) : Option (Word w) :=
  if (step build s e).arena.calls.length = s.arena.calls.length then none
  else some s.arena.next

/-- The events of a run with the answers they get, and the pointers they hand out. -/
def history (build : Build w) :
    GcHeap w ι → List (Event w ι) → List ((Event w ι × Option (Word w)) × Word w)
  | _, [] => []
  | s, e :: events =>
    ((e, answerOf build s e), returned build s e) :: history build (step build s e) events

def witnessed (build : Build w) (s : GcHeap w ι) (events : List (Event w ι)) :
    List (Event w ι × Option (Word w)) := (history build s events).map Prod.fst

/-- The context of an event, with or without an answer. -/
def thread (p : Event w ι × Option (Word w)) : Option ι := target p.1

theorem after_bytes {s t : Arena w} (bytes : s.bytes = t.bytes) (next : s.next = t.next)
    (n : Word w) : (s.after n).bytes = (t.after n).bytes := by
  rw [bytes_after, bytes_after, bytes, next]

theorem applied_alike {s t : GcHeap w ι} (same : Alike s t) (e : Event w ι)
    {asked : Option (Word w)} (next : asked ≠ none → s.arena.next = t.arena.next)
    (share : Share w) :
    Alike (applied s e asked share) (applied t e asked share) where
  contexts := by
    unfold applied
    rw [same.contexts]
  allocatedBytes := congrArg (· + share.credit) same.allocatedBytes
  calls := by
    cases asked with
    | none => exact same.calls
    | some n =>
      simp only [applied, Arena.after, ugcZalloc, next (Option.some_ne_none n)]
      exact same.calls.cons _
  bytes := by
    cases asked with
    | none => exact same.bytes
    | some n => exact after_bytes same.bytes (next (Option.some_ne_none n)) n

theorem applied_calls (s : GcHeap w ι) (answer : Option (Word w)) (e : Event w ι)
    (asked : Option (Word w)) (share : Share w) :
    (applied (supply s answer) e asked share).arena.calls =
      (asked.map fun n => Call.mk n (answer.getD 0#w)).toList ++ s.arena.calls := by
  cases asked with
  | none => rfl
  | some n =>
    simp only [applied, Arena.after, ugcZalloc, supply_next]
    rfl

/-- The bytes after a call that asked for n bytes, or for none. -/
def zeroed (asked : Option (Word w)) (answer : Word w) (bytes : Nat → UInt8) : Nat → UInt8 :=
  match asked with
  | none => bytes
  | some n => if answer = 0#w then bytes else fill ⟨answer.toNat, n.toNat⟩ 0 bytes

theorem applied_bytes (s : GcHeap w ι) (answer : Option (Word w)) (e : Event w ι)
    (asked : Option (Word w)) (share : Share w) :
    (applied (supply s answer) e asked share).arena.bytes =
      zeroed asked (answer.getD 0#w) s.arena.bytes := by
  cases asked with
  | none => rfl
  | some n =>
    simp only [applied, bytes_after, supply_next]
    rfl

theorem fill_comm (e f : Extent) (bytes : Nat → UInt8) :
    fill e 0 (fill f 0 bytes) = fill f 0 (fill e 0 bytes) := by
  funext a
  unfold fill
  by_cases first : e.Holds a <;> by_cases second : f.Holds a <;> simp [first, second]

theorem zeroed_comm (asked asks : Option (Word w)) (a b : Word w) (bytes : Nat → UInt8) :
    zeroed asks b (zeroed asked a bytes) = zeroed asked a (zeroed asks b bytes) := by
  unfold zeroed
  cases asked with
  | none => rfl
  | some n =>
    cases asks with
    | none => rfl
    | some m =>
      by_cases first : a = 0#w <;> by_cases second : b = 0#w <;>
        simp [first, second, fill_comm]

/-- What events of different threads do can be done in either order. -/
theorem applied_swap (s : GcHeap w ι) {e f : Event w ι} (apart : Apart target e f)
    (a b : Option (Word w)) (asked asks : Option (Word w)) (share other : Share w) :
    Alike (applied (supply (applied (supply s a) e asked share) b) f asks other)
      (applied (supply (applied (supply s b) f asks other) a) e asked share) where
  contexts := by
    simp only [applied, supply, onArena]
    cases here : target e with
    | none => rfl
    | some i =>
      cases there : target f with
      | none => rfl
      | some j =>
        have distinct : i ≠ j := fun same => apart i here (there.trans (congrArg some same.symm))
        exact Function.update_comm distinct _ _ _
  allocatedBytes := by
    change s.allocatedBytes + share.credit + other.credit =
      s.allocatedBytes + other.credit + share.credit
    rw [BitVec.add_assoc, BitVec.add_comm share.credit, BitVec.add_assoc]
  calls := by
    simp only [applied_calls]
    exact List.perm_append_comm_assoc _ _ _
  bytes := by
    simp only [applied_bytes]
    exact zeroed_comm asked asks _ _ _

theorem supplied_other (build : Build w) (s : GcHeap w ι) (p : Event w ι × Option (Word w))
    {i : ι} (other : thread p ≠ some i) :
    (supplied build s p).2.contexts i = s.contexts i := step_other build (supply s p.2) p.1 other

theorem own_of_apart {build : Build w} {s : GcHeap w ι} {p q : Event w ι × Option (Word w)}
    (apart : Apart thread p q) :
    (target q.1).map (supplied build s p).2.contexts = (target q.1).map s.contexts := by
  cases there : target q.1 with
  | none => rfl
  | some j =>
    have other : thread p ≠ some j := fun here => apart j here there
    exact congrArg some (supplied_other build s p other)

theorem supplied_follows {build : Build w} {p : Event w ι × Option (Word w)}
    {own : Option (AllocContext w)} {asked : Option (Word w)} {share : Word w → Share w}
    (follows : Follows build p.1 own asked share) {s : GcHeap w ι}
    (same : (target p.1).map s.contexts = own) :
    supplied build s p = ((share (p.2.getD 0#w)).object,
      applied (supply s p.2) p.1 asked (share (p.2.getD 0#w))) := by
  have done := follows.2 (supply s p.2) same
  rwa [supply_next] at done

theorem heap_exchanges (build : Build w) :
    Exchanges (supplied build) thread (Alike : GcHeap w ι → GcHeap w ι → Prop) where
  equivalence := alike_equivalence
  congr {s t} same p := by
    obtain ⟨asked, share, follows⟩ := step_follows build p.1 ((target p.1).map s.contexts)
    have other : (target p.1).map t.contexts = (target p.1).map s.contexts := by
      rw [same.contexts]
    rw [supplied_follows follows rfl, supplied_follows follows other]
    refine ⟨rfl, applied_alike ?_ p.1 (fun _ => ?_) _⟩
    · exact ⟨same.contexts, same.allocatedBytes, same.calls, same.bytes⟩
    · rw [supply_next, supply_next]
  answer s {p q} apart := by
    obtain ⟨asked, share, follows⟩ := step_follows build q.1 ((target q.1).map s.contexts)
    have still : (target q.1).map (next (supplied build) s p).contexts = _ := own_of_apart apart
    rw [supplied_follows follows still, supplied_follows follows rfl]
  order s {p q} apart := by
    obtain ⟨asked, share, first⟩ := step_follows build p.1 ((target p.1).map s.contexts)
    obtain ⟨asks, other, second⟩ := step_follows build q.1 ((target q.1).map s.contexts)
    have mine : (target p.1).map (supplied build s q).2.contexts = _ :=
      own_of_apart (apart_symm apart)
    have yours : (target q.1).map (supplied build s p).2.contexts = _ := own_of_apart apart
    unfold next
    rw [supplied_follows second yours, supplied_follows first mine,
      supplied_follows first rfl, supplied_follows second rfl]
    exact applied_swap s apart _ _ _ _ _ _

theorem heap_isolated (build : Build w) :
    Isolated (supplied build) thread (fun (s : GcHeap w ι) i => s.contexts i) where
  own s t p i here same := by
    obtain ⟨asked, share, follows⟩ := step_follows build p.1 ((target p.1).map s.contexts)
    have mine : target p.1 = some i := here
    have other : (target p.1).map t.contexts = (target p.1).map s.contexts := by
      rw [mine]
      exact congrArg some same.symm
    rw [supplied_follows follows rfl, supplied_follows follows other]
    refine ⟨rfl, ?_⟩
    simp only [applied, mine, Function.update_self]
  other s p i other := supplied_other build s p other

theorem arena_called (s : GcHeap w ι) (e : Event w ι) (asked : Option (Word w)) (share : Share w) :
    (applied s e asked share).arena.calls.length = s.arena.calls.length ↔ asked = none := by
  cases asked with
  | none => exact iff_of_true rfl rfl
  | some n => simp [applied, Arena.after, ugcZalloc]

theorem answer_of_follows {build : Build w} {s : GcHeap w ι} {e : Event w ι}
    {asked : Option (Word w)} {share : Word w → Share w}
    (follows : Follows build e ((target e).map s.contexts) asked share) :
    share ((answerOf build s e).getD 0#w) = share s.arena.next ∧
      (asked ≠ none → (answerOf build s e).getD 0#w = s.arena.next) := by
  have stepped : step build s e = _ := congrArg Prod.snd (follows.2 s rfl)
  have called := arena_called s e asked (share s.arena.next)
  unfold answerOf
  rw [stepped]
  cases asked with
  | none =>
    rw [if_pos (called.mpr rfl)]
    exact ⟨(follows.1 rfl _).trans (follows.1 rfl _).symm, fun some => absurd rfl some⟩
  | some n =>
    rw [if_neg fun same => nomatch called.mp same]
    exact ⟨rfl, fun _ => rfl⟩

/-- A step comes to the same where its answer is all that the allocator has to give. -/
theorem supplied_answer (build : Build w) {s t : GcHeap w ι} (same : Alike s t) (e : Event w ι) :
    (supplied build t (e, answerOf build s e)).1 = returned build s e ∧
      Alike (step build s e) (supplied build t (e, answerOf build s e)).2 := by
  obtain ⟨asked, share, follows⟩ := step_follows build e ((target e).map s.contexts)
  obtain ⟨handed, stepped⟩ := Prod.mk.inj (follows.2 s rfl)
  obtain ⟨shared, next⟩ := answer_of_follows follows
  have other : (target e).map t.contexts = (target e).map s.contexts := by rw [same.contexts]
  have done : supplied build t (e, answerOf build s e) = _ := supplied_follows follows other
  simp only [shared] at done
  rw [done, handed, stepped]
  refine ⟨rfl, applied_alike ?_ e (fun asks => ?_) _⟩
  · exact alike_equivalence.trans same (alike_equivalence.symm (supply_alike t _))
  · rw [supply_next, next asks]

theorem history_supplied (build : Build w) {s t : GcHeap w ι} (same : Alike s t)
    (events : List (Event w ι)) :
    history build s events = answered (supplied build) t (witnessed build s events) ∧
      Alike (run (step build) s events)
        (run (next (supplied build)) t (witnessed build s events)) := by
  induction events generalizing s t with
  | nil => exact ⟨rfl, same⟩
  | cons e events ih =>
    obtain ⟨handed, after⟩ := supplied_answer build same e
    obtain ⟨later, final⟩ := ih after
    refine ⟨?_, final⟩
    rw [history, later, ← handed]
    rfl

section Threads
variable (build : Build w) {s t : GcHeap w ι} {events others : List (Event w ι)}

/-- A thread whose calls get the same answers gets the same pointers and has the same
    context, whatever the other threads do in the meantime. -/
theorem thread_isolated {i : ι} (same : s.contexts i = t.contexts i)
    (parts : part thread i (witnessed build s events) = part thread i (witnessed build t others)) :
    part (thread ∘ Prod.fst) i (history build s events) =
        part (thread ∘ Prod.fst) i (history build t others) ∧
      (run (step build) s events).contexts i = (run (step build) t others).contexts i := by
  obtain ⟨first, one⟩ := history_supplied build (alike_equivalence.refl s) events
  obtain ⟨second, other⟩ := history_supplied build (alike_equivalence.refl t) others
  obtain ⟨answers, final⟩ := isolated_agree (heap_isolated build) same parts
  rw [first, second]
  refine ⟨answers, ?_⟩
  rw [one.contexts, other.contexts]
  exact final

/-- Two orders in which threads take turns, each keeping the order of the calls of every
    thread: every call gets the same pointer, and the heaps come out alike. -/
theorem interleavings_agree (same : Alike s t)
    (reordered : Reordered thread (witnessed build s events) (witnessed build t others)) :
    Reordered (thread ∘ Prod.fst) (history build s events) (history build t others) ∧
      Alike (run (step build) s events) (run (step build) t others) := by
  obtain ⟨first, one⟩ := history_supplied build (alike_equivalence.refl s) events
  obtain ⟨second, other⟩ := history_supplied build (alike_equivalence.refl t) others
  obtain ⟨answers, final⟩ := orders_agree (heap_exchanges build) same reordered
  rw [first, second]
  refine ⟨answers, ?_⟩
  exact alike_equivalence.trans one (alike_equivalence.trans final (alike_equivalence.symm other))

end Threads

def firstCall : Event 64 Bool := .alloc (some false) 24#64 0#32

def secondCall : Event 64 Bool := .alloc (some true) 40#64 0#32

/-- The first calls of two threads, and the same calls in the other order. -/
theorem two_orders :
    witnessed build64 (initial (emptyArena64 [65536#64, 131072#64])) [firstCall, secondCall] =
        [(firstCall, some 65536#64), (secondCall, some 131072#64)] ∧
      witnessed build64 (initial (emptyArena64 [131072#64, 65536#64])) [secondCall, firstCall] =
        [(secondCall, some 131072#64), (firstCall, some 65536#64)] := ⟨rfl, rfl⟩

theorem thread_isolated_sample :
    (run (step build64) (initial (emptyArena64 [65536#64, 131072#64]))
        [firstCall, secondCall]).contexts true =
      (run (step build64) (initial (emptyArena64 [131072#64])) [secondCall]).contexts true := by
  have parts : part thread true (witnessed build64 (initial (emptyArena64 [65536#64, 131072#64]))
      [firstCall, secondCall]) =
      part thread true (witnessed build64 (initial (emptyArena64 [131072#64])) [secondCall]) := rfl
  have same : (initial (emptyArena64 [65536#64, 131072#64]) : GcHeap 64 Bool).contexts true =
      (initial (emptyArena64 [131072#64]) : GcHeap 64 Bool).contexts true := rfl
  exact (thread_isolated build64 same parts).2

theorem interleavings_agree_sample :
    Alike (run (step build64) (initial (emptyArena64 [65536#64, 131072#64]))
        [firstCall, secondCall])
      (run (step build64) (initial (emptyArena64 [131072#64, 65536#64]))
        [secondCall, firstCall]) := by
  have same : Alike (initial (emptyArena64 [65536#64, 131072#64]) : GcHeap 64 Bool)
      (initial (emptyArena64 [131072#64, 65536#64])) := ⟨rfl, rfl, .refl _, rfl⟩
  refine (interleavings_agree build64 same ?_).2
  rw [two_orders.1, two_orders.2]
  refine ⟨.swap _ _ _, fun k => ?_⟩
  cases k <;> rfl

end UgcHeapThreads
