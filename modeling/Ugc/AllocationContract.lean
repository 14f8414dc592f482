import Ugc.Contracts
import Ugc.HeapSafety

/-!
The contract that `ugc_core.h` publishes for `ugc_core_alloc`. A range is valid if one block
of the arena holds it. The runtime bumps the windows inline between the calls, so that the
window of a call meets the precondition is a fact about whole runs.
-/
namespace UgcAllocationContract
open ByteExtents StepRuns Contracts UgcAllocator UgcExactAllocation UgcHeapRuns UgcHeapSafety
variable {w : Nat} {ι : Type}

/-- What a call finds behind its two pointers, and the memory. -/
structure Given (w : Nat) where
  window : Option (Window w)
  arena : Arena w

/-- The locations `*alloc_ptr_p` and `*alloc_limit_p`. -/
inductive Field where
  | allocPtr
  | allocLimit

def SameField : Field → Given w → Given w → Prop
  | .allocPtr, s, t => t.window.map Window.allocPtr = s.window.map Window.allocPtr
  | .allocLimit, s, t => t.window.map Window.allocLimit = s.window.map Window.allocLimit

def serve (cfg : Config w) (size : Word w) (bypass : Bool) (s : Given w) : Word w × Given w :=
  let served := ugcCoreAlloc cfg.quantum s.window size bypass cfg.header s.arena
  (served.object, ⟨served.window, served.arena⟩)

/-- `\valid(p + (0 .. n - 1))`. -/
def Valid (arena : Arena w) (p : Word w) (n : Nat) : Prop :=
  ∃ b ∈ arena.blocks, Extent.Inside ⟨p.toNat, n⟩ b

def Zero (arena : Arena w) (p : Word w) (n : Nat) : Prop :=
  ∀ i < n, arena.bytes (p.toNat + i) = 0

/-- The clause `context_window`. -/
def ContextWindow (cfg : Config w) (arena : Arena w) (window : Window w) : Prop :=
  window.allocPtr = 0#w ∨ (window.allocPtr.toNat ≤ window.allocLimit.toNat ∧
    window.allocLimit.toNat - window.allocPtr.toNat ≤ cfg.quantum.toNat ∧
    Valid arena window.allocPtr (window.allocLimit.toNat - window.allocPtr.toNat))

/-- The request is for the window, and fits it. -/
def Fits (cfg : Config w) (size : Word w) (bypass : Bool) (window : Window w) : Prop :=
  bypass = false ∧ size.toNat + cfg.header.toNat ≤ cfg.quantum.toNat ∧
    window.allocPtr ≠ 0#w ∧ size.toNat ≤ window.allocLimit.toNat - window.allocPtr.toNat

def Unfit (cfg : Config w) (size : Word w) (bypass : Bool) (window : Window w) : Prop :=
  bypass = false ∧ size.toNat + cfg.header.toNat ≤ cfg.quantum.toNat ∧
    ¬ (window.allocPtr ≠ 0#w ∧ size.toNat ≤ window.allocLimit.toNat - window.allocPtr.toNat)

section Behaviors
variable (cfg : Config w) (size : Word w) (bypass : Bool)

def overflow : Behavior (Given w) (Word w) Field where
  assumes _ := 2 ^ w ≤ size.toNat + cfg.header.toNat
  assigns := ∅
  ensures _ r _ := r = 0#w

def direct : Behavior (Given w) (Word w) Field where
  assumes s := size.toNat + cfg.header.toNat < 2 ^ w ∧
    (s.window = none ∨ bypass = true ∨ cfg.quantum.toNat < size.toNat + cfg.header.toNat)
  assigns := ∅
  ensures _ r t := r = 0#w ∨ (Valid t.arena r size.toNat ∧ Zero t.arena r size.toNat)

def bump : Behavior (Given w) (Word w) Field where
  assumes s := size.toNat + cfg.header.toNat < 2 ^ w ∧
    ∃ window, s.window = some window ∧ Fits cfg size bypass window
  assigns := {.allocPtr}
  ensures s r t := ∃ window ptr, s.window = some window ∧ r = window.allocPtr ∧
    t.window = some ⟨ptr, window.allocLimit⟩ ∧ ptr.toNat = window.allocPtr.toNat + size.toNat ∧
    Valid t.arena r size.toNat

def refill : Behavior (Given w) (Word w) Field where
  assumes s := size.toNat + cfg.header.toNat < 2 ^ w ∧
    ∃ window, s.window = some window ∧ Unfit cfg size bypass window
  assigns := Set.univ
  ensures s r t := (r = 0#w → t.window = s.window) ∧ (r ≠ 0#w → ∃ ptr limit,
    t.window = some ⟨ptr, limit⟩ ∧ ptr.toNat = r.toNat + size.toNat ∧
    limit.toNat = r.toNat + (cfg.quantum.toNat - cfg.header.toNat) ∧
    Valid t.arena r (cfg.quantum.toNat - cfg.header.toNat) ∧
    Zero t.arena r (cfg.quantum.toNat - cfg.header.toNat))

/-- The range of the header is part of `cfg`; of `ugc_zalloc` its own contract is asked. -/
def coreAllocContract : Contract (Given w) (Word w) Field where
  requires s := (∀ window, s.window = some window → ContextWindow cfg s.arena window) ∧
    ZallocContract (serve cfg size bypass s).2.arena
  assigns := Set.univ
  ensures _ _ _ := True
  behaviors := [overflow cfg size, direct cfg size bypass, bump cfg size bypass,
    refill cfg size bypass]

theorem direct_elsewhere {s : Given w} {window : Window w} (given : s.window = some window)
    (shared : bypass = false)
    (small : size.toNat + cfg.header.toNat ≤ cfg.quantum.toNat) :
    ¬ (direct cfg size bypass).assumes s := by
  rintro ⟨-, none | bypassed | large⟩
  · exact Option.some_ne_none window (given.symm.trans none)
  · exact Bool.false_ne_true (shared.symm.trans bypassed)
  · omega

theorem core_alloc_disjoint (s : Given w) :
    (coreAllocContract cfg size bypass).behaviors.Pairwise
      fun b d => ¬ (b.assumes s ∧ d.assumes s) := by
  refine List.pairwise_cons.mpr ⟨?_, List.pairwise_cons.mpr ⟨?_, List.pairwise_pair.mpr ?_⟩⟩
  · intro b member both
    have wraps : 2 ^ w ≤ size.toNat + cfg.header.toNat := both.1
    have room : size.toNat + cfg.header.toNat < 2 ^ w := by
      simp only [List.mem_cons, List.not_mem_nil, or_false] at member
      rcases member with rfl | rfl | rfl <;> exact both.2.1
    omega
  · intro b member both
    simp only [List.mem_cons, List.not_mem_nil, or_false] at member
    rcases member with rfl | rfl <;> obtain ⟨aside, -, window, given, shared, small, -⟩ := both <;>
      exact direct_elsewhere cfg size bypass given shared small aside
  · rintro ⟨⟨-, window, given, -, -, fits⟩, -, other, also, -, -, unfit⟩
    obtain rfl := Option.some.inj (given.symm.trans also)
    exact unfit fits

end Behaviors

section Meets
variable {cfg : Config w} {size : Word w} {bypass : Bool} {s : Given w}

theorem field_refl (l : Field) (s : Given w) : SameField l s s := by
  cases l <;> rfl

/-- The first bytes behind the header of a block just granted. -/
theorem granted_range {arena : Arena w} {n object : Word w} {m : Nat} (granted : arena.next ≠ 0#w)
    (placed : object.toNat = arena.next.toNat + cfg.header.toNat)
    (room : cfg.header.toNat + m ≤ n.toNat) :
    Valid (arena.after n) object m ∧ Zero (arena.after n) object m := by
  constructor
  · refine ⟨_, granted_block granted n, ?_⟩
    simp only [Extent.Inside, stop_mk]
    omega
  · intro i below
    rw [bytes_after, if_neg granted]
    exact fill_held ⟨by simp only; omega, by simp only [stop_mk]; omega⟩

theorem direct_ensures (room : size.toNat + cfg.header.toNat < 2 ^ w)
    (nowrap : ∀ b ∈ (ugcAllocDirect size cfg.header s.arena).2.blocks, b.stop < 2 ^ w) :
    (direct cfg size bypass).ensures s (ugcAllocDirect size cfg.header s.arena).1
      ⟨s.window, (ugcAllocDirect size cfg.header s.arena).2⟩ := by
  by_cases null : s.arena.next = 0#w
  · rw [alloc_direct_null null]
    exact Or.inl rfl
  · rw [alloc_direct_granted null] at nowrap ⊢
    have bytes := add_exact room
    have last := granted_end null nowrap
    exact Or.inr (granted_range null (add_exact (by omega)) (by omega))

theorem refill_ensures {window : Window w} (given : s.window = some window)
    (small : size.toNat + cfg.header.toNat ≤ cfg.quantum.toNat)
    (nowrap : ∀ b ∈ (ugcCtxRefill cfg.quantum window size cfg.header s.arena).arena.blocks,
      b.stop < 2 ^ w) :
    (refill cfg size bypass).ensures s
      (ugcCtxRefill cfg.quantum window size cfg.header s.arena).object
      ⟨(ugcCtxRefill cfg.quantum window size cfg.header s.arena).window,
        (ugcCtxRefill cfg.quantum window size cfg.header s.arena).arena⟩ := by
  by_cases null : s.arena.next = 0#w
  · rw [ctx_refill_null null]
    exact ⟨fun _ => given.symm, fun granted => absurd rfl granted⟩
  · rw [ctx_refill_granted null] at nowrap ⊢
    have last := granted_end null nowrap
    have first : (s.arena.next + cfg.header).toNat = s.arena.next.toNat + cfg.header.toNat :=
      add_exact (by omega)
    refine ⟨fun none => absurd none (granted_object cfg null (by omega) nowrap), fun _ => ?_⟩
    refine ⟨_, _, rfl, ?_, ?_, granted_range null first (by omega)⟩
    · exact add_exact (by rw [first]; omega)
    · rw [add_exact last, first]
      omega

/-- The test of the code for a window that meets the precondition. -/
theorem window_fits {window : Window w} (valid : ContextWindow cfg s.arena window)
    (live : window.allocPtr ≠ 0#w) : size ≤ window.allocLimit - window.allocPtr ↔
      size.toNat ≤ window.allocLimit.toNat - window.allocPtr.toNat := by
  have ordered := (valid.resolve_left live).1
  rw [fits_test ordered]
  omega

theorem bump_ensures {window : Window w} (given : s.window = some window)
    (valid : ContextWindow cfg s.arena window) (live : window.allocPtr ≠ 0#w)
    (fits : size ≤ window.allocLimit - window.allocPtr) :
    (bump cfg size bypass).ensures s window.allocPtr
      ⟨some ⟨window.allocPtr + size, window.allocLimit⟩, s.arena⟩ := by
  have held := (window_fits valid live).mp fits
  obtain ⟨ordered, -, b, block, inside⟩ := valid.resolve_left live
  have last := window.allocLimit.isLt
  refine ⟨window, _, given, rfl, rfl, add_exact (by omega), b, block, ?_⟩
  simp only [Extent.Inside, stop_mk] at inside ⊢
  omega

theorem core_alloc_meets :
    Meets SameField (serve cfg size bypass) (coreAllocContract cfg size bypass) := by
  rintro s ⟨windows, contract⟩
  have nowrap := contract.2
  have disjoint := core_alloc_disjoint cfg size bypass s
  have branch := core_alloc_branch cfg s.window size bypass
  unfold serve at nowrap ⊢
  generalize ugcCoreAlloc cfg.quantum s.window size bypass cfg.header = alloc at branch nowrap ⊢
  cases branch with
  | overflow wraps =>
    exact fulfils_case disjoint List.mem_cons_self wraps (kept_any _ _) trivial
      (kept_refl field_refl _ s) rfl
  | direct room aside =>
    refine fulfils_case disjoint (List.mem_cons_of_mem _ List.mem_cons_self) ⟨room, aside⟩
      (kept_any _ _) trivial ?_ (direct_ensures room nowrap)
    exact fun l _ => by cases l <;> rfl
  | bump window given shared small live fits =>
    have valid := windows window given
    have last := cfg.quantum.isLt
    have held := (window_fits valid live).mp fits
    refine fulfils_case disjoint (List.mem_cons_of_mem _ (List.mem_cons_of_mem _
      List.mem_cons_self)) ⟨by omega, window, given, shared, small, live, held⟩ (kept_any _ _)
      trivial ?_ (bump_ensures given valid live fits)
    intro l outside
    cases l with
    | allocPtr => exact absurd rfl outside
    | allocLimit =>
      simp only [SameField, given]
      rfl
  | refill window given shared small unfit =>
    have last := cfg.quantum.isLt
    refine fulfils_case disjoint (List.mem_cons_of_mem _ (List.mem_cons_of_mem _
      (List.mem_cons_of_mem _ List.mem_cons_self)))
      ⟨by omega, window, given, shared, small, fun held => ?_⟩ (kept_any _ _)
      trivial (kept_any _ _) (refill_ensures given small nowrap)
    exact unfit held.1 ((window_fits (windows window given) held.1).mpr held.2)

theorem context_window {h : Heap w ι} (sound : Sound cfg h) (i : ι) :
    ContextWindow cfg h.arena (h.contexts i) := by
  rcases sound.window i with idle | carved
  · exact Or.inl idle.1
  · have room := window_room carved
    have inside := window_inside carved
    exact Or.inr ⟨carved.high, by omega, _, carved.block, inside⟩

end Meets

section Runs
variable [DecidableEq ι]

/-- In every run the calls of `ugc_core_alloc` meet its precondition, and keep its contract. -/
theorem core_alloc_contract_holds (cfg : Config w) (answers : List (Word w))
    (bytes : Nat → UInt8) (events : List (Event w ι))
    (contract : ZallocContract (run (step cfg) (initial answers bytes) events).arena) :
    ∀ before context size bypass after, events = before ++ .alloc context size bypass :: after →
      let s := run (step cfg) (initial answers bytes) before
      let given : Given w := ⟨context.map s.contexts, s.arena⟩
      (coreAllocContract cfg size bypass).requires given ∧
      Fulfils SameField (coreAllocContract cfg size bypass) given
        (serve cfg size bypass given).1 (serve cfg size bypass given).2 ∧
      ∃! b, b ∈ (coreAllocContract cfg size bypass).behaviors ∧ b.assumes given := by
  intro before context size bypass after split s given
  have granted := (admitted_iff_each _ _ _ _).mp (contract_each cfg contract) before _ after split
  have sound : Sound cfg s :=
    run_sound cfg (initial_sound cfg answers bytes) (contract_step_back cfg _ _ granted)
  have required : (coreAllocContract cfg size bypass).requires given := by
    refine ⟨fun window found => ?_, granted⟩
    obtain ⟨i, -, rfl⟩ := Option.map_eq_some_iff.mp found
    exact context_window sound i
  have fulfils := core_alloc_meets given required
  exact ⟨required, fulfils, one_behavior fulfils (List.cons_ne_nil _ _)⟩

end Runs

/-- The call that refills, after bumps and a write: its window is the precondition's. -/
theorem core_alloc_contract_holds_sample :
    (coreAllocContract config64 65500#64 false).requires
      ⟨some ((run (step config64) (initial sampleAnswers fun _ => 255)
          (sampleEvents.take 7)).contexts false),
        (run (step config64) (initial sampleAnswers fun _ => 255) (sampleEvents.take 7)).arena⟩ :=
  (core_alloc_contract_holds config64 sampleAnswers (fun _ => 255) sampleEvents (by decide +kernel)
    (sampleEvents.take 7) (some false) 65500#64 false [.alloc (some true) 70000#64 false] rfl).1

end UgcAllocationContract
