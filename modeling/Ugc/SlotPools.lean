import Mathlib.Data.Finset.Card
import Mathlib.Data.Finset.Range
import Mathlib.Logic.Function.Basic
import Ugc.StepRuns

/-!
Pools of slot numbers with last-in first-out reuse. A pool hands out the slot
released last, and a slot never used before only if none is free. The held
slots are those handed out and not released since. An array and a length make
the stack that an implementation keeps its free slots in.
-/
namespace SlotPools
open StepRuns
variable {α : Type*} {capacity : Nat}

/-- The first `n` cells of an array read as a stack, its top first. -/
def stacked (cells : Nat → α) : Nat → List α
  | 0 => []
  | n + 1 => cells n :: stacked cells n

theorem length_stacked (cells : Nat → α) (n : Nat) : (stacked cells n).length = n := by
  induction n with
  | zero => rfl
  | succ n ih => rw [stacked, List.length_cons, ih]

theorem mem_stacked {cells : Nat → α} {n : Nat} {x : α} :
    x ∈ stacked cells n ↔ ∃ k < n, cells k = x := by
  induction n with
  | zero => simp [stacked]
  | succ n ih =>
    rw [stacked, List.mem_cons, ih]
    constructor
    · rintro (top | ⟨k, below, cell⟩)
      · exact ⟨n, by omega, top.symm⟩
      · exact ⟨k, by omega, cell⟩
    · rintro ⟨k, below, cell⟩
      by_cases top : k = n
      · exact Or.inl (top ▸ cell.symm)
      · exact Or.inr ⟨k, by omega, cell⟩

theorem nodup_stacked {cells : Nat → α} {n : Nat} :
    (stacked cells n).Nodup ↔ ∀ j k, j < n → k < n → cells j = cells k → j = k := by
  induction n with
  | zero => simp [stacked]
  | succ n ih =>
    rw [stacked, List.nodup_cons, ih, mem_stacked]
    constructor
    · rintro ⟨fresh, apart⟩ j k hj hk same
      by_cases topj : j = n
      · by_cases topk : k = n
        · omega
        · exact absurd ⟨k, by omega, by rw [← same, topj]⟩ fresh
      · by_cases topk : k = n
        · exact absurd ⟨j, by omega, by rw [same, topk]⟩ fresh
        · exact apart j k (by omega) (by omega) same
    · intro apart
      refine ⟨?_, fun j k hj hk same => apart j k (by omega) (by omega) same⟩
      rintro ⟨k, below, same⟩
      have := apart k n (by omega) (by omega) same
      omega

/-- A write at or above the top does not change the stack. -/
theorem stacked_update {cells : Nat → α} {n k : Nat} (above : n ≤ k) (x : α) :
    stacked (Function.update cells k x) n = stacked cells n := by
  induction n with
  | zero => rfl
  | succ n ih =>
    rw [stacked, stacked, ih (by omega), Function.update_of_ne (by omega)]

theorem stacked_push (cells : Nat → α) (n : Nat) (x : α) :
    stacked (Function.update cells n x) (n + 1) = x :: stacked cells n := by
  rw [stacked, Function.update_self, stacked_update (Nat.le_refl n)]

theorem stacked_pop {cells : Nat → α} {n : Nat} (some : 0 < n) :
    stacked cells n = cells (n - 1) :: stacked cells (n - 1) := by
  obtain ⟨n, rfl⟩ : ∃ k, n = k + 1 := ⟨n - 1, by omega⟩
  rfl

theorem stacked_inj {cells other : Nat → α} {n : Nat} :
    stacked cells n = stacked other n ↔ ∀ k < n, cells k = other k := by
  induction n with
  | zero => simp [stacked]
  | succ n ih =>
    rw [stacked, stacked, List.cons.injEq, ih]
    constructor
    · rintro ⟨top, below⟩ k bound
      rcases Nat.lt_succ_iff_lt_or_eq.mp bound with under | rfl
      · exact below k under
      · exact top
    · intro same
      exact ⟨same n (Nat.lt_succ_self n), fun k bound => same k (Nat.lt_succ_of_lt bound)⟩

/-- The slots below `issued` have been handed out at least once; the free ones among
    them are listed in the order they will be reused. -/
@[ext] structure Pool (capacity : Nat) where
  issued : Nat
  free : List Nat
  issued_le : issued ≤ capacity
  free_nodup : free.Nodup
  free_lt : ∀ i ∈ free, i < issued

namespace Pool

def empty : Pool capacity :=
  ⟨0, [], Nat.zero_le capacity, List.nodup_nil, fun _ member => absurd member List.not_mem_nil⟩

def held (p : Pool capacity) : Finset Nat := Finset.range p.issued \ p.free.toFinset

def acquire : Pool capacity → Option Nat × Pool capacity
  | ⟨issued, i :: free, issued_le, free_nodup, free_lt⟩ =>
    (some i, ⟨issued, free, issued_le, free_nodup.of_cons,
      fun j member => free_lt j (List.mem_cons_of_mem i member)⟩)
  | ⟨issued, [], issued_le, free_nodup, free_lt⟩ =>
    if room : issued < capacity then
      (some issued, ⟨issued + 1, [], room, free_nodup,
        fun _ member => absurd member List.not_mem_nil⟩)
    else (none, ⟨issued, [], issued_le, free_nodup, free_lt⟩)

/-- A slot that is not held is not released. -/
def release (p : Pool capacity) (i : Nat) : Pool capacity :=
  if held : i < p.issued ∧ i ∉ p.free then
    ⟨p.issued, i :: p.free, p.issued_le, List.nodup_cons.mpr ⟨held.2, p.free_nodup⟩,
      List.forall_mem_cons.mpr ⟨held.1, p.free_lt⟩⟩
  else p

theorem mem_held {p : Pool capacity} {i : Nat} : i ∈ p.held ↔ i < p.issued ∧ i ∉ p.free := by
  simp [held]

theorem held_lt {p : Pool capacity} {i : Nat} (member : i ∈ p.held) : i < capacity :=
  Nat.lt_of_lt_of_le (mem_held.mp member).1 p.issued_le

theorem card_held (p : Pool capacity) : p.held.card + p.free.length = p.issued := by
  have inside : p.free.toFinset ⊆ Finset.range p.issued := by
    intro i member
    exact Finset.mem_range.mpr (p.free_lt i (List.mem_toFinset.mp member))
  have split := Finset.card_sdiff_add_card_eq_card inside
  rwa [List.toFinset_card_of_nodup p.free_nodup, Finset.card_range] at split

theorem free_length_le (p : Pool capacity) : p.free.length ≤ p.issued := by
  have := p.card_held
  omega

/-- The three ways an acquire can go: reuse of the top, growth, exhaustion. -/
theorem acquire_cases (p : Pool capacity) :
    (∃ i, p.acquire.1 = some i ∧ p.free = i :: p.acquire.2.free ∧ p.acquire.2.issued = p.issued) ∨
    (p.acquire.1 = some p.issued ∧ p.free = [] ∧ p.issued < capacity ∧
      p.acquire.2.free = [] ∧ p.acquire.2.issued = p.issued + 1) ∨
    (p.acquire.1 = none ∧ p.free = [] ∧ p.issued = capacity ∧ p.acquire.2 = p) := by
  obtain ⟨issued, free, issued_le, free_nodup, free_lt⟩ := p
  cases free with
  | cons i free => exact Or.inl ⟨i, rfl, rfl, rfl⟩
  | nil =>
    by_cases room : issued < capacity
    · exact Or.inr (Or.inl (by simp [acquire, room]))
    · exact Or.inr (Or.inr (by simp [acquire, room]; omega))

theorem acquire_some {p : Pool capacity} {i : Nat} (given : p.acquire.1 = some i) :
    i ∉ p.held ∧ p.acquire.2.held = insert i p.held := by
  obtain ⟨j, top, free, issued⟩ | ⟨fresh, free, room, free', issued⟩ | ⟨full, -⟩ := p.acquire_cases
  · obtain rfl : j = i := Option.some.inj (top.symm.trans given)
    have nodup := p.free_nodup
    have below := p.free_lt j (by simp [free])
    rw [free, List.nodup_cons] at nodup
    refine ⟨fun member => (mem_held.mp member).2 (by simp [free]), ?_⟩
    ext k
    rw [Finset.mem_insert, mem_held, mem_held, issued, free, List.mem_cons]
    by_cases same : k = j
    · subst same
      simp [nodup.1, below]
    · simp [same]
  · obtain rfl : p.issued = i := Option.some.inj (fresh.symm.trans given)
    refine ⟨fun member => absurd (mem_held.mp member).1 (Nat.lt_irrefl _), ?_⟩
    ext k
    rw [Finset.mem_insert, mem_held, mem_held, issued, free, free']
    simp only [List.not_mem_nil, not_false_eq_true, and_true]
    omega
  · rw [full] at given
    cases given

theorem acquire_none_iff (p : Pool capacity) : p.acquire.1 = none ↔ p.held.card = capacity := by
  have count := p.card_held
  have bound := p.issued_le
  obtain ⟨i, top, free, -⟩ | ⟨fresh, free, room, -⟩ | ⟨full, free, all, -⟩ := p.acquire_cases
  · rw [free, List.length_cons] at count
    simp only [top, reduceCtorEq, false_iff]
    omega
  · rw [free, List.length_nil] at count
    simp only [fresh, reduceCtorEq, false_iff]
    omega
  · rw [free, List.length_nil] at count
    simp only [full, true_iff]
    omega

theorem acquire_none {p : Pool capacity} (full : p.acquire.1 = none) : p.acquire.2 = p := by
  obtain ⟨i, top, -⟩ | ⟨fresh, -⟩ | ⟨-, -, -, same⟩ := p.acquire_cases
  · simp [top] at full
  · simp [fresh] at full
  · exact same

/-- Growth happens exactly when the held slots outnumber those ever handed out. -/
theorem acquire_issued (p : Pool capacity) :
    p.acquire.2.issued = max p.issued p.acquire.2.held.card := by
  have before := p.card_held
  have after := p.acquire.2.card_held
  obtain ⟨i, -, -, issued⟩ | ⟨-, free, -, free', issued⟩ | ⟨-, -, -, same⟩ := p.acquire_cases
  · omega
  · rw [free', List.length_nil] at after
    omega
  · rw [same]
    omega

theorem release_held {p : Pool capacity} {i : Nat} (member : i ∈ p.held) :
    (p.release i).free = i :: p.free ∧ (p.release i).issued = p.issued ∧
      (p.release i).held = p.held.erase i := by
  have inside := mem_held.mp member
  have opened : p.release i = ⟨p.issued, i :: p.free, p.issued_le,
      List.nodup_cons.mpr ⟨inside.2, p.free_nodup⟩,
      List.forall_mem_cons.mpr ⟨inside.1, p.free_lt⟩⟩ := dif_pos inside
  refine ⟨by rw [opened], by rw [opened], ?_⟩
  rw [opened]
  ext k
  simp only [Finset.mem_erase, mem_held, List.mem_cons]
  tauto

theorem release_of_not_held {p : Pool capacity} {i : Nat} (outside : i ∉ p.held) :
    p.release i = p :=
  dif_neg fun inside => outside (mem_held.mpr inside)

theorem release_issued (p : Pool capacity) (i : Nat) :
    (p.release i).issued = max p.issued (p.release i).held.card := by
  have count := (p.release i).card_held
  by_cases member : i ∈ p.held
  · have same := (release_held member).2.1
    omega
  · rw [release_of_not_held member] at count ⊢
    omega

theorem acquire_top {p : Pool capacity} {i : Nat} {rest : List Nat} (top : p.free = i :: rest) :
    p.acquire.1 = some i ∧ p.acquire.2.free = rest ∧ p.acquire.2.issued = p.issued := by
  obtain ⟨j, given, free, issued⟩ | ⟨-, free, -⟩ | ⟨-, free, -⟩ := p.acquire_cases
  · obtain ⟨rfl, same⟩ := List.cons.inj (top.symm.trans free)
    exact ⟨given, same.symm, issued⟩
  · simp [top] at free
  · simp [top] at free

/-- As many acquires as there are slots above a part of the free list hand these out,
    the top first, and leave that part. -/
theorem acquire_each {E : Type*} {above rest : List Nat} {p : Pool capacity} {es : List E}
    (free : p.free = above ++ rest) (many : es.length = above.length) :
    (trace (fun p (_ : E) => p.acquire) p es).1 = above.map some ∧
      (trace (fun p (_ : E) => p.acquire) p es).2.free = rest ∧
      (trace (fun p (_ : E) => p.acquire) p es).2.issued = p.issued := by
  induction above generalizing p es with
  | nil =>
    obtain rfl := List.eq_nil_of_length_eq_zero many
    exact ⟨rfl, free, rfl⟩
  | cons i above ih =>
    cases es with
    | nil => simp at many
    | cons e es =>
      obtain ⟨given, free', issued⟩ := acquire_top free
      obtain ⟨answers, left, same⟩ := ih free' (Nat.succ.inj many)
      exact ⟨by simp only [trace, answers, given, List.map_cons], left, same.trans issued⟩

/-- The releases of a list that release a held slot, in order. -/
def effective : Pool capacity → List Nat → List Nat
  | _, [] => []
  | p, i :: is => if i ∈ p.held then i :: effective (p.release i) is else effective p is

theorem release_all (p : Pool capacity) (is : List Nat) :
    (run release p is).free = (p.effective is).reverse ++ p.free ∧
      (run release p is).issued = p.issued := by
  induction is generalizing p with
  | nil => exact ⟨rfl, rfl⟩
  | cons i is ih =>
    obtain ⟨free, issued⟩ := ih (p.release i)
    by_cases member : i ∈ p.held
    · obtain ⟨pushed, same, -⟩ := release_held member
      rw [run, free, issued, pushed, same, effective, if_pos member]
      simp
    · rw [release_of_not_held member] at free issued
      rw [run, release_of_not_held member, free, issued, effective, if_neg member]
      exact ⟨rfl, rfl⟩

/-- They are the held slots of the list, each at its first occurrence. -/
theorem effective_eq (p : Pool capacity) (is : List Nat) :
    p.effective is = (is.filter (· ∈ p.held)).eraseDups := by
  induction is generalizing p with
  | nil => rfl
  | cons i is ih =>
    by_cases member : i ∈ p.held
    · have held := (release_held member).2.2
      rw [effective, if_pos member, ih, held, List.filter_cons_of_pos (by simpa using member),
        List.eraseDups_cons, List.filter_filter]
      congr 3
      funext j
      rw [Bool.eq_iff_iff]
      simp [Finset.mem_erase]
    · rw [effective, if_neg member, ih, List.filter_cons_of_neg (by simpa using member)]

theorem held_empty : (empty : Pool capacity).held = ∅ := rfl

end Pool

end SlotPools
