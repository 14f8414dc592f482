import Ugc.Contracts
import Ugc.HandleStore

/-!
The contracts that `ugc_core.h` and `ugc_core.c` publish for the handle store, clause by
clause, and the functions of the store against them. The creates are checked against the
contract of `ugc_handle_slot_acquire`, not against its body.
-/
namespace UgcPublishedContracts
open StepRuns Contracts UgcAllocator UgcHandleStore
variable {w : Nat}

/-- The calls of the handle store's functions that take an index, a slot or values. -/
inductive StoreCall (w : Nat) where
  | create (object : Word w) (type : Int)
  | createWithExtra (object : Word w) (type : Int) (extra : Word w)
  | createDependent (primary secondary : Word w) (type : Int)
  | destroyAt (idx : Nat)
  | dependentSlotAt (idx : Nat)
  | setDependentAt (idx : Nat) (secondary : Word w)
  | getTypeAt (idx : Nat)
  | setTypeAt (idx : Nat) (type : Int)
  | getExtraAt (idx : Nat)
  | setExtraAt (idx : Nat) (extra : Word w)
  | storeReset
  | slotStore (slot : Cell) (object : Word w)
  | slotStoreIfNull (slot : Cell) (object : Word w)
  | slotCas (slot : Cell) (object comparand : Word w)

inductive Result (w : Nat) where
  | nothing
  | handle (slot : Option Nat)
  | cell (slot : Cell)
  | object (value : Word w)
  | type (value : Int)
  | flag (value : Bool)
  deriving DecidableEq

def perform (s : Store w) : StoreCall w → Result w × Store w
  | .create object type =>
    let made := ugcHandleCreate s object type
    (.handle made.1, made.2)
  | .createWithExtra object type extra =>
    let made := ugcHandleCreateWithExtra s object type extra
    (.handle made.1, made.2)
  | .createDependent primary secondary type =>
    let made := ugcHandleCreateDependent s primary secondary type
    (.handle made.1, made.2)
  | .destroyAt idx => (.nothing, ugcHandleDestroyAt s idx)
  | .dependentSlotAt idx => (.cell (.dependent idx), s)
  | .setDependentAt idx secondary => (.nothing, ugcHandleSetDependentAt s idx secondary)
  | .getTypeAt idx => (.type (ugcHandleGetTypeAt s idx), s)
  | .setTypeAt idx type => (.nothing, ugcHandleSetTypeAt s idx type)
  | .getExtraAt idx => (.object (ugcHandleGetExtraAt s idx), s)
  | .setExtraAt idx extra => (.nothing, ugcHandleSetExtraAt s idx extra)
  | .storeReset => (.nothing, ugcHandleStoreReset s)
  | .slotStore slot object => (.nothing, ugcHandleSlotStore s object slot)
  | .slotStoreIfNull slot object =>
    let stored := ugcHandleSlotStoreIfNull s slot object
    (.flag stored.1, stored.2)
  | .slotCas slot object comparand =>
    let swapped := ugcHandleSlotCas s slot object comparand
    (.object swapped.1, swapped.2)

/-- The locations of the store that a contract can name. -/
inductive Loc where
  | count
  | freeCount
  | handles (i : Nat)
  | types (i : Nat)
  | extra (i : Nat)
  | dependent (i : Nat)
  | freeStack (i : Nat)

def Same : Loc → Store w → Store w → Prop
  | .count, s, t => t.count = s.count
  | .freeCount, s, t => t.freeCount = s.freeCount
  | .handles i, s, t => t.handles i = s.handles i
  | .types i, s, t => t.types i = s.types i
  | .extra i, s, t => t.extra i = s.extra i
  | .dependent i, s, t => t.dependent i = s.dependent i
  | .freeStack i, s, t => t.freeStack i = s.freeStack i

def counts : Set Loc := {.count, .freeCount}

/-- The four arrays at one index. -/
def cells (idx : Nat) : Set Loc := {.handles idx, .types idx, .extra idx, .dependent idx}

def arrays : Set Loc := {l | ∃ i < ugcHandleCount, l ∈ cells i}

def stack : Set Loc := {l | ∃ i < ugcHandleCount, l = .freeStack i}

def locOf : Cell → Loc
  | .handle idx => .handles idx
  | .dependent idx => .dependent idx

/-- `ugc_store_consistent`. -/
def Consistent (s : Store w) : Prop :=
  s.count ≤ ugcHandleCount ∧ s.freeCount ≤ ugcHandleCount ∧
    ∀ k < s.freeCount, s.freeStack k < s.count

/-- The assumptions of the behaviours `full`, `recycled` and `fresh`. -/
def Full (s : Store w) : Prop := s.freeCount = 0 ∧ s.count = ugcHandleCount

def Recycled (s : Store w) : Prop := 0 < s.freeCount

def FreshSlot (s : Store w) : Prop := s.freeCount = 0 ∧ s.count < ugcHandleCount

def slotAcquireContract : Contract (Store w) (Option Nat) Loc where
  requires := Consistent
  assigns := counts
  ensures _ _ t := Consistent t
  behaviors :=
    [⟨Full, ∅, fun s r t => r = none ∧ t.count = s.count ∧ t.freeCount = s.freeCount⟩,
      ⟨Recycled, Set.univ, fun s r t => t.freeCount = s.freeCount - 1 ∧ t.count = s.count ∧
        ∃ i, r = some i ∧ i = t.freeStack t.freeCount ∧ i < t.count⟩,
      ⟨FreshSlot, Set.univ, fun s r t => r = some s.count ∧ t.count = s.count + 1 ∧
        t.freeCount = 0⟩]

/-- The contract of the three creates, for the record that each of them writes. -/
def createContract (record : Record w) : Contract (Store w) (Result w) Loc where
  requires s := Consistent s ∧ 0 ≤ record.type
  assigns := counts ∪ arrays
  ensures _ _ t := Consistent t
  behaviors :=
    [⟨Full, Set.univ, fun s r t => r = .handle none ∧ t.count = s.count ∧
        t.freeCount = s.freeCount⟩,
      ⟨Recycled, Set.univ, fun s r t => t.freeCount = s.freeCount - 1 ∧ t.count = s.count ∧
        r = .handle (some (t.freeStack t.freeCount)) ∧
        t.slot (t.freeStack t.freeCount) = record⟩,
      ⟨FreshSlot, Set.univ, fun s r t => r = .handle (some s.count) ∧ t.slot s.count = record ∧
        t.count = s.count + 1 ∧ t.freeCount = 0⟩]

def destroyAtContract (idx : Nat) : Contract (Store w) (Result w) Loc where
  requires s := Consistent s ∧ idx < s.count
  assigns := {.freeCount} ∪ stack ∪ cells idx
  ensures _ _ t := Consistent t
  behaviors :=
    [⟨fun s => s.types idx < 0 ∨ s.freeCount = ugcHandleCount, ∅, fun _ _ _ => True⟩,
      ⟨fun s => 0 ≤ s.types idx ∧ s.freeCount < ugcHandleCount, Set.univ, fun s _ t =>
        t.slot idx = Record.freed ∧ t.freeCount = s.freeCount + 1 ∧
        t.freeStack s.freeCount = idx⟩]

/-- A function that reads at an index: it assigns nothing and returns what it found. -/
def readContract (idx : Nat) (found : Store w → Result w) :
    Contract (Store w) (Result w) Loc where
  requires _ := idx < ugcHandleCount
  assigns := ∅
  ensures _ r t := r = found t
  behaviors := []

/-- A function that writes one location at an index. -/
def writeContract (idx : Nat) (l : Loc) (written : Store w → Prop) :
    Contract (Store w) (Result w) Loc where
  requires _ := idx < ugcHandleCount
  assigns := {l}
  ensures _ _ t := written t
  behaviors := []

def storeResetContract : Contract (Store w) (Result w) Loc where
  requires _ := True
  assigns := counts ∪ arrays ∪ stack
  ensures _ _ t := t.count = 0 ∧ t.freeCount = 0 ∧ Consistent t ∧
    ∀ i < ugcHandleCount, t.slot i = Record.null ∧ t.freeStack i = 0
  behaviors := []

/-- `\valid(slot)`: the slot lies within its array. -/
def slotStoreIfNullContract (slot : Cell) (object : Word w) :
    Contract (Store w) (Result w) Loc where
  requires _ := slot.idx < ugcHandleCount
  assigns := {locOf slot}
  ensures _ _ _ := True
  behaviors :=
    [⟨fun s => s.read slot = 0#w, Set.univ, fun _ r t => t.read slot = object ∧ r = .flag true⟩,
      ⟨fun s => s.read slot ≠ 0#w, Set.univ, fun s r t =>
        t.read slot = s.read slot ∧ r = .flag false⟩]

def slotCasContract (slot : Cell) (object comparand : Word w) :
    Contract (Store w) (Result w) Loc where
  requires _ := slot.idx < ugcHandleCount
  assigns := {locOf slot}
  ensures _ _ _ := True
  behaviors :=
    [⟨fun s => s.read slot = comparand, Set.univ, fun _ r t =>
        t.read slot = object ∧ r = .object object⟩,
      ⟨fun s => s.read slot ≠ comparand, Set.univ, fun s r t =>
        t.read slot = s.read slot ∧ r = .object (s.read slot)⟩]

def contract : StoreCall w → Contract (Store w) (Result w) Loc
  | .create object type => createContract ⟨object, type, 0#w, 0#w⟩
  | .createWithExtra object type extra => createContract ⟨object, type, extra, 0#w⟩
  | .createDependent primary secondary type => createContract ⟨primary, type, 0#w, secondary⟩
  | .destroyAt idx => destroyAtContract idx
  | .dependentSlotAt idx => readContract idx fun _ => .cell (.dependent idx)
  | .setDependentAt idx secondary =>
    writeContract idx (.dependent idx) fun t => t.dependent idx = secondary
  | .getTypeAt idx => readContract idx fun t => .type (t.types idx)
  | .setTypeAt idx type => writeContract idx (.types idx) fun t => t.types idx = type
  | .getExtraAt idx => readContract idx fun t => .object (t.extra idx)
  | .setExtraAt idx extra => writeContract idx (.extra idx) fun t => t.extra idx = extra
  | .storeReset => storeResetContract
  | .slotStore slot object =>
    writeContract slot.idx (locOf slot) fun t => t.read slot = object
  | .slotStoreIfNull slot object => slotStoreIfNullContract slot object
  | .slotCas slot object comparand => slotCasContract slot object comparand

theorem same_refl (l : Loc) (s : Store w) : Same l s s := by
  cases l <;> rfl

theorem same_trans (l : Loc) (s t u : Store w) (first : Same l s t) (second : Same l t u) :
    Same l s u := by
  cases l <;> exact Eq.trans second first

/-- The counts and the stack are all that the consistency of a store depends on. -/
theorem consistent_kept {s t : Store w} {assigns : Set Loc} (kept : Kept Same assigns s t)
    (counts_kept : Loc.count ∉ assigns ∧ Loc.freeCount ∉ assigns)
    (stack_kept : ∀ i, Loc.freeStack i ∉ assigns) (consistent : Consistent s) : Consistent t := by
  have count : t.count = s.count := kept .count counts_kept.1
  have freeCount : t.freeCount = s.freeCount := kept .freeCount counts_kept.2
  obtain ⟨bound, freeBound, listed⟩ := consistent
  rw [← count] at bound
  rw [← freeCount] at freeBound
  refine ⟨bound, freeBound, fun k below => ?_⟩
  have entry : t.freeStack k = s.freeStack k := kept (.freeStack k) (stack_kept k)
  rw [entry, count]
  exact listed k (freeCount ▸ below)

theorem set_slot_kept (s : Store w) (idx : Nat) (record : Record w) :
    Kept Same (cells idx) s (s.setSlot idx record) := by
  intro l outside
  cases l with
  | count | freeCount | freeStack i => rfl
  | handles i | types i | extra i | dependent i =>
    refine Function.update_of_ne (fun same => outside ?_) _ _
    simp [cells, same]

theorem cells_in_arrays {idx : Nat} (inside : idx < ugcHandleCount) : cells idx ⊆ arrays :=
  fun _ member => ⟨idx, inside, member⟩

/-- The behaviours of an acquire and of the creates, which share their assumptions. -/
theorem slots_disjoint {R : Type} {full recycled fresh : Behavior (Store w) R Loc}
    (isFull : full.assumes = Full) (isRecycled : recycled.assumes = Recycled)
    (isFresh : fresh.assumes = FreshSlot) (s : Store w) :
    [full, recycled, fresh].Pairwise fun b d => ¬ (b.assumes s ∧ d.assumes s) := by
  simp only [List.pairwise_cons, List.mem_cons, List.not_mem_nil, or_false, forall_eq_or_imp,
    forall_eq, isFull, isRecycled, isFresh, List.Pairwise.nil, and_true, IsEmpty.forall_iff,
    implies_true]
  unfold Full Recycled FreshSlot
  omega

theorem full_recycled_or_fresh {s : Store w} (consistent : Consistent s) :
    Full s ∨ Recycled s ∨ FreshSlot s := by
  have bound := consistent.1
  unfold Full Recycled FreshSlot
  omega

section Acquire
variable {s : Store w}

theorem acquire_full (full : Full s) : ugcHandleSlotAcquire s = (none, s) := by
  have none := full.1
  have last := full.2
  rw [ugcHandleSlotAcquire, if_neg (by omega), if_neg (by omega)]

theorem acquire_recycled (recycled : Recycled s) : ugcHandleSlotAcquire s =
    (some (s.freeStack (s.freeCount - 1)), { s with freeCount := s.freeCount - 1 }) :=
  if_pos recycled

theorem acquire_fresh (fresh : FreshSlot s) : ugcHandleSlotAcquire s =
    (some s.count, { s with count := s.count + 1 }) := by
  have none := fresh.1
  rw [ugcHandleSlotAcquire, if_neg (by omega), if_pos fresh.2]

theorem acquire_kept (s : Store w) : Kept Same counts s (ugcHandleSlotAcquire s).2 := by
  have frame := acquire_frame s
  intro l outside
  cases l with
  | count => exact absurd (Or.inl rfl) outside
  | freeCount => exact absurd (Or.inr rfl) outside
  | handles i => exact congrArg Record.object (frame.2 i)
  | types i => exact congrArg Record.type (frame.2 i)
  | extra i => exact congrArg Record.extra (frame.2 i)
  | dependent i => exact congrArg Record.dependent (frame.2 i)
  | freeStack i => exact congrFun frame.1 i

theorem acquire_meets :
    Meets Same (ugcHandleSlotAcquire : Store w → Option Nat × Store w) slotAcquireContract := by
  intro s consistent
  have kept := acquire_kept s
  obtain ⟨bound, freeBound, listed⟩ := consistent
  rcases full_recycled_or_fresh ⟨bound, freeBound, listed⟩ with full | recycled | fresh
  · rw [acquire_full full] at kept ⊢
    exact fulfils_case (slots_disjoint rfl rfl rfl s) List.mem_cons_self full kept
      ⟨bound, freeBound, listed⟩ (kept_refl same_refl _ s) ⟨rfl, rfl, rfl⟩
  · rw [acquire_recycled recycled] at kept ⊢
    unfold Recycled at recycled
    refine fulfils_case (slots_disjoint rfl rfl rfl s)
      (List.mem_cons_of_mem _ List.mem_cons_self) recycled kept ?_ (kept_any _ _) ?_
    · exact ⟨bound, by simp only; omega, fun k below => listed k (by simp only at below; omega)⟩
    · exact ⟨rfl, rfl, _, rfl, rfl, listed _ (by omega)⟩
  · rw [acquire_fresh fresh] at kept ⊢
    refine fulfils_case (slots_disjoint rfl rfl rfl s)
      (List.mem_cons_of_mem _ (List.mem_cons_of_mem _ List.mem_cons_self)) fresh kept ?_
      (kept_any _ _) ⟨rfl, rfl, fresh.1⟩
    exact ⟨fresh.2, freeBound, fun k below => Nat.lt_succ_of_lt (listed k below)⟩

/-- A create after an acquire that its contract lets succeed. -/
theorem create_stores (record : Record w) {i : Nat} (given : (ugcHandleSlotAcquire s).1 = some i)
    (kept : Kept Same counts s (ugcHandleSlotAcquire s).2)
    (consistent : Consistent (ugcHandleSlotAcquire s).2)
    (inside : i < (ugcHandleSlotAcquire s).2.count) :
    createSlot s record = (some i, (ugcHandleSlotAcquire s).2.setSlot i record) ∧
      Kept Same (counts ∪ arrays) s ((ugcHandleSlotAcquire s).2.setSlot i record) ∧
      Consistent ((ugcHandleSlotAcquire s).2.setSlot i record) := by
  have made := (create_slot_acquires s record).trans given
  have written := set_slot_kept (ugcHandleSlotAcquire s).2 i record
  refine ⟨Prod.ext made (create_slot_some made), ?_, ?_⟩
  · have bound := Nat.lt_of_lt_of_le inside consistent.1
    exact kept_trans same_trans kept (kept_less written (cells_in_arrays bound))
  · exact consistent_kept written (by simp [cells]) (by simp [cells]) consistent

end Acquire

/-- Each of the creates keeps its contract if the acquire it calls keeps its own. -/
theorem create_meets (record : Record w) :
    Meets Same (fun s => (Result.handle (createSlot s record).1, (createSlot s record).2))
      (createContract record) := by
  rintro s ⟨consistent, live⟩
  obtain ⟨kept, after, behaved, -, -⟩ := acquire_meets s consistent
  rcases full_recycled_or_fresh consistent with full | recycled | fresh
  · obtain ⟨-, none, -, -⟩ := behaved _ List.mem_cons_self full
    have made := (create_slot_acquires s record).trans none
    simp only [made, create_slot_none made]
    exact fulfils_case (slots_disjoint rfl rfl rfl s) List.mem_cons_self full
      (kept_refl same_refl _ s) consistent (kept_refl same_refl _ s) ⟨rfl, rfl, rfl⟩
  · obtain ⟨-, freeCount, count, i, given, top, inside⟩ :=
      behaved _ (List.mem_cons_of_mem _ List.mem_cons_self) recycled
    obtain ⟨made, written, stores⟩ := create_stores record given kept after inside
    simp only [made]
    subst top
    exact fulfils_case (slots_disjoint rfl rfl rfl s)
      (List.mem_cons_of_mem _ List.mem_cons_self) recycled written stores (kept_any _ _)
      ⟨freeCount, count, rfl, slot_set_self _ _ record⟩
  · obtain ⟨-, given, count, freeCount⟩ :=
      behaved _ (List.mem_cons_of_mem _ (List.mem_cons_of_mem _ List.mem_cons_self)) fresh
    obtain ⟨made, written, stores⟩ := create_stores record given kept after (by omega)
    simp only [made]
    exact fulfils_case (slots_disjoint rfl rfl rfl s)
      (List.mem_cons_of_mem _ (List.mem_cons_of_mem _ List.mem_cons_self)) fresh written stores
      (kept_any _ _) ⟨rfl, slot_set_self _ _ record, count, freeCount⟩

section Destroy
variable {s : Store w} {idx : Nat}

theorem freed_kept (live : 0 ≤ s.types idx) (room : s.freeCount < ugcHandleCount) :
    Kept Same ({.freeCount} ∪ stack ∪ cells idx) s (ugcHandleDestroyAt s idx) := by
  rw [destroy_at_effective live (Nat.ne_of_lt room)]
  intro l outside
  have written := set_slot_kept s idx Record.freed l
  cases l with
  | count => rfl
  | freeCount => exact absurd (Or.inl (Or.inl rfl)) outside
  | handles i | types i | extra i | dependent i =>
    exact written fun inside => outside (Or.inr inside)
  | freeStack i =>
    refine Function.update_of_ne (fun top => outside (Or.inl (Or.inr ?_))) _ _
    exact ⟨i, top ▸ room, rfl⟩

theorem freed_consistent (live : 0 ≤ s.types idx) (room : s.freeCount < ugcHandleCount)
    (inside : idx < s.count) (consistent : Consistent s) :
    Consistent (ugcHandleDestroyAt s idx) := by
  rw [destroy_at_effective live (Nat.ne_of_lt room)]
  obtain ⟨bound, freeBound, listed⟩ := consistent
  refine ⟨bound, room, fun k below => ?_⟩
  change k < s.freeCount + 1 at below
  change Function.update s.freeStack s.freeCount idx k < s.count
  by_cases top : k = s.freeCount
  · rw [top, Function.update_self]
    exact inside
  · rw [Function.update_of_ne top]
    exact listed k (by omega)

end Destroy

theorem destroy_at_meets (idx : Nat) :
    Meets Same (fun s : Store w => (Result.nothing, ugcHandleDestroyAt s idx))
      (destroyAtContract idx) := by
  rintro s ⟨consistent, inside⟩
  have freeBound := consistent.2.1
  have disjoint : (destroyAtContract (w := w) idx).behaviors.Pairwise
      fun b d => ¬ (b.assumes s ∧ d.assumes s) := by
    refine List.pairwise_pair.mpr fun both => ?_
    rcases both.1 with free | full
    · exact absurd both.2.1 (Int.not_le.mpr free)
    · exact absurd full (Nat.ne_of_lt both.2.2)
  by_cases already : s.types idx < 0 ∨ s.freeCount = ugcHandleCount
  · have same : ugcHandleDestroyAt s idx = s := if_pos already
    simp only [same]
    exact fulfils_case disjoint List.mem_cons_self already (kept_refl same_refl _ s) consistent
      (kept_refl same_refl _ s) trivial
  · obtain ⟨tag, last⟩ := not_or.mp already
    have live := Int.not_lt.mp tag
    have room := Nat.lt_of_le_of_ne freeBound last
    have pushed := destroy_at_effective live last
    exact fulfils_case disjoint (List.mem_cons_of_mem _ List.mem_cons_self) ⟨live, room⟩
      (freed_kept live room) (freed_consistent live room inside consistent) (kept_any _ _)
      ⟨(destroy_at_frame live last).2.1, congrArg Store.freeCount pushed,
        (congrFun (congrArg Store.freeStack pushed) _).trans (Function.update_self _ _ _)⟩

theorem slot_store_kept (s : Store w) (object : Word w) (slot : Cell) :
    Kept Same {locOf slot} s (ugcHandleSlotStore s object slot) := by
  intro l outside
  cases slot with
  | handle idx =>
    cases l with
    | handles i =>
      exact Function.update_of_ne (fun same => outside (congrArg Loc.handles same)) _ _
    | _ => rfl
  | dependent idx =>
    cases l with
    | dependent i =>
      exact Function.update_of_ne (fun same => outside (congrArg Loc.dependent same)) _ _
    | _ => rfl

theorem set_type_kept (s : Store w) (idx : Nat) (type : Int) :
    Kept Same {.types idx} s (ugcHandleSetTypeAt s idx type) := by
  intro l outside
  cases l with
  | types i => exact Function.update_of_ne (fun same => outside (congrArg Loc.types same)) _ _
  | _ => rfl

theorem set_extra_kept (s : Store w) (idx : Nat) (extra : Word w) :
    Kept Same {.extra idx} s (ugcHandleSetExtraAt s idx extra) := by
  intro l outside
  cases l with
  | extra i => exact Function.update_of_ne (fun same => outside (congrArg Loc.extra same)) _ _
  | _ => rfl

theorem slot_store_read (s : Store w) (object : Word w) (slot : Cell) :
    (ugcHandleSlotStore s object slot).read slot = object := by
  cases slot <;> simp [ugcHandleSlotStore, Store.read]

theorem slot_store_if_null_meets (slot : Cell) (object : Word w) :
    Meets Same (fun s : Store w => (Result.flag (ugcHandleSlotStoreIfNull s slot object).1,
      (ugcHandleSlotStoreIfNull s slot object).2)) (slotStoreIfNullContract slot object) := by
  intro s inside
  have disjoint : (slotStoreIfNullContract slot object).behaviors.Pairwise
      fun b d => ¬ (b.assumes s ∧ d.assumes s) :=
    List.pairwise_pair.mpr fun both => both.2 both.1
  by_cases null : s.read slot = 0#w
  · have stored : ugcHandleSlotStoreIfNull s slot object =
        (true, ugcHandleSlotStore s object slot) := if_pos null
    simp only [stored]
    exact fulfils_case disjoint List.mem_cons_self null (slot_store_kept s object slot) trivial
      (kept_any _ _) ⟨slot_store_read s object slot, rfl⟩
  · have left : ugcHandleSlotStoreIfNull s slot object = (false, s) := if_neg null
    simp only [left]
    exact fulfils_case disjoint (List.mem_cons_of_mem _ List.mem_cons_self) null
      (kept_refl same_refl _ s) trivial (kept_any _ _) ⟨rfl, rfl⟩

theorem slot_cas_meets (slot : Cell) (object comparand : Word w) :
    Meets Same (fun s : Store w => (Result.object (ugcHandleSlotCas s slot object comparand).1,
      (ugcHandleSlotCas s slot object comparand).2)) (slotCasContract slot object comparand) := by
  intro s inside
  have disjoint : (slotCasContract slot object comparand).behaviors.Pairwise
      fun b d => ¬ (b.assumes s ∧ d.assumes s) :=
    List.pairwise_pair.mpr fun both => both.2 both.1
  have read := slot_store_read s object slot
  by_cases found : s.read slot = comparand
  · have swapped : ugcHandleSlotCas s slot object comparand =
        (object, ugcHandleSlotStore s object slot) := (if_pos found).trans (Prod.ext read rfl)
    simp only [swapped]
    exact fulfils_case disjoint List.mem_cons_self found (slot_store_kept s object slot) trivial
      (kept_any _ _) ⟨read, rfl⟩
  · have kept : ugcHandleSlotCas s slot object comparand = (s.read slot, s) := if_neg found
    simp only [kept]
    exact fulfils_case disjoint (List.mem_cons_of_mem _ List.mem_cons_self) found
      (kept_refl same_refl _ s) trivial (kept_any _ _) ⟨rfl, rfl⟩

theorem store_reset_meets :
    Meets Same (fun s : Store w => (Result.nothing, ugcHandleStoreReset s)) storeResetContract := by
  intro s _
  have cleared := clear_slots_spec s ugcHandleCount
  refine fulfils_plain rfl ?_ ⟨rfl, rfl, ⟨Nat.zero_le _, Nat.zero_le _, nofun⟩, fun i inside => ?_⟩
  · intro l outside
    have beyond : ∀ i, l ∈ cells i → (ugcHandleStoreReset s).slot i = s.slot i := by
      intro i own
      rw [ugcHandleStoreReset, zero_counts_slot, (cleared i).1]
      exact if_neg fun inside => outside (Or.inl (Or.inr ⟨i, inside, own⟩))
    cases l with
    | count => exact absurd (Or.inl (Or.inl (Or.inl rfl))) outside
    | freeCount => exact absurd (Or.inl (Or.inl (Or.inr rfl))) outside
    | handles i => exact congrArg Record.object (beyond i (by simp [cells]))
    | types i => exact congrArg Record.type (beyond i (by simp [cells]))
    | extra i => exact congrArg Record.extra (beyond i (by simp [cells]))
    | dependent i => exact congrArg Record.dependent (beyond i (by simp [cells]))
    | freeStack i =>
      exact (cleared i).2.trans (if_neg fun inside => outside (Or.inr ⟨i, inside, rfl⟩))
  · exact ⟨reset_slot inside, (cleared i).2.trans (if_pos inside)⟩

theorem contract_met (call : StoreCall w) :
    Meets Same (fun s => perform s call) (contract call) := by
  cases call with
  | create object type => exact create_meets ⟨object, type, 0#w, 0#w⟩
  | createWithExtra object type extra => exact create_meets ⟨object, type, extra, 0#w⟩
  | createDependent primary secondary type => exact create_meets ⟨primary, type, 0#w, secondary⟩
  | destroyAt idx => exact destroy_at_meets idx
  | dependentSlotAt idx | getTypeAt idx | getExtraAt idx =>
    exact fun s _ => fulfils_plain rfl (kept_refl same_refl _ s) rfl
  | setDependentAt idx secondary =>
    exact fun s _ => fulfils_plain rfl (slot_store_kept s secondary (.dependent idx))
      (slot_store_read s secondary (.dependent idx))
  | setTypeAt idx type =>
    exact fun s _ => fulfils_plain rfl (set_type_kept s idx type) (Function.update_self _ _ _)
  | setExtraAt idx extra =>
    exact fun s _ => fulfils_plain rfl (set_extra_kept s idx extra) (Function.update_self _ _ _)
  | storeReset => exact store_reset_meets
  | slotStore slot object =>
    exact fun s _ => fulfils_plain rfl (slot_store_kept s object slot)
      (slot_store_read s object slot)
  | slotStoreIfNull slot object => exact slot_store_if_null_meets slot object
  | slotCas slot object comparand => exact slot_cas_meets slot object comparand

/-- What the contracts ask of a caller besides a consistent store. -/
def Allowed (s : Store w) : StoreCall w → Prop
  | .create _ type | .createWithExtra _ type _ | .createDependent _ _ type => 0 ≤ type
  | .destroyAt idx => idx < s.count
  | .dependentSlotAt idx | .setDependentAt idx _ | .getTypeAt idx | .setTypeAt idx _
  | .getExtraAt idx | .setExtraAt idx _ => idx < ugcHandleCount
  | .storeReset => True
  | .slotStore slot _ | .slotStoreIfNull slot _ | .slotCas slot _ _ => slot.idx < ugcHandleCount

instance (s : Store w) : (call : StoreCall w) → Decidable (Allowed s call)
  | .create _ type | .createWithExtra _ type _ | .createDependent _ _ type =>
    inferInstanceAs (Decidable (0 ≤ type))
  | .destroyAt idx => inferInstanceAs (Decidable (idx < s.count))
  | .dependentSlotAt idx | .setDependentAt idx _ | .getTypeAt idx | .setTypeAt idx _
  | .getExtraAt idx | .setExtraAt idx _ => inferInstanceAs (Decidable (idx < ugcHandleCount))
  | .storeReset => isTrue trivial
  | .slotStore slot _ | .slotStoreIfNull slot _ | .slotCas slot _ _ =>
    inferInstanceAs (Decidable (slot.idx < ugcHandleCount))

theorem required_of_allowed (s : Store w) (call : StoreCall w) (consistent : Consistent s)
    (allowed : Allowed s call) : (contract call).requires s := by
  cases call with
  | create | createWithExtra | createDependent | destroyAt => exact ⟨consistent, allowed⟩
  | dependentSlotAt | setDependentAt | getTypeAt | setTypeAt | getExtraAt | setExtraAt
  | storeReset | slotStore | slotStoreIfNull | slotCas => exact allowed

/-- By its contract alone a call leaves the store consistent. -/
theorem consistent_after (s : Store w) (call : StoreCall w) (r : Result w) (t : Store w)
    (consistent : Consistent s) (fulfils : Fulfils Same (contract call) s r t) : Consistent t := by
  cases call with
  | create | createWithExtra | createDependent | destroyAt => exact fulfils.ensured
  | storeReset => exact fulfils.ensured.2.2.1
  | dependentSlotAt | getTypeAt | getExtraAt =>
    exact consistent_kept fulfils.assigned ⟨id, id⟩ (fun _ => id) consistent
  | setDependentAt | setTypeAt | setExtraAt =>
    exact consistent_kept fulfils.assigned ⟨nofun, nofun⟩ (fun _ => nofun) consistent
  | slotStore slot | slotStoreIfNull slot | slotCas slot =>
    cases slot <;> exact consistent_kept fulfils.assigned ⟨nofun, nofun⟩ (fun _ => nofun) consistent

/-- Callers that mind the indices and the types of their calls never leave a consistent
    store, and find every published contract kept at every call: its frame, its
    postcondition and the one behaviour whose assumption holds. -/
theorem contracts_hold (s : Store w) (consistent : Consistent s) (calls : List (StoreCall w))
    (allowed : Admitted (fun s call => (perform s call).2) Allowed s calls) :
    Consistent (run (fun s call => (perform s call).2) s calls) ∧
    ∀ before call after, calls = before ++ call :: after →
      let here := run (fun s call => (perform s call).2) s before
      (contract call).requires here ∧
      Fulfils Same (contract call) here (perform here call).1 (perform here call).2 ∧
      ((contract call).behaviors ≠ [] →
        ∃! b, b ∈ (contract call).behaviors ∧ b.assumes here) := by
  obtain ⟨final, each⟩ := run_contracts Consistent contract_met required_of_allowed
    consistent_after consistent allowed
  refine ⟨final, fun before call after split => ?_⟩
  obtain ⟨required, fulfils⟩ := (admitted_iff_each _ _ _ _).mp each before call after split
  exact ⟨required, fulfils, one_behavior fulfils⟩

/-- A slot destroyed twice, a live one tagged as free by its setter, and a create. -/
def sampleCalls : List (StoreCall 64) :=
  [.create 16#64 2, .create 24#64 2, .destroyAt 0, .destroyAt 0, .setTypeAt 1 (-1),
    .createDependent 32#64 40#64 6]

theorem contracts_hold_sample :
    Consistent (run (fun s call => (perform s call).2) initial sampleCalls) :=
  (contracts_hold initial ⟨Nat.zero_le _, Nat.zero_le _, nofun⟩ sampleCalls
    (by decide +kernel)).1

end UgcPublishedContracts
