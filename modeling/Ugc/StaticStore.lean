import Ugc.FixedArrays
import Ugc.PublishedContracts

/-!
The handle store as the variables that `ugc_core.c` declares: five arrays of
`UGC_HANDLE_COUNT` elements, types, counts and stack entries of C's `int`. Every access
and every sum is checked, and a function is undefined where one of them is. The calls
that stay inside the arrays are exactly those that are defined in every run, and they do
what they do on the store of unbounded arrays, also where the contracts are broken.
-/
namespace UgcStaticStore
open StepRuns FixedArrays UgcAllocator UgcHandleStore UgcPublishedContracts
variable {w : Nat}

structure Statics (w : Nat) where
  count : CInt
  freeCount : CInt
  handles : Fin ugcHandleCount → Word w
  types : Fin ugcHandleCount → CInt
  extra : Fin ugcHandleCount → Word w
  dependent : Fin ugcHandleCount → Word w
  freeStack : Fin ugcHandleCount → CInt

/-- The variables as they are initialised. -/
def zeroed : Statics w := ⟨0, 0, fun _ => 0#w, fun _ => 0, fun _ => 0#w, fun _ => 0#w, fun _ => 0⟩

def checkedSlotAcquire (s : Statics w) : Option (CInt × Statics w) :=
  if 0 < s.freeCount.toInt then do
    let freeCount ← intPlus s.freeCount (-1)
    let idx ← load s.freeStack freeCount.toInt
    return (idx, { s with freeCount := freeCount })
  else if s.count.toInt < ugcHandleCount then do
    let count ← intPlus s.count 1
    return (s.count, { s with count := count })
  else return (BitVec.ofInt 32 (-1), s)

/-- The four assignments to the arrays at one index. -/
def checkedSetSlot (s : Statics w) (idx : Int) (object : Word w) (type : CInt)
    (extra dependent : Word w) : Option (Statics w) := do
  let handles ← store s.handles idx object
  let types ← store s.types idx type
  let extra ← store s.extra idx extra
  let dependent ← store s.dependent idx dependent
  return { s with handles := handles, types := types, extra := extra, dependent := dependent }

/-- The result `some i` stands for `&ugc_handles[i]`. -/
def checkedCreateSlot (s : Statics w) (object : Word w) (type : CInt) (extra dependent : Word w) :
    Option (Option Nat × Statics w) := do
  let (idx, s) ← checkedSlotAcquire s
  if idx.toInt < 0 then return (none, s)
  else do
    let s ← checkedSetSlot s idx.toInt object type extra dependent
    return (some idx.toInt.toNat, s)

def checkedCreate (s : Statics w) (object : Word w) (type : CInt) :
    Option (Option Nat × Statics w) :=
  checkedCreateSlot s object type 0#w 0#w

def checkedCreateWithExtra (s : Statics w) (object : Word w) (type : CInt) (extra : Word w) :
    Option (Option Nat × Statics w) :=
  checkedCreateSlot s object type extra 0#w

def checkedCreateDependent (s : Statics w) (primary secondary : Word w) (type : CInt) :
    Option (Option Nat × Statics w) :=
  checkedCreateSlot s primary type 0#w secondary

def checkedDestroyAt (s : Statics w) (idx : Word w) : Option (Statics w) := do
  let type ← load s.types idx.toNat
  if type.toInt < 0 ∨ s.freeCount.toInt = ugcHandleCount then return s
  else do
    let s ← checkedSetSlot s idx.toNat 0#w (BitVec.ofInt 32 ugcHandleTypeFree) 0#w 0#w
    let freeStack ← store s.freeStack s.freeCount.toInt (idx.setWidth 32)
    let freeCount ← intPlus s.freeCount 1
    return { s with freeStack := freeStack, freeCount := freeCount }

/-- `&ugc_handle_dependent[idx]`: the address one past the end is one too. -/
def checkedDependentSlotAt (idx : Word w) : Option Cell :=
  if idx.toNat ≤ ugcHandleCount then some (.dependent idx.toNat) else none

def checkedSetDependentAt (s : Statics w) (idx : Word w) (secondary : Word w) :
    Option (Statics w) :=
  (store s.dependent idx.toNat secondary).map fun dependent => { s with dependent := dependent }

def checkedGetTypeAt (s : Statics w) (idx : Word w) : Option CInt := load s.types idx.toNat

def checkedSetTypeAt (s : Statics w) (idx : Word w) (type : CInt) : Option (Statics w) :=
  (store s.types idx.toNat type).map fun types => { s with types := types }

def checkedGetExtraAt (s : Statics w) (idx : Word w) : Option (Word w) :=
  load s.extra idx.toNat

def checkedSetExtraAt (s : Statics w) (idx : Word w) (extra : Word w) : Option (Statics w) :=
  (store s.extra idx.toNat extra).map fun extra => { s with extra := extra }

/-- The loop of `ugc_handle_store_reset` from `i` on, for at most `fuel` tests of `i`. -/
def checkedClear : Nat → CInt → Statics w → Option (Statics w)
  | 0, _, _ => none
  | fuel + 1, i, s =>
    if i.toInt < ugcHandleCount then do
      let s ← checkedSetSlot s i.toInt 0#w 0 0#w 0#w
      let freeStack ← store s.freeStack i.toInt 0
      let i ← intPlus i 1
      checkedClear fuel i { s with freeStack := freeStack }
    else some s

def checkedStoreReset (s : Statics w) : Option (Statics w) := do
  let s ← checkedClear (ugcHandleCount + 1) 0 s
  return { s with count := 0, freeCount := 0 }

def checkedRead (s : Statics w) : Cell → Option (Word w)
  | .handle idx => load s.handles idx
  | .dependent idx => load s.dependent idx

def checkedSlotStore (s : Statics w) (object : Word w) : Cell → Option (Statics w)
  | .handle idx => (store s.handles idx object).map fun handles => { s with handles := handles }
  | .dependent idx =>
    (store s.dependent idx object).map fun dependent => { s with dependent := dependent }

def checkedSlotStoreIfNull (s : Statics w) (slot : Cell) (object : Word w) :
    Option (Bool × Statics w) := do
  let found ← checkedRead s slot
  if found = 0#w then do
    let s ← checkedSlotStore s object slot
    return (true, s)
  else return (false, s)

def checkedSlotCas (s : Statics w) (slot : Cell) (object comparand : Word w) :
    Option (Word w × Statics w) := do
  let found ← checkedRead s slot
  if found = comparand then do
    let s ← checkedSlotStore s object slot
    let left ← checkedRead s slot
    return (left, s)
  else do
    let left ← checkedRead s slot
    return (left, s)

/-- The calls as C makes them: an index is a `size_t`, a type an `int`. -/
inductive StaticCall (w : Nat) where
  | create (object : Word w) (type : CInt)
  | createWithExtra (object : Word w) (type : CInt) (extra : Word w)
  | createDependent (primary secondary : Word w) (type : CInt)
  | destroyAt (idx : Word w)
  | dependentSlotAt (idx : Word w)
  | setDependentAt (idx : Word w) (secondary : Word w)
  | getTypeAt (idx : Word w)
  | setTypeAt (idx : Word w) (type : CInt)
  | getExtraAt (idx : Word w)
  | setExtraAt (idx : Word w) (extra : Word w)
  | storeReset
  | slotStore (slot : Cell) (object : Word w)
  | slotStoreIfNull (slot : Cell) (object : Word w)
  | slotCas (slot : Cell) (object comparand : Word w)

def checkedPerform (s : Statics w) : StaticCall w → Option (Result w × Statics w)
  | .create object type =>
    (checkedCreate s object type).map fun made => (.handle made.1, made.2)
  | .createWithExtra object type extra =>
    (checkedCreateWithExtra s object type extra).map fun made => (.handle made.1, made.2)
  | .createDependent primary secondary type =>
    (checkedCreateDependent s primary secondary type).map fun made => (.handle made.1, made.2)
  | .destroyAt idx => (checkedDestroyAt s idx).map fun s => (.nothing, s)
  | .dependentSlotAt idx => (checkedDependentSlotAt idx).map fun slot => (.cell slot, s)
  | .setDependentAt idx secondary =>
    (checkedSetDependentAt s idx secondary).map fun s => (.nothing, s)
  | .getTypeAt idx => (checkedGetTypeAt s idx).map fun type => (.type type.toInt, s)
  | .setTypeAt idx type => (checkedSetTypeAt s idx type).map fun s => (.nothing, s)
  | .getExtraAt idx => (checkedGetExtraAt s idx).map fun extra => (.object extra, s)
  | .setExtraAt idx extra => (checkedSetExtraAt s idx extra).map fun s => (.nothing, s)
  | .storeReset => (checkedStoreReset s).map fun s => (.nothing, s)
  | .slotStore slot object => (checkedSlotStore s object slot).map fun s => (.nothing, s)
  | .slotStoreIfNull slot object =>
    (checkedSlotStoreIfNull s slot object).map fun stored => (.flag stored.1, stored.2)
  | .slotCas slot object comparand =>
    (checkedSlotCas s slot object comparand).map fun swapped => (.object swapped.1, swapped.2)

/-- The call on the store of unbounded arrays. -/
def StaticCall.plain : StaticCall w → StoreCall w
  | .create object type => .create object type.toInt
  | .createWithExtra object type extra => .createWithExtra object type.toInt extra
  | .createDependent primary secondary type => .createDependent primary secondary type.toInt
  | .destroyAt idx => .destroyAt idx.toNat
  | .dependentSlotAt idx => .dependentSlotAt idx.toNat
  | .setDependentAt idx secondary => .setDependentAt idx.toNat secondary
  | .getTypeAt idx => .getTypeAt idx.toNat
  | .setTypeAt idx type => .setTypeAt idx.toNat type.toInt
  | .getExtraAt idx => .getExtraAt idx.toNat
  | .setExtraAt idx extra => .setExtraAt idx.toNat extra
  | .storeReset => .storeReset
  | .slotStore slot object => .slotStore slot object
  | .slotStoreIfNull slot object => .slotStoreIfNull slot object
  | .slotCas slot object comparand => .slotCas slot object comparand

/-- The index of the call, if it has one, is one of the arrays. -/
def StaticCall.Inside : StaticCall w → Prop
  | .create _ _ | .createWithExtra _ _ _ | .createDependent _ _ _ | .storeReset => True
  | .dependentSlotAt idx => idx.toNat ≤ ugcHandleCount
  | .destroyAt idx | .setDependentAt idx _ | .getTypeAt idx | .setTypeAt idx _ | .getExtraAt idx
  | .setExtraAt idx _ => idx.toNat < ugcHandleCount
  | .slotStore slot _ | .slotStoreIfNull slot _ | .slotCas slot _ _ => slot.idx < ugcHandleCount

/-- What keeps every access inside: less than `ugc_store_consistent`, whose bound on the
    entries of the stack is the count. -/
structure Bounded (s : Store w) : Prop where
  count_le : s.count ≤ ugcHandleCount
  free_le : s.freeCount ≤ ugcHandleCount
  listed : ∀ k < s.freeCount, s.freeStack k < ugcHandleCount

theorem Bounded.same {s t : Store w} (bounded : Bounded s) (count : t.count = s.count)
    (freeCount : t.freeCount = s.freeCount) (freeStack : t.freeStack = s.freeStack) :
    Bounded t := by
  obtain ⟨count_le, free_le, listed⟩ := bounded
  refine ⟨count ▸ count_le, freeCount ▸ free_le, fun k below => ?_⟩
  rw [freeStack]
  exact listed k (freeCount ▸ below)

/-- The variables hold what the store does. -/
structure Represents (s : Statics w) (t : Store w) : Prop where
  bounded : Bounded t
  count : s.count.toInt = t.count
  freeCount : s.freeCount.toInt = t.freeCount
  handles : Shows Eq s.handles t.handles
  types : Shows (fun x type => x.toInt = type) s.types t.types
  extra : Shows Eq s.extra t.extra
  dependent : Shows Eq s.dependent t.dependent
  freeStack : Shows (fun (x : CInt) (k : Nat) => x.toInt = k) s.freeStack t.freeStack

theorem zeroed_represents : Represents (zeroed : Statics w) initial where
  bounded := ⟨Nat.zero_le _, Nat.zero_le _, nofun⟩
  count := rfl
  freeCount := rfl
  handles _ := rfl
  types _ := rfl
  extra _ := rfl
  dependent _ := rfl
  freeStack _ := rfl

theorem capacity_small : (ugcHandleCount : Int) < 2 ^ 31 := by decide

section Steps
variable {s : Statics w} {t : Store w}

theorem set_slot_defined (rep : Represents s t) {i : Nat} (inside : i < ugcHandleCount)
    (object : Word w) {type : CInt} {tag : Int} (typed : type.toInt = tag)
    (extra dependent : Word w) :
    ∃ u, checkedSetSlot s i object type extra dependent = some u ∧
      Represents u (t.setSlot i ⟨object, tag, extra, dependent⟩) ∧
      u.freeCount = s.freeCount := by
  obtain ⟨handles, wrote_handles, shows_handles⟩ := store_shows rep.handles inside (Eq.refl object)
  obtain ⟨types, wrote_types, shows_types⟩ := store_shows rep.types inside typed
  obtain ⟨extras, wrote_extra, shows_extra⟩ := store_shows rep.extra inside (Eq.refl extra)
  obtain ⟨dependents, wrote_dependent, shows_dependent⟩ :=
    store_shows rep.dependent inside (Eq.refl dependent)
  refine ⟨{ s with handles := handles, types := types, extra := extras, dependent := dependents },
    ?_, ?_, rfl⟩
  · simp only [checkedSetSlot, wrote_handles, wrote_types, wrote_extra, wrote_dependent,
      Option.bind_eq_bind, Option.bind_some, Option.pure_def]
  · exact ⟨rep.bounded.same rfl rfl rfl, rep.count, rep.freeCount, shows_handles, shows_types,
      shows_extra, shows_dependent, rep.freeStack⟩

/-- The `int` that an acquire returns for the slot that it found. -/
def Returns (idx : CInt) : Option Nat → Prop
  | some i => idx.toInt = i ∧ i < ugcHandleCount
  | none => idx.toInt < 0

theorem acquire_defined (rep : Represents s t) :
    ∃ idx u, checkedSlotAcquire s = some (idx, u) ∧ Returns idx (ugcHandleSlotAcquire t).1 ∧
      Represents u (ugcHandleSlotAcquire t).2 := by
  obtain ⟨⟨count_le, free_le, listed⟩, count, freeCount, handles, types, extra, dependent,
    freeStack⟩ := rep
  have small := capacity_small
  by_cases recycled : Recycled t
  · rw [acquire_recycled recycled]
    unfold Recycled at recycled
    have popped : 0 < s.freeCount.toInt := by omega
    obtain ⟨less, subtracted, exact_less⟩ :=
      int_plus_some (x := s.freeCount) (d := -1) (by omega) (by omega)
    have entry : less.toInt = ((t.freeCount - 1 : Nat) : Int) := by omega
    have top : t.freeCount - 1 < t.freeCount := by omega
    obtain ⟨idx, loaded, same⟩ := load_shows freeStack (Nat.lt_of_lt_of_le top free_le)
    refine ⟨idx, { s with freeCount := less }, ?_, ⟨same, listed _ top⟩, ⟨count_le, ?_, ?_⟩, count,
      entry, handles, types, extra, dependent, freeStack⟩
    · simp only [checkedSlotAcquire, if_pos popped, subtracted, entry, loaded,
        Option.bind_eq_bind, Option.bind_some, Option.pure_def]
    · exact Nat.le_trans (Nat.le_of_lt top) free_le
    · exact fun k below => listed k (Nat.lt_trans below top)
  · unfold Recycled at recycled
    have none_free : ¬ 0 < s.freeCount.toInt := by omega
    by_cases room : t.count < ugcHandleCount
    · rw [acquire_fresh ⟨by omega, room⟩]
      have below : s.count.toInt < ugcHandleCount := by omega
      obtain ⟨more, added, exact_more⟩ :=
        int_plus_some (x := s.count) (d := 1) (by omega) (by omega)
      refine ⟨s.count, { s with count := more }, ?_, ⟨count, room⟩, ⟨room, free_le, listed⟩, ?_,
        freeCount, handles, types, extra, dependent, freeStack⟩
      · simp only [checkedSlotAcquire, if_neg none_free, if_pos below, added,
          Option.bind_eq_bind, Option.bind_some, Option.pure_def]
      · simp only
        omega
    · rw [acquire_full ⟨by omega, by omega⟩]
      have full : ¬ s.count.toInt < ugcHandleCount := by omega
      have negative : Returns (BitVec.ofInt 32 (-1)) none := by
        unfold Returns
        decide
      refine ⟨_, s, ?_, negative, ⟨count_le, free_le, listed⟩, count, freeCount, handles, types,
        extra, dependent, freeStack⟩
      simp only [checkedSlotAcquire, if_neg none_free, if_neg full, Option.pure_def]

theorem create_defined (rep : Represents s t) (object : Word w) (type : CInt)
    (extra dependent : Word w) :
    ∃ u, checkedCreateSlot s object type extra dependent =
        some ((createSlot t ⟨object, type.toInt, extra, dependent⟩).1, u) ∧
      Represents u (createSlot t ⟨object, type.toInt, extra, dependent⟩).2 := by
  obtain ⟨idx, u, acquired, returned, next⟩ := acquire_defined rep
  unfold createSlot
  generalize ugcHandleSlotAcquire t = outcome at returned next
  obtain ⟨slot, after⟩ := outcome
  cases slot with
  | none =>
    have full : idx.toInt < 0 := returned
    refine ⟨u, ?_, next⟩
    simp only [checkedCreateSlot, acquired, if_pos full, Option.bind_eq_bind,
      Option.bind_some, Option.pure_def]
  | some i =>
    obtain ⟨same, inside⟩ := returned
    obtain ⟨v, wrote, final, -⟩ :=
      set_slot_defined next inside object (Eq.refl type.toInt) extra dependent
    have live : ¬ (i : Int) < 0 := by omega
    refine ⟨v, ?_, final⟩
    simp only [checkedCreateSlot, acquired, if_neg live, same, wrote, Int.toNat_natCast,
      Option.bind_eq_bind, Option.bind_some, Option.pure_def]

theorem destroy_at_defined (rep : Represents s t) {idx : Word w}
    (inside : idx.toNat < ugcHandleCount) :
    ∃ u, checkedDestroyAt s idx = some u ∧ Represents u (ugcHandleDestroyAt t idx.toNat) := by
  obtain ⟨type, loaded, same⟩ := load_shows rep.types inside
  have bounds := rep.bounded
  have counted := rep.freeCount
  by_cases kept : t.types idx.toNat < 0 ∨ t.freeCount = ugcHandleCount
  · have returns : type.toInt < 0 ∨ s.freeCount.toInt = ugcHandleCount := by omega
    refine ⟨s, ?_, ?_⟩
    · simp only [checkedDestroyAt, loaded, if_pos returns, Option.bind_eq_bind,
        Option.bind_some, Option.pure_def]
    · rw [ugcHandleDestroyAt, if_pos kept]
      exact rep
  · have goes : ¬ (type.toInt < 0 ∨ (t.freeCount : Int) = ugcHandleCount) := by omega
    have room : t.freeCount < ugcHandleCount := by
      have := bounds.free_le
      omega
    have freed : (BitVec.ofInt 32 ugcHandleTypeFree).toInt = ugcHandleTypeFree := by decide
    obtain ⟨u, wrote, next, free_same⟩ := set_slot_defined rep inside 0#w freed 0#w 0#w
    have small := capacity_small
    have pushed : (idx.setWidth 32).toInt = idx.toNat := to_int_set_width (by omega)
    obtain ⟨stack, stored, shows_stack⟩ := store_shows next.freeStack room pushed
    obtain ⟨more, added, exact_more⟩ :=
      int_plus_some (x := s.freeCount) (d := 1) (by omega) (by omega)
    refine ⟨{ u with freeStack := stack, freeCount := more }, ?_, ?_⟩
    · simp only [checkedDestroyAt, loaded, if_neg goes, wrote, free_same, counted, stored, added,
        Option.bind_eq_bind, Option.bind_some, Option.pure_def]
    · rw [ugcHandleDestroyAt, if_neg kept]
      refine ⟨⟨bounds.count_le, room, fun k below => ?_⟩, next.count, by simp only; omega,
        next.handles, next.types, next.extra, next.dependent, shows_stack⟩
      change Function.update t.freeStack t.freeCount idx.toNat k < ugcHandleCount
      by_cases top : k = t.freeCount
      · rw [top, Function.update_self]
        exact inside
      · rw [Function.update_of_ne top]
        exact bounds.listed k (by simp only at below; omega)

theorem clear_slot_defined {k : Nat} (rep : Represents s (clearSlots k t))
    (inside : k < ugcHandleCount) :
    ∃ u stack, checkedSetSlot s k 0#w 0 0#w 0#w = some u ∧ store u.freeStack k 0 = some stack ∧
      Represents { u with freeStack := stack } (clearSlots (k + 1) t) := by
  have null : (0 : CInt).toInt = 0 := rfl
  obtain ⟨u, wrote, next, -⟩ := set_slot_defined rep inside 0#w null 0#w 0#w
  obtain ⟨stack, stored, shows_stack⟩ :=
    store_shows next.freeStack inside (x := 0) (v := 0) rfl
  refine ⟨u, stack, wrote, stored, ⟨next.bounded.count_le, next.bounded.free_le, ?_⟩, next.count,
    next.freeCount, next.handles, next.types, next.extra, next.dependent, shows_stack⟩
  intro l below
  change Function.update (clearSlots k t).freeStack k 0 l < ugcHandleCount
  by_cases here : l = k
  · rw [here, Function.update_self]
    exact Nat.zero_lt_of_lt inside
  · rw [Function.update_of_ne here]
    exact next.bounded.listed l below

/-- With enough tests left the loop ends, and has cleared the slots from `i` on. -/
theorem clear_defined {t : Store w} {fuel k : Nat} {i : CInt} {s : Statics w}
    (enough : ugcHandleCount < fuel + k) (reached : k ≤ ugcHandleCount) (counted : i.toInt = k)
    (rep : Represents s (clearSlots k t)) :
    ∃ u, checkedClear fuel i s = some u ∧ Represents u (clearSlots ugcHandleCount t) := by
  induction fuel generalizing k i s with
  | zero => omega
  | succ fuel ih =>
    by_cases more : k < ugcHandleCount
    · have goes : i.toInt < ugcHandleCount := by omega
      have small := capacity_small
      obtain ⟨u, stack, wrote, stored, cleared⟩ := clear_slot_defined rep more
      obtain ⟨j, added, exact_j⟩ := int_plus_some (x := i) (d := 1) (by omega) (by omega)
      obtain ⟨v, ended, final⟩ := ih (i := j) (by omega) more (by omega) cleared
      refine ⟨v, ?_, final⟩
      rw [← counted] at wrote stored
      rw [checkedClear, if_pos goes]
      simp only [wrote, stored, added, Option.bind_eq_bind, Option.bind_some]
      exact ended
    · have stops : ¬ i.toInt < ugcHandleCount := by omega
      obtain rfl : k = ugcHandleCount := by omega
      exact ⟨s, if_neg stops, rep⟩

theorem store_reset_defined (rep : Represents s t) :
    ∃ u, checkedStoreReset s = some u ∧ Represents u (ugcHandleStoreReset t) := by
  obtain ⟨u, cleared, next⟩ := clear_defined (t := t) (k := 0) (i := 0)
    (Nat.lt_succ_self ugcHandleCount) (Nat.zero_le _) rfl rep
  refine ⟨{ u with count := 0, freeCount := 0 }, ?_, ?_⟩
  · simp only [checkedStoreReset, cleared, Option.bind_eq_bind, Option.bind_some, Option.pure_def]
  · exact ⟨⟨Nat.zero_le _, Nat.zero_le _, nofun⟩, rfl, rfl, next.handles, next.types, next.extra,
      next.dependent, next.freeStack⟩

theorem read_defined (rep : Represents s t) {slot : Cell} (inside : slot.idx < ugcHandleCount) :
    checkedRead s slot = some (t.read slot) := by
  cases slot with
  | handle idx =>
    obtain ⟨found, loaded, same⟩ := load_shows rep.handles inside
    exact loaded.trans (congrArg some same)
  | dependent idx =>
    obtain ⟨found, loaded, same⟩ := load_shows rep.dependent inside
    exact loaded.trans (congrArg some same)

theorem slot_store_defined (rep : Represents s t) {slot : Cell}
    (inside : slot.idx < ugcHandleCount) (object : Word w) :
    ∃ u, checkedSlotStore s object slot = some u ∧
      Represents u (ugcHandleSlotStore t object slot) := by
  obtain ⟨bounded, count, freeCount, handles, types, extra, dependent, freeStack⟩ := rep
  cases slot with
  | handle idx =>
    obtain ⟨stored, wrote, shows_stored⟩ := store_shows handles inside (Eq.refl object)
    exact ⟨_, Option.map_eq_some_iff.mpr ⟨_, wrote, rfl⟩, bounded.same rfl rfl rfl, count,
      freeCount, shows_stored, types, extra, dependent, freeStack⟩
  | dependent idx =>
    obtain ⟨stored, wrote, shows_stored⟩ := store_shows dependent inside (Eq.refl object)
    exact ⟨_, Option.map_eq_some_iff.mpr ⟨_, wrote, rfl⟩, bounded.same rfl rfl rfl, count,
      freeCount, handles, types, extra, shows_stored, freeStack⟩

theorem store_if_null_defined (rep : Represents s t) {slot : Cell}
    (inside : slot.idx < ugcHandleCount) (object : Word w) :
    ∃ u, checkedSlotStoreIfNull s slot object =
        some ((ugcHandleSlotStoreIfNull t slot object).1, u) ∧
      Represents u (ugcHandleSlotStoreIfNull t slot object).2 := by
  have found := read_defined rep inside
  obtain ⟨u, stored, next⟩ := slot_store_defined rep inside object
  by_cases null : t.read slot = 0#w
  · rw [ugcHandleSlotStoreIfNull, if_pos null]
    refine ⟨u, ?_, next⟩
    simp only [checkedSlotStoreIfNull, found, if_pos null, stored, Option.bind_eq_bind,
      Option.bind_some, Option.pure_def]
  · rw [ugcHandleSlotStoreIfNull, if_neg null]
    refine ⟨s, ?_, rep⟩
    simp only [checkedSlotStoreIfNull, found, if_neg null, Option.bind_eq_bind,
      Option.bind_some, Option.pure_def]

theorem cas_defined (rep : Represents s t) {slot : Cell} (inside : slot.idx < ugcHandleCount)
    (object comparand : Word w) :
    ∃ u, checkedSlotCas s slot object comparand =
        some ((ugcHandleSlotCas t slot object comparand).1, u) ∧
      Represents u (ugcHandleSlotCas t slot object comparand).2 := by
  have found := read_defined rep inside
  obtain ⟨u, stored, next⟩ := slot_store_defined rep inside object
  have after := read_defined next inside
  by_cases same : t.read slot = comparand
  · rw [ugcHandleSlotCas, if_pos same]
    refine ⟨u, ?_, next⟩
    simp only [checkedSlotCas, found, if_pos same, stored, after, Option.bind_eq_bind,
      Option.bind_some, Option.pure_def]
  · rw [ugcHandleSlotCas, if_neg same]
    refine ⟨s, ?_, rep⟩
    simp only [checkedSlotCas, found, if_neg same, Option.bind_eq_bind, Option.bind_some,
      Option.pure_def]

theorem set_type_at_defined (rep : Represents s t) {idx : Word w}
    (inside : idx.toNat < ugcHandleCount) (type : CInt) :
    ∃ u, checkedSetTypeAt s idx type = some u ∧
      Represents u (ugcHandleSetTypeAt t idx.toNat type.toInt) := by
  obtain ⟨types, wrote, shows_types⟩ := store_shows rep.types inside (Eq.refl type.toInt)
  exact ⟨_, Option.map_eq_some_iff.mpr ⟨_, wrote, rfl⟩, rep.bounded.same rfl rfl rfl, rep.count,
    rep.freeCount, rep.handles, shows_types, rep.extra, rep.dependent, rep.freeStack⟩

theorem set_extra_at_defined (rep : Represents s t) {idx : Word w}
    (inside : idx.toNat < ugcHandleCount) (extra : Word w) :
    ∃ u, checkedSetExtraAt s idx extra = some u ∧
      Represents u (ugcHandleSetExtraAt t idx.toNat extra) := by
  obtain ⟨extras, wrote, shows_extras⟩ := store_shows rep.extra inside (Eq.refl extra)
  exact ⟨_, Option.map_eq_some_iff.mpr ⟨_, wrote, rfl⟩, rep.bounded.same rfl rfl rfl, rep.count,
    rep.freeCount, rep.handles, rep.types, shows_extras, rep.dependent, rep.freeStack⟩

/-- A call with its index inside the arrays is defined, answers as the call on the
    unbounded arrays does, and leaves the two in step. -/
theorem perform_defined (s : Statics w) (t : Store w) (call : StaticCall w)
    (rep : Represents s t) (inside : call.Inside) :
    ∃ u, checkedPerform s call = some ((perform t call.plain).1, u) ∧
      Represents u (perform t call.plain).2 := by
  cases call with
  | create object type =>
    obtain ⟨u, made, next⟩ := create_defined rep object type 0#w 0#w
    exact ⟨u, Option.map_eq_some_iff.mpr ⟨_, made, rfl⟩, next⟩
  | createWithExtra object type extra =>
    obtain ⟨u, made, next⟩ := create_defined rep object type extra 0#w
    exact ⟨u, Option.map_eq_some_iff.mpr ⟨_, made, rfl⟩, next⟩
  | createDependent primary secondary type =>
    obtain ⟨u, made, next⟩ := create_defined rep primary type 0#w secondary
    exact ⟨u, Option.map_eq_some_iff.mpr ⟨_, made, rfl⟩, next⟩
  | destroyAt idx =>
    obtain ⟨u, destroyed, next⟩ := destroy_at_defined rep inside
    exact ⟨u, Option.map_eq_some_iff.mpr ⟨_, destroyed, rfl⟩, next⟩
  | dependentSlotAt idx =>
    have formed : checkedDependentSlotAt idx = some (.dependent idx.toNat) := if_pos inside
    exact ⟨s, Option.map_eq_some_iff.mpr ⟨_, formed, rfl⟩, rep⟩
  | setDependentAt idx secondary =>
    have cell : (Cell.dependent idx.toNat).idx < ugcHandleCount := inside
    obtain ⟨u, stored, next⟩ := slot_store_defined rep cell secondary
    exact ⟨u, Option.map_eq_some_iff.mpr ⟨_, stored, rfl⟩, next⟩
  | getTypeAt idx =>
    obtain ⟨type, loaded, same⟩ := load_shows rep.types inside
    exact ⟨s, Option.map_eq_some_iff.mpr ⟨type, loaded, by rw [same]; rfl⟩, rep⟩
  | setTypeAt idx type =>
    obtain ⟨u, stored, next⟩ := set_type_at_defined rep inside type
    exact ⟨u, Option.map_eq_some_iff.mpr ⟨_, stored, rfl⟩, next⟩
  | getExtraAt idx =>
    obtain ⟨extra, loaded, same⟩ := load_shows rep.extra inside
    exact ⟨s, Option.map_eq_some_iff.mpr ⟨extra, loaded, by rw [same]; rfl⟩, rep⟩
  | setExtraAt idx extra =>
    obtain ⟨u, stored, next⟩ := set_extra_at_defined rep inside extra
    exact ⟨u, Option.map_eq_some_iff.mpr ⟨_, stored, rfl⟩, next⟩
  | storeReset =>
    obtain ⟨u, reset, next⟩ := store_reset_defined rep
    exact ⟨u, Option.map_eq_some_iff.mpr ⟨_, reset, rfl⟩, next⟩
  | slotStore slot object =>
    obtain ⟨u, stored, next⟩ := slot_store_defined rep inside object
    exact ⟨u, Option.map_eq_some_iff.mpr ⟨_, stored, rfl⟩, next⟩
  | slotStoreIfNull slot object =>
    obtain ⟨u, stored, next⟩ := store_if_null_defined rep inside object
    exact ⟨u, Option.map_eq_some_iff.mpr ⟨_, stored, rfl⟩, next⟩
  | slotCas slot object comparand =>
    obtain ⟨u, swapped, next⟩ := cas_defined rep inside object comparand
    exact ⟨u, Option.map_eq_some_iff.mpr ⟨_, swapped, rfl⟩, next⟩

theorem read_undefined {slot : Cell} (outside : ugcHandleCount ≤ slot.idx) :
    checkedRead s slot = none := by
  cases slot <;> exact load_outside _ outside

/-- An index beyond the arrays is undefined behaviour at the first access. -/
theorem perform_undefined (s : Statics w) (call : StaticCall w) (outside : ¬ call.Inside) :
    checkedPerform s call = none := by
  cases call with
  | create | createWithExtra | createDependent | storeReset => exact absurd trivial outside
  | destroyAt idx =>
    have missing : load s.types idx.toNat = none := load_outside s.types (Nat.le_of_not_lt outside)
    simp only [checkedPerform, checkedDestroyAt, missing, Option.bind_eq_bind, Option.bind_none,
      Option.map_none]
  | dependentSlotAt idx =>
    have missing : checkedDependentSlotAt idx = none := if_neg outside
    exact Option.map_eq_none_iff.mpr missing
  | setDependentAt idx secondary =>
    have missing := store_outside s.dependent (Nat.le_of_not_lt outside) secondary
    exact Option.map_eq_none_iff.mpr (Option.map_eq_none_iff.mpr missing)
  | setTypeAt idx type =>
    have missing := store_outside s.types (Nat.le_of_not_lt outside) type
    exact Option.map_eq_none_iff.mpr (Option.map_eq_none_iff.mpr missing)
  | setExtraAt idx extra =>
    have missing := store_outside s.extra (Nat.le_of_not_lt outside) extra
    exact Option.map_eq_none_iff.mpr (Option.map_eq_none_iff.mpr missing)
  | getTypeAt idx =>
    have missing := load_outside s.types (Nat.le_of_not_lt outside)
    exact Option.map_eq_none_iff.mpr missing
  | getExtraAt idx =>
    have missing := load_outside s.extra (Nat.le_of_not_lt outside)
    exact Option.map_eq_none_iff.mpr missing
  | slotStore slot object =>
    cases slot with
    | handle idx =>
      have missing := store_outside s.handles (Nat.le_of_not_lt outside) object
      exact Option.map_eq_none_iff.mpr (Option.map_eq_none_iff.mpr missing)
    | dependent idx =>
      have missing := store_outside s.dependent (Nat.le_of_not_lt outside) object
      exact Option.map_eq_none_iff.mpr (Option.map_eq_none_iff.mpr missing)
  | slotStoreIfNull slot object =>
    have missing := read_undefined (s := s) (Nat.le_of_not_lt outside)
    simp only [checkedPerform, checkedSlotStoreIfNull, missing, Option.bind_eq_bind,
      Option.bind_none, Option.map_none]
  | slotCas slot object comparand =>
    have missing := read_undefined (s := s) (Nat.le_of_not_lt outside)
    simp only [checkedPerform, checkedSlotCas, missing, Option.bind_eq_bind, Option.bind_none,
      Option.map_none]

end Steps

/-- In every run from the start of the program, calls with any values and types and in
    any order are defined exactly if their indices are inside the arrays: no access is
    outside an array and no `int` overflows, also where a slot is destroyed that was never
    handed out, or tagged as free by its setter. Where a run is defined, it answers as the
    store of unbounded arrays and unbounded numbers does. -/
theorem store_defined_exactly (calls : List (StaticCall w)) :
    ((∀ call ∈ calls, call.Inside) →
      ∃ u, partialTrace checkedPerform zeroed calls =
          some ((trace perform initial (calls.map StaticCall.plain)).1, u) ∧
        Represents u (trace perform initial (calls.map StaticCall.plain)).2) ∧
    ((∃ call ∈ calls, ¬ call.Inside) → partialTrace checkedPerform zeroed calls = none) := by
  rw [trace_map]
  exact partial_trace_exact perform_defined perform_undefined calls zeroed_represents

end UgcStaticStore
