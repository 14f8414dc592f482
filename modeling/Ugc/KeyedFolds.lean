import Mathlib.Data.List.AList
import Mathlib.Data.List.Forall2

/-!
Loops that fill a map of distinct keys and fail at a key seen before. What such a step
does is said once: it succeeds where its input reads as some entries with new keys, and
puts them on top of the map. A loop of such steps is such a step again.
-/
namespace KeyedFolds
universe u
variable {K Input Error : Type*} {V : K → Type*}

def Collects (reads : Input → List (Sigma V) → Prop)
    (step : AList V → Input → Except Error (AList V)) : Prop :=
  ∀ m input filled, step m input = .ok filled ↔
    ∃ added, reads input added ∧ filled.entries = added.reverse ++ m.entries

def ReadsEach (reads : Input → List (Sigma V) → Prop) (inputs : List Input)
    (added : List (Sigma V)) : Prop :=
  ∃ parts, List.Forall₂ reads inputs parts ∧ added = parts.flatten

theorem related_of_left {A B : Type*} {R : A → B → Prop} {xs : List A} {ys : List B}
    (each : List.Forall₂ R xs ys) : ∀ x ∈ xs, ∃ y ∈ ys, R x y := by
  induction each with
  | nil => exact fun x member => absurd member List.not_mem_nil
  | cons here _ ih =>
    intro x member
    rcases List.mem_cons.mp member with rfl | later
    · exact ⟨_, List.mem_cons_self, here⟩
    · obtain ⟨y, found, related⟩ := ih x later
      exact ⟨y, List.mem_cons_of_mem _ found, related⟩

theorem related_of_right {A B : Type*} {R : A → B → Prop} {xs : List A} {ys : List B}
    (each : List.Forall₂ R xs ys) : ∀ y ∈ ys, ∃ x ∈ xs, R x y :=
  related_of_left each.flip

theorem pairwise_related {A B : Type*} {R : A → B → Prop} {S : A → A → Prop}
    {T : B → B → Prop} {xs : List A} {ys : List B} (each : List.Forall₂ R xs ys)
    (pulls : ∀ x y x' y', R x y → R x' y' → T y y' → S x x') (apart : ys.Pairwise T) :
    xs.Pairwise S := by
  induction each with
  | nil => exact .nil
  | cons here others ih =>
    obtain ⟨first, rest⟩ := List.pairwise_cons.mp apart
    refine .cons ?_ (ih rest)
    intro x' member
    obtain ⟨y', found, related⟩ := related_of_left others x' member
    exact pulls _ _ x' y' here related (first y' found)

theorem exists_related {A B : Type*} {R : A → B → Prop} {xs : List A}
    (all : ∀ x ∈ xs, ∃ y, R x y) : ∃ ys, List.Forall₂ R xs ys := by
  induction xs with
  | nil => exact ⟨[], .nil⟩
  | cons x xs ih =>
    obtain ⟨⟨y, here⟩, others⟩ := List.forall_mem_cons.mp all
    obtain ⟨ys, each⟩ := ih others
    exact ⟨y :: ys, .cons here each⟩

def Single (reads : Input → Sigma V → Prop) (input : Input) (added : List (Sigma V)) : Prop :=
  ∃ entry, reads input entry ∧ added = [entry]

theorem reads_each_single {reads : Input → Sigma V → Prop} {inputs : List Input}
    {added : List (Sigma V)} :
    ReadsEach (Single reads) inputs added ↔ List.Forall₂ reads inputs added := by
  constructor
  · rintro ⟨parts, each, rfl⟩
    induction each with
    | nil => exact .nil
    | cons one _ ih =>
      obtain ⟨entry, here, rfl⟩ := one
      exact .cons here ih
  · intro each
    have joined : (added.map fun entry => [entry]).flatten = added := by
      rw [← List.flatMap_def, List.flatMap_singleton']
    refine ⟨added.map fun entry => [entry], ?_, joined.symm⟩
    exact List.forall₂_map_right_iff.mpr (each.imp fun input entry here => ⟨entry, here, rfl⟩)

theorem bind_ok_iff {A B : Type u} {first : Except Error A} {next : A → Except Error B} {b : B} :
    (first >>= next) = .ok b ↔ ∃ a, first = .ok a ∧ next a = .ok b := by
  cases first with
  | error e =>
    constructor
    · intro failed
      cases failed
    · rintro ⟨a, failed, _⟩
      cases failed
  | ok a =>
    constructor
    · intro done
      exact ⟨a, rfl, done⟩
    · rintro ⟨other, same, done⟩
      cases same
      exact done

theorem exists_of_isOk {A : Type u} {result : Except Error A} (done : result.isOk = true) :
    ∃ a, result = .ok a := by
  cases result with
  | ok a => exact ⟨a, rfl⟩
  | error e => cases done

theorem forM_ok_iff {A : Type*} {items : List A} {check : A → Except Error PUnit} {u : PUnit} :
    items.forM check = .ok u ↔ ∀ item ∈ items, check item = .ok ⟨⟩ := by
  induction items with
  | nil => exact ⟨fun _ item member => absurd member List.not_mem_nil, fun _ => rfl⟩
  | cons item items ih =>
    rw [List.forall_mem_cons, ← ih]
    change (check item >>= fun _ => items.forM check) = .ok u ↔ _
    rw [bind_ok_iff]
    constructor
    · rintro ⟨done, first, rest⟩
      exact ⟨first, rest⟩
    · rintro ⟨first, rest⟩
      exact ⟨⟨⟩, first, rest⟩

theorem entries_cons_iff [DecidableEq K] {m filled : AList V} {entry : Sigma V} :
    filled.entries = entry :: m.entries ↔
      entry.1 ∉ m ∧ filled = m.insert entry.1 entry.2 := by
  constructor
  · intro same
    have nodup := filled.nodupKeys
    rw [same] at nodup
    have fresh : entry.1 ∉ m := (List.nodupKeys_cons.mp nodup).1
    exact ⟨fresh, AList.ext (by rw [same, AList.entries_insert_of_notMem fresh])⟩
  · rintro ⟨fresh, rfl⟩
    exact AList.entries_insert_of_notMem fresh

theorem insert_new_ok_iff [DecidableEq K] {m filled : AList V} (entry : Sigma V)
    (taken : Error) :
    (if entry.1 ∈ m then .error taken else .ok (m.insert entry.1 entry.2) :
      Except Error (AList V)) = .ok filled ↔ filled.entries = entry :: m.entries := by
  rw [entries_cons_iff]
  by_cases old : entry.1 ∈ m
  · simp [old]
  · simp [old, eq_comm]

variable {reads : Input → List (Sigma V) → Prop}
  {step : AList V → Input → Except Error (AList V)}

theorem collects_each (collects : Collects reads step) :
    Collects (ReadsEach reads) fun m inputs => inputs.foldlM step m := by
  intro m inputs
  induction inputs generalizing m with
  | nil =>
    intro filled
    constructor
    · intro done
      exact ⟨[], ⟨[], .nil, rfl⟩, congrArg AList.entries (Except.ok.inj done).symm⟩
    · rintro ⟨added, ⟨parts, none, rfl⟩, same⟩
      cases none
      exact congrArg Except.ok (AList.ext same).symm
  | cons input inputs ih =>
    intro filled
    simp only [List.foldlM_cons, bind_ok_iff]
    constructor
    · rintro ⟨middle, first, rest⟩
      obtain ⟨added, one, grown⟩ := (collects m input middle).mp first
      obtain ⟨later, ⟨parts, others, rfl⟩, same⟩ := (ih middle filled).mp rest
      refine ⟨(added :: parts).flatten, ⟨added :: parts, .cons one others, rfl⟩, ?_⟩
      rw [same, grown, List.flatten_cons, List.reverse_append, List.append_assoc]
    · rintro ⟨added, ⟨parts, all, rfl⟩, same⟩
      obtain ⟨one, later, here, others, rfl⟩ := List.forall₂_cons_left_iff.mp all
      have split : filled.entries = later.flatten.reverse ++ (one.reverse ++ m.entries) := by
        rw [same, List.flatten_cons, List.reverse_append, List.append_assoc]
      have nodup : (one.reverse ++ m.entries).NodupKeys :=
        List.NodupKeys.sublist (split ▸ List.sublist_append_right _ _) filled.nodupKeys
      exact ⟨⟨_, nodup⟩, (collects m input _).mpr ⟨one, here, rfl⟩,
        (ih _ filled).mpr ⟨_, ⟨later, others, rfl⟩, split⟩⟩

theorem collects_fresh (collects : Collects reads step) {input : Input} {filled : AList V} :
    step ∅ input = .ok filled ↔ ∃ added, reads input added ∧ filled.entries = added.reverse := by
  simpa only [AList.empty_entries, List.append_nil] using collects ∅ input filled

theorem nodup_keys_iff_disjoint {maps : List (AList V)} :
    (maps.map AList.entries).flatten.NodupKeys ↔ maps.Pairwise AList.Disjoint := by
  rw [List.nodupKeys_flatten, List.map_map, List.pairwise_map]
  refine and_iff_right ?_
  intro entries member
  obtain ⟨m, _, rfl⟩ := List.mem_map.mp member
  exact m.nodupKeys

/- The union of maps of which no two share a key. -/
section Unions
variable [DecidableEq K] {maps : List (AList V)}

def unionAll (maps : List (AList V)) : AList V := maps.foldr (· ∪ ·) ∅

theorem mem_union_all {key : K} : key ∈ unionAll maps ↔ ∃ m ∈ maps, key ∈ m := by
  induction maps with
  | nil => simp [unionAll]
  | cons m maps ih =>
    rw [List.exists_mem_cons_iff, ← ih]
    exact AList.mem_union

theorem mem_union_entries {m other : AList V} (disjoint : AList.Disjoint m other)
    (entry : Sigma V) :
    entry ∈ (m ∪ other).entries ↔ entry ∈ m.entries ∨ entry ∈ other.entries := by
  rw [← AList.mem_lookup_iff, AList.mem_lookup_union, AList.mem_lookup_iff, AList.mem_lookup_iff]
  refine or_congr_right (and_iff_right_of_imp ?_)
  intro later earlier
  exact disjoint entry.1 earlier (List.mem_keys_of_mem later)

theorem union_all_perm (disjoint : maps.Pairwise AList.Disjoint) :
    (unionAll maps).entries.Perm (maps.map AList.entries).flatten := by
  have nodup := (nodup_keys_iff_disjoint.mpr disjoint).nodup
  refine (List.perm_ext_iff_of_nodup (unionAll maps).nodupKeys.nodup nodup).mpr ?_
  intro entry
  induction maps with
  | nil => exact Iff.rfl
  | cons m maps ih =>
    obtain ⟨first, others⟩ := List.pairwise_cons.mp disjoint
    have apart : AList.Disjoint m (unionAll maps) := by
      intro key here later
      obtain ⟨other, member, inside⟩ := mem_union_all.mp (AList.mem_keys.mpr later)
      exact first other member key here (AList.mem_keys.mp inside)
    have rest := ih others (nodup_keys_iff_disjoint.mpr others).nodup
    rw [List.map_cons, List.flatten_cons, List.mem_append, ← rest]
    exact mem_union_entries apart entry

end Unions

end KeyedFolds
