import Mathlib.Data.Finmap

/-!
Finite maps that never hold more than a given number of entries. An entry is
added only where there is room for it; entries are changed and removed in place.
-/
namespace BoundedMaps
variable {K V : Type*} [DecidableEq K] {capacity : Nat}

structure BoundedMap (K V : Type*) (capacity : Nat) where
  entries : Finmap fun _ : K => V
  bounded : entries.keys.card ≤ capacity

namespace BoundedMap

def empty : BoundedMap K V capacity := ⟨∅, Nat.zero_le capacity⟩

def lookup (m : BoundedMap K V capacity) (key : K) : Option V := m.entries.lookup key

def size (m : BoundedMap K V capacity) : Nat := m.entries.keys.card

theorem keys_insert (entries : Finmap fun _ : K => V) (key : K) (value : V) :
    (entries.insert key value).keys = insert key entries.keys := by
  ext other
  rw [Finmap.mem_keys, Finmap.mem_insert, Finset.mem_insert, Finmap.mem_keys]

def add (m : BoundedMap K V capacity) (room : m.size < capacity) (key : K) (value : V) :
    BoundedMap K V capacity :=
  ⟨m.entries.insert key value, by
    rw [keys_insert]
    exact Nat.le_trans (Finset.card_insert_le _ _) room⟩

def remove (m : BoundedMap K V capacity) (key : K) : BoundedMap K V capacity :=
  ⟨m.entries.erase key, by
    rw [Finmap.keys_erase]
    exact Nat.le_trans Finset.card_erase_le m.bounded⟩

def replaced (entries : Finmap fun _ : K => V) (key : K) (change : V → V) : Finmap fun _ : K => V :=
  match entries.lookup key with
  | some value => entries.insert key (change value)
  | none => entries

theorem keys_replaced (entries : Finmap fun _ : K => V) (key : K) (change : V → V) :
    (replaced entries key change).keys = entries.keys := by
  cases found : entries.lookup key with
  | none => simp [replaced, found]
  | some value =>
    have member : key ∈ entries.keys := Finmap.mem_keys.mpr (Finmap.mem_of_lookup_eq_some found)
    simp only [replaced, found]
    rw [keys_insert, Finset.insert_eq_of_mem member]

/-- The value of a key is changed; a key without a value is left alone. -/
def modify (m : BoundedMap K V capacity) (key : K) (change : V → V) : BoundedMap K V capacity :=
  ⟨replaced m.entries key change, by
    rw [keys_replaced]
    exact m.bounded⟩

theorem mem_keys {m : BoundedMap K V capacity} {key : K} :
    key ∈ m.entries.keys ↔ ∃ value, m.lookup key = some value := by
  rw [Finmap.mem_keys, Finmap.mem_iff]
  rfl

theorem lookup_add (m : BoundedMap K V capacity) (room : m.size < capacity) (key : K) (value : V)
    (other : K) :
    (m.add room key value).lookup other = if other = key then some value else m.lookup other := by
  split
  · rename_i same
    rw [same]
    exact Finmap.lookup_insert m.entries
  · rename_i apart
    exact Finmap.lookup_insert_of_ne m.entries apart

theorem lookup_remove (m : BoundedMap K V capacity) (key other : K) :
    (m.remove key).lookup other = if other = key then none else m.lookup other := by
  split
  · rename_i same
    rw [same]
    exact Finmap.lookup_erase key m.entries
  · rename_i apart
    exact Finmap.lookup_erase_ne apart

theorem lookup_modify (m : BoundedMap K V capacity) (key : K) (change : V → V) (other : K) :
    (m.modify key change).lookup other =
      if other = key then (m.lookup key).map change else m.lookup other := by
  change (replaced m.entries key change).lookup other = _
  cases found : m.entries.lookup key with
  | none =>
    have absent : m.lookup key = none := found
    simp only [replaced, found, absent, Option.map_none]
    split
    · rename_i same
      rw [same, found]
    · rfl
  | some value =>
    have present : m.lookup key = some value := found
    simp only [replaced, found, present, Option.map_some]
    split
    · rename_i same
      rw [same, Finmap.lookup_insert]
    · rename_i apart
      exact Finmap.lookup_insert_of_ne m.entries apart

end BoundedMap

end BoundedMaps
