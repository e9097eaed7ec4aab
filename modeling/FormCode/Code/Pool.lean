import FormCode.Code.Constants
import FormCode.Value.Hash

/-! Interning by hash. A pool keeps its constants by number and finds the number of a value in a
hash map. -/
namespace FormCode.Code

/-- A hash map from values to slots, as far as a pool relies on it. -/
structure HashIndex (hashing : Hashing) where
  Table : Type
  empty : Table
  insert : Table → Value → Slot → Table
  find? : Table → Value → Option Slot
  /-- The keys in the map with their slots. -/
  stored : Table → List (Value × Slot)
  stored_empty : stored empty = []
  mem_stored_insert {table : Table} {value : Value} (unknown : find? table value = none)
    (slot : Slot) (entry : Value × Slot) :
    entry ∈ stored (insert table value slot) ↔ entry = (value, slot) ∨ entry ∈ stored table
  found {table : Table} {value : Value} {slot : Slot} (h : find? table value = some slot) :
    ∃ key, (key, slot) ∈ stored table ∧ hashing.finds value key = true
  missed {table : Table} {value : Value} (h : find? table value = none) :
    ∀ entry ∈ stored table, hashing.finds value entry.1 = false

/-- A hash map without buckets: a list of its keys, the last one stored first. -/
def HashIndex.linear (hashing : Hashing) : HashIndex hashing where
  Table := List (Value × Slot)
  empty := []
  insert table value slot := (value, slot) :: table
  find? table value := (table.find? fun entry => hashing.finds value entry.1).map Prod.snd
  stored table := table
  stored_empty := rfl
  mem_stored_insert _ _ _ := List.mem_cons
  found h := by
    obtain ⟨entry, first, rfl⟩ := Option.map_eq_some_iff.mp h
    exact ⟨entry.1, List.mem_of_find?_eq_some first, by simpa using List.find?_some first⟩
  missed h := by
    rw [Option.map_eq_none_iff, List.find?_eq_none] at h
    simpa using h

variable {hashing : Hashing} {index : HashIndex hashing}

structure Pool (index : HashIndex hashing) where
  entries : List Value
  slots : index.Table

namespace Pool

def empty : Pool index := ⟨[], index.empty⟩

def constants (pool : Pool index) : Constants := ⟨pool.entries⟩

def intern? (pool : Pool index) (value : Value) : Option (Slot × Pool index) :=
  match index.find? pool.slots value with
  | some slot => some (slot, pool)
  | none => (Slot.ofNat? pool.entries.length).map fun slot =>
    (slot, ⟨pool.entries ++ [value], index.insert pool.slots value slot⟩)

end Pool

end FormCode.Code
