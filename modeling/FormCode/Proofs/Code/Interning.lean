import FormCode.Code.Constants
import FormCode.Proofs.Value.Equality

/-! Interning either finds a constant that is like the value or appends the value. Slots that were
given out keep their constants, because the table only grows at its end. -/
namespace FormCode.Code

theorem Slot.ofNat?_eq_some {n : Nat} {slot : Slot} (h : Slot.ofNat? n = some slot) :
    slot.index.toNat = n := by
  unfold Slot.ofNat? at h
  split at h
  case isTrue bound =>
    cases h
    exact UInt32.toNat_ofNat_of_lt bound
  case isFalse => contradiction

theorem Slot.ofNat?_toNat (slot : Slot) : Slot.ofNat? slot.index.toNat = some slot := by
  rw [Slot.ofNat?, if_pos slot.index.toNat_lt, UInt32.ofNat_toNat]

namespace Constants

/-- The table `next` has the constants of `table` under the same numbers. -/
def Extends (next table : Constants) : Prop := table.values <+: next.values

theorem Extends.refl (table : Constants) : table.Extends table := List.prefix_refl _

theorem get?_bound {table : Constants} {slot : Slot} {value : Value}
    (h : table.get? slot = some value) : slot.index.toNat < table.size :=
  (List.getElem?_eq_some_iff.mp h).1

theorem Extends.get? {next table : Constants} (grown : next.Extends table) {slot : Slot}
    {value : Value} (h : table.get? slot = some value) : next.get? slot = some value := by
  obtain ⟨added, equal⟩ := grown
  rw [Constants.get?, ← equal, List.getElem?_append_left (get?_bound h)]
  exact h

theorem Extends.size_le {next table : Constants} (grown : next.Extends table) :
    table.size ≤ next.size := List.IsPrefix.length_le grown

theorem intern?_cases {table next : Constants} {value : Value} {slot : Slot}
    (h : table.intern? value = some (slot, next)) :
    (next = table ∧ ∃ other, table.get? slot = some other ∧ value.alike other = true) ∨
    (next = ⟨table.values ++ [value]⟩ ∧ slot.index.toNat = table.size ∧
      next.get? slot = some value) := by
  simp only [intern?, Option.map_eq_some_iff, Prod.mk.injEq] at h
  obtain ⟨given, number, rfl, grown⟩ := h
  have index := Slot.ofNat?_eq_some number
  by_cases known : table.indexOf value < table.size
  · rw [if_pos known] at grown
    have found := List.findIdx_getElem (w := known)
    refine .inl ⟨grown.symm, table.values[table.indexOf value], ?_, found⟩
    rw [get?, index]
    exact List.getElem?_eq_getElem known
  · rw [if_neg known] at grown
    have atEnd : table.indexOf value = table.size :=
      Nat.le_antisymm List.findIdx_le_length (Nat.le_of_not_lt known)
    refine .inr ⟨grown.symm, index.trans atEnd, ?_⟩
    rw [← grown, get?, index, atEnd]
    exact List.getElem?_concat_length

theorem intern?_extends {table next : Constants} {value : Value} {slot : Slot}
    (h : table.intern? value = some (slot, next)) : next.Extends table := by
  rcases intern?_cases h with ⟨rfl, _⟩ | ⟨rfl, _⟩
  · exact .refl next
  · exact List.prefix_append ..

theorem intern?_get? {table next : Constants} {value : Value} {slot : Slot}
    (h : table.intern? value = some (slot, next)) :
    ∃ other, next.get? slot = some other ∧ (other == value) = true := by
  rcases intern?_cases h with ⟨rfl, other, found, alike⟩ | ⟨_, _, found⟩
  · exact ⟨other, found, Value.same_of_alike alike⟩
  · exact ⟨value, found, Value.same_refl value⟩

theorem exists_intern? (table : Constants) (value : Value) (room : table.size < UInt32.size) :
    ∃ slot next, table.intern? value = some (slot, next) := by
  have index : table.indexOf value < UInt32.size :=
    Nat.lt_of_le_of_lt List.findIdx_le_length room
  exact ⟨_, _, by rw [intern?, Slot.ofNat?, if_pos index, Option.map_some]⟩

theorem intern?_empty (value : Value) : empty.intern? value = some (⟨0⟩, ⟨[value]⟩) := rfl

end Constants

end FormCode.Code
