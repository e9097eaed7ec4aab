import FormCode.Code.Pool
import FormCode.Proofs.Code.Occurrences
import FormCode.Proofs.Value.Hash

/-! The hash map of a pool and its list of constants stay in step, and so a pool gives out the same
slots as a table that is searched from its beginning. -/
namespace FormCode.Code

variable {hashing : Hashing} {index : HashIndex hashing}

namespace Pool

def shown (call : Slot × Pool index) : Slot × Constants := (call.1, call.2.constants)

/-- The hash map has each constant under its number, and nothing else. -/
structure InStep (pool : Pool index) : Prop where
  distinct : ∀ v ∈ pool.entries, v.Distinct
  apart : pool.entries.Pairwise fun v w => (v == w) = false
  held : ∀ entry ∈ index.stored pool.slots, pool.entries[entry.2.index.toNat]? = some entry.1
  listed : ∀ n v, pool.entries[n]? = some v →
    ∃ slot, Slot.ofNat? n = some slot ∧ (v, slot) ∈ index.stored pool.slots

theorem empty_inStep (index : HashIndex hashing) : (empty : Pool index).InStep := by
  constructor <;> simp [empty, index.stored_empty]

variable {pool next : Pool index} {value : Value} {slot : Slot}

theorem InStep.found (h : pool.InStep) (distinct : value.Distinct)
    (hit : index.find? pool.slots value = some slot) :
    pool.constants.intern? value = some (slot, pool.constants) := by
  obtain ⟨key, stored, finds⟩ := index.found hit
  have entry := h.held _ stored
  have member : key ∈ pool.entries := List.mem_of_getElem? entry
  have equal : (value == key) = true := by
    rwa [hashing.finds_eq_same distinct (h.distinct key member)] at finds
  have known : pool.constants.values.any value.alike = true := by
    rw [constants, Constants.any_alike distinct h.distinct]
    exact List.any_eq_true.mpr ⟨key, member, equal⟩
  have number : pool.constants.indexOf value = slot.index.toNat := by
    have inside : pool.constants.indexOf value < pool.entries.length :=
      List.findIdx_lt_length.mpr (List.any_eq_true.mp known)
    have first : value.alike pool.entries[pool.constants.indexOf value] = true :=
      List.findIdx_getElem
    rw [← Value.same_iff_alike distinct (h.distinct _ (List.getElem_mem inside))] at first
    exact Constants.index_unique h.distinct h.apart distinct
      (List.getElem?_eq_getElem inside) first entry equal
  rw [Constants.intern?_known _ known, number, Slot.ofNat?_toNat, Option.map_some]

theorem InStep.missed (h : pool.InStep) (distinct : value.Distinct)
    (miss : index.find? pool.slots value = none) : ∀ w ∈ pool.entries, (value == w) = false := by
  intro w member
  obtain ⟨n, at_n⟩ := List.mem_iff_getElem?.mp member
  obtain ⟨slot, _, stored⟩ := h.listed n w at_n
  rw [← hashing.finds_eq_same distinct (h.distinct w member)]
  exact index.missed miss _ stored

theorem InStep.intern?_shown (h : pool.InStep) (distinct : value.Distinct) :
    (pool.intern? value).map shown = pool.constants.intern? value := by
  unfold intern?
  cases look : index.find? pool.slots value with
  | some slot => exact (h.found distinct look).symm
  | none =>
    have unknown : pool.constants.values.any value.alike = false := by
      rw [constants, Constants.any_alike distinct h.distinct]
      simpa using h.missed distinct look
    rw [Constants.intern?_unknown _ unknown, Option.map_map]
    rfl

theorem InStep.joined (h : pool.InStep) (distinct : value.Distinct)
    (miss : index.find? pool.slots value = none)
    (number : Slot.ofNat? pool.entries.length = some slot) :
    InStep ⟨pool.entries ++ [value], index.insert pool.slots value slot⟩ where
  distinct := by simpa [or_imp, forall_and] using And.intro h.distinct distinct
  apart := by
    refine List.pairwise_append.mpr ⟨h.apart, List.pairwise_singleton .., fun w member x last => ?_⟩
    rw [List.mem_singleton.mp last, Value.same_comm (h.distinct w member) distinct]
    exact h.missed distinct miss w member
  held := by
    intro entry member
    rcases (index.mem_stored_insert miss slot entry).mp member with rfl | member
    · rw [Slot.ofNat?_eq_some number]
      exact List.getElem?_concat_length
    · exact getElem?_of_begins (List.prefix_append ..) (h.held entry member)
  listed := by
    intro n v at_n
    by_cases before : n < pool.entries.length
    · rw [List.getElem?_append_left before] at at_n
      obtain ⟨slot', given, member⟩ := h.listed n v at_n
      exact ⟨slot', given, (index.mem_stored_insert miss slot _).mpr (.inr member)⟩
    · have bound := (List.getElem?_eq_some_iff.mp at_n).1
      rw [List.length_append, List.length_singleton] at bound
      obtain rfl : n = pool.entries.length := by omega
      rw [List.getElem?_concat_length, Option.some.injEq] at at_n
      exact ⟨slot, number, (index.mem_stored_insert miss slot _).mpr (.inl (by rw [at_n]))⟩

theorem InStep.after (h : pool.InStep) (distinct : value.Distinct)
    (call : pool.intern? value = some (slot, next)) : next.InStep := by
  unfold intern? at call
  split at call
  case h_1 =>
    cases call
    exact h
  case h_2 miss =>
    obtain ⟨given, number, joined⟩ := Option.map_eq_some_iff.mp call
    cases joined
    exact h.joined distinct miss number

/-- Whatever a pool shows in a run of calls is what a table shows. -/
theorem InStep.history_shown (h : pool.InStep) {values : List Value}
    (each : ∀ v ∈ values, v.Distinct) :
    (history intern? pool values).map (List.map shown) =
      history Constants.intern? pool.constants values := by
  induction values generalizing pool with
  | nil => rfl
  | cons value values ih =>
    have distinct : value.Distinct := each value (by simp)
    rw [history, history, ← h.intern?_shown distinct]
    cases call : pool.intern? value with
    | none => rfl
    | some call' =>
      have others := ih (h.after distinct call) fun v member => each v (by simp [member])
      simp only [Option.bind_some, Option.map_some, shown, ← others, Option.map_map]
      rfl

/-- Into a fresh pool any values go whose maps repeat no key, as long as there are slots for all
different ones. The pool shows what a table shows, and the slots number the first occurrences. -/
theorem history_numbers (index : HashIndex hashing) (values : List Value)
    (each : ∀ v ∈ values, v.Distinct) (room : values.eraseDups.length ≤ UInt32.size) :
    ∃ calls, history intern? (empty : Pool index) values = some calls ∧
      history Constants.intern? .empty values = some (calls.map shown) ∧
      Constants.Numbers values (calls.map shown) := by
  obtain ⟨shownCalls, ran, fills⟩ := Constants.exists_history_intern? [] each room
  have same := (empty_inStep index).history_shown each
  have fresh : (empty : Pool index).constants = ⟨[].eraseDups⟩ := rfl
  rw [fresh, ran, Option.map_eq_some_iff] at same
  obtain ⟨calls, interned, rfl⟩ := same
  exact ⟨calls, interned, ran, fills.numbers each⟩

/-- The entries of a map in two orders, zeros of either sign and a NaN. -/
theorem history_numbers_orders :
    let one : Value × Value := (.atom (.keyword "a"), .atom (.int 1))
    let two : Value × Value := (.atom (.keyword "b"), .atom (.int 2))
    let float (bits : UInt64) : Value := .atom (.float ⟨bits⟩)
    let values : List Value := [.map [one, two], float 0, .map [two, one], float 0x8000000000000000,
      float 0x7FF8000000000000, float 0, float 0x7FF8000000000000]
    let index : HashIndex .polynomial := .linear _
    ∃ calls, history intern? (empty : Pool index) values = some calls ∧
      calls.map (fun call => call.1.index) = [0, 1, 0, 2, 3, 1, 3] ∧
      history Constants.intern? .empty values = some (calls.map shown) ∧
      Constants.Numbers values (calls.map shown) := by
  intro one two float values index
  have pair {k l m n : Atom} (unequal : (Value.atom k == .atom m) = false) :
      (Value.map [(.atom k, .atom l), (.atom m, .atom n)]).Distinct :=
    .map (by simp [Value.Distinct.atom]) (by simp [Value.Distinct.atom])
      (List.pairwise_pair.mpr unequal)
  have each : ∀ v ∈ values, v.Distinct := by
    simp only [values, List.forall_mem_cons, List.not_mem_nil, false_imp_iff, implies_true, and_true]
    exact ⟨pair (by cbv), .atom, pair (by cbv), .atom, .atom, .atom, .atom⟩
  have room : values.eraseDups.length ≤ UInt32.size := by
    cbv
  obtain ⟨calls, ran, shown, numbers⟩ := history_numbers index values each room
  refine ⟨calls, ran, ?_, shown, numbers⟩
  have slots : (history intern? (empty : Pool index) values).map
      (List.map fun call => call.1.index) = some [0, 1, 0, 2, 3, 1, 3] := by
    cbv
  rw [ran, Option.map_some, Option.some.injEq] at slots
  exact slots

end Pool

end FormCode.Code
