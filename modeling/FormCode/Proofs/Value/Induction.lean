import FormCode.Value.Basic

/-! Induction over values. A collection has the property once all that it holds has it; keys and
values of a map are both held by it. -/
namespace FormCode.Value

@[elab_as_elim, induction_eliminator]
theorem induct {P : Value → Prop} (atom : ∀ a, P (.atom a)) (object : ∀ handle, P (.object handle))
    (list : ∀ items, (∀ x ∈ items, P x) → P (.list items))
    (vector : ∀ items, (∀ x ∈ items, P x) → P (.vector items))
    (map : ∀ entries, (∀ e ∈ entries, P e.1 ∧ P e.2) → P (.map entries)) (v : Value) : P v := by
  apply @Value.rec P (fun items => ∀ x ∈ items, P x) (fun entries => ∀ e ∈ entries, P e.1 ∧ P e.2)
    (fun e => P e.1 ∧ P e.2) atom object list vector map
  · simp
  · intro x items first others y member
    rcases List.mem_cons.mp member with rfl | member
    · exact first
    · exact others y member
  · simp
  · intro e entries first others f member
    rcases List.mem_cons.mp member with rfl | member
    · exact first
    · exact others f member
  · exact fun _ _ key value => ⟨key, value⟩

end FormCode.Value
