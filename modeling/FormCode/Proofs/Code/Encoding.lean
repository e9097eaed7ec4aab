import FormCode.Code.Target

/-! What an encoding says about the constant. An operand in the instruction is the constant itself,
and only a bare host object can be refused. -/
namespace FormCode.Code.Target

theorem immediate?_value {t : Target} {kind : Kind} {value : Value} {i : Immediate}
    (h : t.immediate? kind value = some i) : i.value = value := by
  unfold immediate? at h
  split at h
  · cases h; rfl
  · split at h
    · cases h; rfl
    · contradiction
  · split at h
    · cases h; rfl
    · contradiction
  · split at h
    · cases h; rfl
    · contradiction
  · contradiction

theorem encoding_immediate_value {t : Target} {value : Value} {kind? : Option Kind} {i : Immediate}
    (h : t.encoding value kind? = .ok (.immediate i)) : i.value = value := by
  unfold encoding at h
  split at h
  · split at h
    case isTrue isNil =>
      cases h
      unfold Value.isNil at isNil
      split at isNil
      · rfl
      · contradiction
    case isFalse => cases h
  · split at h <;> cases h
  · split at h
    case h_1 i found =>
      cases h
      exact immediate?_value found
    case h_2 => cases h

theorem kind?_eq_object_iff {value : Value} {typeName : String} :
    value.kind? = some (.object typeName) ↔
      ∃ handle, value = .object handle ∧ handle.typeName = typeName := by
  cases value with
  | atom a => cases a <;> simp [Value.kind?, Atom.kind?]
  | _ => simp [Value.kind?]

/-- A constant of its own kind is refused exactly if it is a host object and the target has none. -/
theorem encoding_error_iff {t : Target} {value : Value} {constant : Unrepresentable} :
    t.encoding value value.kind? = .error constant ↔ t.hostObjects = false ∧
      ∃ handle, value = .object handle ∧ constant = ⟨handle.typeName, t.name⟩ := by
  constructor
  · intro h
    unfold encoding at h
    split at h
    · cases h
    case h_2 typeName known =>
      obtain ⟨handle, rfl, rfl⟩ := kind?_eq_object_iff.mp known
      split at h
      · cases h
      · rename_i without
        cases h
        exact ⟨by simpa using without, handle, rfl, rfl⟩
    · split at h <;> cases h
  · rintro ⟨without, handle, rfl, rfl⟩
    simp [encoding, Value.kind?, without]

end FormCode.Code.Target
