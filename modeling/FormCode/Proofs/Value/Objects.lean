import FormCode.Proofs.Value.Equality

/-! Host objects inside values. Likeness looks into collections, so of two alike values either both
hold an object or neither does. -/
namespace FormCode.Value

/-- Whether a host object stands somewhere in a value, at any depth. -/
inductive HasObject : Value → Prop
  | object : HasObject (.object handle)
  | item (inside : x ∈ items) (h : HasObject x) : HasObject (.list items)
  | element (inside : x ∈ items) (h : HasObject x) : HasObject (.vector items)
  | key (inside : e ∈ entries) (h : HasObject e.1) : HasObject (.map entries)
  | value (inside : e ∈ entries) (h : HasObject e.2) : HasObject (.map entries)

theorem not_hasObject_atom (a : Atom) : ¬ HasObject (.atom a) := by
  intro h
  cases h

theorem hasObject_list_iff : HasObject (.list items) ↔ ∃ x ∈ items, HasObject x := by
  constructor
  · intro h
    cases h with
    | item inside h => exact ⟨_, inside, h⟩
  · rintro ⟨x, inside, h⟩
    exact .item inside h

theorem hasObject_vector_iff : HasObject (.vector items) ↔ ∃ x ∈ items, HasObject x := by
  constructor
  · intro h
    cases h with
    | element inside h => exact ⟨_, inside, h⟩
  · rintro ⟨x, inside, h⟩
    exact .element inside h

theorem hasObject_map_iff :
    HasObject (.map entries) ↔ ∃ e ∈ entries, HasObject e.1 ∨ HasObject e.2 := by
  constructor
  · intro h
    cases h with
    | key inside h => exact ⟨_, inside, .inl h⟩
    | value inside h => exact ⟨_, inside, .inr h⟩
  · rintro ⟨e, inside, h | h⟩
    · exact .key inside h
    · exact .value inside h

theorem HasObject.of_alike {v w : Value} (h : alike v w = true) (holds : HasObject v) :
    HasObject w := by
  induction v generalizing w with
  | atom a => exact absurd holds (not_hasObject_atom a)
  | object handle =>
    cases w with
    | object => exact .object
    | _ => simp [alike] at h
  | list items ih =>
    cases w with
    | list others =>
      rw [alike, alikeItems_iff] at h
      obtain ⟨x, inside, holds⟩ := hasObject_list_iff.mp holds
      obtain ⟨y, member, related⟩ := exists_right_of_forall₂ h inside
      exact .item member (ih x inside related holds)
    | _ => simp [alike] at h
  | vector items ih =>
    cases w with
    | vector others =>
      rw [alike, alikeItems_iff] at h
      obtain ⟨x, inside, holds⟩ := hasObject_vector_iff.mp holds
      obtain ⟨y, member, related⟩ := exists_right_of_forall₂ h inside
      exact .element member (ih x inside related holds)
    | _ => simp [alike] at h
  | map es ih =>
    cases w with
    | map fs =>
      obtain ⟨gs, perm, matched⟩ := alikeEntries_perm (by simpa [alike] using h)
      obtain ⟨e, inside, holds⟩ := hasObject_map_iff.mp holds
      obtain ⟨g, member, key, value⟩ := exists_right_of_forall₂ matched inside
      rw [hasObject_map_iff]
      exact ⟨g, perm.mem_iff.mp member, holds.imp ((ih e inside).1 key) ((ih e inside).2 value)⟩
    | _ => simp [alike] at h

end FormCode.Value
