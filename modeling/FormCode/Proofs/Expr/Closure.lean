import FormCode.Expr.OfForm
import FormCode.Proofs.Except
import FormCode.Proofs.Reader.Closure
import FormCode.Proofs.Value.Induction

/-! Properties of every literal. What the analysis makes of a form is built from parts of the form,
so a property that passes to parts and is built up again by collections passes to the literal. -/
namespace FormCode.Expr

/-- Items have the property once their collection has it. -/
structure Hereditary (P : Value → Prop) : Prop where
  list : ∀ items, P (.list items) → ∀ x ∈ items, P x
  vector : ∀ items, P (.vector items) → ∀ x ∈ items, P x
  map : ∀ entries, P (.map entries) → ∀ e ∈ entries, P e.1 ∧ P e.2

theorem constants_mem {xs ys : List Value} (h : constants xs = .ok ys) :
    ∀ y ∈ ys, ∃ x ∈ xs, constant x = .ok y := by
  induction xs generalizing ys with
  | nil => cases h; simp
  | cons x xs ih =>
    obtain ⟨first, constantFirst, rest⟩ := bind_eq_ok.mp h
    obtain ⟨others, constantOthers, equal⟩ := bind_eq_ok.mp rest
    cases equal
    intro y member
    rcases List.mem_cons.mp member with rfl | member
    · exact ⟨x, by simp, constantFirst⟩
    · obtain ⟨x', inside, constantY⟩ := ih constantOthers y member
      exact ⟨x', List.mem_cons_of_mem _ inside, constantY⟩

theorem constantEntries_mem {es fs : List (Value × Value)} (h : constantEntries es = .ok fs) :
    ∀ f ∈ fs, ∃ e ∈ es, constant e.1 = .ok f.1 ∧ constant e.2 = .ok f.2 := by
  induction es generalizing fs with
  | nil => cases h; simp
  | cons e es ih =>
    obtain ⟨key, value⟩ := e
    obtain ⟨k, constantKey, rest⟩ := bind_eq_ok.mp h
    obtain ⟨v, constantValue, rest⟩ := bind_eq_ok.mp rest
    obtain ⟨others, constantOthers, equal⟩ := bind_eq_ok.mp rest
    cases equal
    intro f member
    rcases List.mem_cons.mp member with rfl | member
    · exact ⟨(key, value), by simp, constantKey, constantValue⟩
    · obtain ⟨e, inside, constants⟩ := ih constantOthers f member
      exact ⟨e, List.mem_cons_of_mem _ inside, constants⟩

theorem quoted?_mem {items : List Value} {x : Value} (h : quoted? items = some x) : x ∈ items := by
  unfold quoted? at h
  split at h
  · split at h
    · cases h; simp
    · contradiction
  · contradiction

variable {P : Value → Prop}

theorem constant_holds (closed : Reader.Closed P) (hereditary : Hereditary P) {form value : Value}
    (holds : P form) (h : constant form = .ok value) : P value := by
  induction form generalizing value with
  | atom a =>
    cases a <;> simp only [constant] at h <;> cases h <;> exact holds
  | object handle =>
    cases h
    exact holds
  | list items ih =>
    cases items with
    | nil => cases h; exact holds
    | cons x items =>
      simp only [constant] at h
      split at h
      case h_1 quoted found =>
        cases h
        exact hereditary.list _ holds _ (quoted?_mem found)
      case h_2 => contradiction
  | vector items ih =>
    obtain ⟨values, folded, rfl⟩ := map_eq_ok.mp h
    refine closed.vector values fun y member => ?_
    obtain ⟨x, inside, constantX⟩ := constants_mem folded y member
    exact ih x inside (hereditary.vector items holds x inside) constantX
  | map entries ih =>
    obtain ⟨folded, foldedEntries, rest⟩ := bind_eq_ok.mp h
    split at rest
    case h_1 => contradiction
    case h_2 distinct =>
      cases rest
      refine closed.map folded (fun f member => ?_) distinct
      obtain ⟨e, inside, key, value⟩ := constantEntries_mem foldedEntries f member
      have parts := hereditary.map entries holds e inside
      exact ⟨(ih e inside).1 parts.1 key, (ih e inside).2 parts.2 value⟩

theorem ofForm_holds (closed : Reader.Closed P) (hereditary : Hereditary P) {form : Value}
    {expr : Expr} (holds : P form) (h : ofForm form = .ok expr) : P expr.eval := by
  unfold ofForm at h
  split at h
  · contradiction
  case h_2 items =>
    unfold ofItems at h
    split at h
    · cases h; exact holds
    · split at h
      · split at h
        · cases h
          exact hereditary.list _ holds _ (by simp [eval])
        · contradiction
      · contradiction
    · contradiction
  case h_3 =>
    obtain ⟨value, folded, rfl⟩ := map_eq_ok.mp h
    exact constant_holds closed hereditary holds folded

end FormCode.Expr
