import FormCode.Proofs.Text.Places

/-! Texts made of whole lines. The lines can be recovered from the text. -/
namespace FormCode.Text

/-- One line with the line feed that ends it. -/
def IsLine (text : List Char) : Prop := ∃ body, '\n' ∉ body ∧ text = body ++ ['\n']

namespace IsLine

variable {line other : List Char}

theorem concat {body : List Char} (h : '\n' ∉ body) : IsLine (body ++ ['\n']) := ⟨body, h, rfl⟩

theorem takeWhile_append {body : List Char} (h : '\n' ∉ body) (rest : List Char) :
    (body ++ '\n' :: rest).takeWhile (· != '\n') = body := by
  rw [takeWhile_append_cons (by decide)]
  apply List.takeWhile_eq_self_iff.mpr
  intro c member
  exact bne_iff_ne.mpr fun feed => h (feed ▸ member)

theorem append_injective (h : IsLine line) (h' : IsLine other) {s t : List Char}
    (same : line ++ s = other ++ t) : line = other ∧ s = t := by
  obtain ⟨body, plain, rfl⟩ := h
  obtain ⟨body', plain', rfl⟩ := h'
  rw [List.append_assoc, List.append_assoc, List.singleton_append, List.singleton_append] at same
  have bodies : body = body' := by
    rw [← takeWhile_append plain s, same, takeWhile_append plain' t]
  subst bodies
  exact ⟨rfl, (List.cons.inj (List.append_cancel_left same)).2⟩

theorem ne_nil (h : IsLine line) : line ≠ [] := by
  obtain ⟨body, -, rfl⟩ := h
  simp

theorem flatten_injective {lines others : List (List Char)} (each : ∀ line ∈ lines, IsLine line)
    (each' : ∀ line ∈ others, IsLine line) (same : lines.flatten = others.flatten) :
    lines = others := by
  induction lines generalizing others with
  | nil =>
    cases others with
    | nil => rfl
    | cons other others =>
      have empty := (List.append_eq_nil_iff.mp same.symm).1
      exact absurd empty (each' other (by simp)).ne_nil
  | cons line lines ih =>
    rw [List.forall_mem_cons] at each
    cases others with
    | nil => exact absurd (List.append_eq_nil_iff.mp same).1 each.1.ne_nil
    | cons other others =>
      rw [List.forall_mem_cons] at each'
      obtain ⟨rfl, rest⟩ := each.1.append_injective each'.1 same
      rw [ih each.2 each'.2 rest]

end IsLine

end FormCode.Text
