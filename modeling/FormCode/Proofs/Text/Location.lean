import FormCode.Text.Location

/-! Places that are moved down by whole lines. Columns do not change, and it makes no difference
whether a place is moved before or after the text. -/
namespace FormCode

def Location.below (place : Location) (k : Nat) : Location := ⟨place.line + k, place.column⟩

def Located.below {α : Type} (x : Located α) (k : Nat) : Located α := ⟨x.place.below k, x.item⟩

namespace Location

theorem advance_cons (place : Location) (c : Char) (text : List Char) :
    place.advance (c :: text) = (place.next c).advance text := rfl

theorem advance_append (place : Location) (s t : List Char) :
    place.advance (s ++ t) = (place.advance s).advance t := List.foldl_append

theorem next_below (place : Location) (k : Nat) (c : Char) :
    (place.below k).next c = (place.next c).below k := by
  unfold next below
  split
  · rw [Nat.add_right_comm]
  · rfl

theorem advance_below (place : Location) (k : Nat) (text : List Char) :
    (place.below k).advance text = (place.advance text).below k := by
  induction text generalizing place with
  | nil => rfl
  | cons c text ih => rw [advance_cons, next_below, ih, advance_cons]

theorem line_advance (place : Location) (text : List Char) :
    (place.advance text).line = place.line + text.count '\n' := by
  induction text generalizing place with
  | nil => rfl
  | cons c text ih =>
    rw [advance_cons, ih, next]
    split
    case isTrue feed => rw [feed, List.count_cons_self, Nat.add_right_comm, Nat.add_assoc]
    case isFalse other => rw [List.count_cons_of_ne other]

theorem advance_line (text : List Char) :
    first.advance (text ++ ['\n']) = first.below (1 + text.count '\n') := by
  calc first.advance (text ++ ['\n'])
    _ = (first.advance text).next '\n' := advance_append first text ['\n']
    _ = ⟨(first.advance text).line + 1, 1⟩ := rfl
    _ = ⟨1 + text.count '\n' + 1, 1⟩ := by rw [line_advance]; rfl
    _ = first.below (1 + text.count '\n') := by rw [Nat.add_comm]; rfl

end Location

end FormCode
