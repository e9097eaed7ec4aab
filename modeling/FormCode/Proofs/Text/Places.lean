import Mathlib.Data.List.Induction
import Mathlib.Data.List.TakeWhile
import FormCode.Proofs.Text.Location
import FormCode.Text.Lines

/-! Places and lines. A place that is reached character by character can be counted from the text
before it. The lines of the text, which lose the carriage returns of their line ends, still hold
the character at its place, unless it belongs to a line end itself. -/
namespace FormCode

namespace Location

/-- The place behind a text: one line for each line feed, one column for each character since. -/
def behind (text : List Char) : Location :=
  ⟨1 + text.count '\n', 1 + (text.reverse.takeWhile (· != '\n')).length⟩

theorem behind_concat (text : List Char) (c : Char) :
    behind (text ++ [c]) = (behind text).next c := by
  unfold behind next
  rw [List.reverse_concat, List.count_append, List.count_singleton]
  by_cases feed : c = '\n'
  · simp [feed, Nat.add_assoc]
  · simp [feed, Nat.add_comm]

theorem advance_first (text : List Char) : first.advance text = behind text := by
  induction text using List.reverseRecOn with
  | nil => rfl
  | append_singleton text c ih =>
    rw [behind_concat, ← ih]
    exact advance_append first text [c]

/-- Earlier in the text: on a line above, or further left. -/
def Before (p q : Location) : Prop := p.line < q.line ∨ p.line = q.line ∧ p.column < q.column

theorem Before.trans {p q r : Location} (h : p.Before q) (h' : q.Before r) : p.Before r := by
  unfold Before at *
  omega

theorem before_next (place : Location) (c : Char) : place.Before (place.next c) := by
  unfold next
  split
  · exact .inl (Nat.lt_succ_self _)
  · exact .inr ⟨rfl, Nat.lt_succ_self _⟩

theorem before_advance (place : Location) {text : List Char} (some_text : text ≠ []) :
    place.Before (place.advance text) := by
  induction text generalizing place with
  | nil => contradiction
  | cons c text ih =>
    rw [advance_cons]
    by_cases last : text = []
    · rw [last]
      exact before_next place c
    · exact (before_next place c).trans (ih (place.next c) last)

end Location

namespace Text

theorem closeLine_keeps {line more : List Char} {c : Char} (other : c ≠ '\r') :
    (c :: line).reverse <+: closeLine (more ++ c :: line) := by
  have kept (more : List Char) : (c :: line).reverse <+: (more ++ c :: line).reverse := by
    rw [List.reverse_append]
    exact List.prefix_append ..
  unfold closeLine
  split
  case h_1 rest same =>
    cases more with
    | nil => exact absurd (List.cons.inj same).1 other
    | cons d more =>
      rw [← (List.cons.inj same).2]
      exact kept more
  case h_2 => exact kept more

theorem linesFrom_other {d : Char} (feed : d ≠ '\n') (line text : List Char) :
    linesFrom line (d :: text) = linesFrom (d :: line) text := linesFrom.eq_3 _ _ _ feed

/-- The first line keeps what has been seen of it, up to a character that is no carriage return. -/
theorem linesFrom_keeps {line : List Char} {c : Char} (other : c ≠ '\r') (more text : List Char) :
    ∃ whole others, linesFrom (more ++ c :: line) text = whole :: others ∧
      (c :: line).reverse <+: whole := by
  induction text generalizing more with
  | nil =>
    have seen : (more ++ c :: line).isEmpty = false := by simp
    rw [linesFrom, seen, List.reverse_append]
    exact ⟨_, [], rfl, List.prefix_append ..⟩
  | cons d text ih =>
    by_cases feed : d = '\n'
    · subst feed
      exact ⟨_, _, rfl, closeLine_keeps other⟩
    · rw [linesFrom_other feed]
      exact ih (d :: more)

theorem takeWhile_append_cons {p : Char → Bool} {d : Char} (stop : ¬ p d = true)
    (s t : List Char) : (s ++ d :: t).takeWhile p = s.takeWhile p := by
  rw [List.takeWhile_append, List.takeWhile_cons_of_neg stop, List.append_nil]
  split
  case isTrue whole => exact ((List.takeWhile_prefix p).eq_of_length whole).symm
  case isFalse => rfl

/-- Each character is found in the lines at its place, but for those of line ends. -/
theorem linesFrom_holds {c : Char} (other : c ≠ '\r') (unfed : c ≠ '\n') {line : List Char}
    (started : ∀ d ∈ line, d ≠ '\n') (before rest : List Char) :
    ∃ whole, (linesFrom line (before ++ c :: rest))[before.count '\n']? = some whole ∧
      whole[((before.reverse ++ line).takeWhile (· != '\n')).length]? = some c := by
  induction before generalizing line with
  | nil =>
    obtain ⟨whole, others, lines, more, rfl⟩ := @linesFrom_keeps line c other [] rest
    have column : line.takeWhile (· != '\n') = line :=
      List.takeWhile_eq_self_iff.mpr fun d inside => bne_iff_ne.mpr (started d inside)
    rw [List.nil_append, linesFrom_other unfed, ← List.nil_append (c :: line), lines]
    exact ⟨_, rfl, by simp [column]⟩
  | cons d before ih =>
    rw [List.cons_append, List.reverse_cons, List.append_assoc, List.singleton_append]
    by_cases feed : d = '\n'
    · subst feed
      obtain ⟨whole, lines, column⟩ := @ih [] (by simp)
      rw [List.append_nil] at column
      rw [List.count_cons_self, linesFrom, List.getElem?_cons_succ,
        takeWhile_append_cons (by decide)]
      exact ⟨whole, lines, column⟩
    · rw [linesFrom_other feed, List.count_cons_of_ne feed]
      exact ih (List.forall_mem_cons.mpr ⟨feed, started⟩)

theorem linesFrom_ne_nil {line text : List Char} (h : line ≠ [] ∨ text ≠ []) :
    linesFrom line text ≠ [] := by
  induction text generalizing line with
  | nil => simpa [linesFrom] using h
  | cons d text ih =>
    by_cases feed : d = '\n'
    · subst feed
      simp [linesFrom]
    · rw [linesFrom_other feed]
      exact ih (.inl (by simp))

/-- The place is on that line of the text, at one of its characters or right behind the last. -/
structure OnLine (text : List Char) (place : Location) (line : List Char) : Prop where
  line_pos : 1 ≤ place.line
  found : (lines text)[place.line - 1]? = some line
  column_pos : 1 ≤ place.column
  column_le : place.column ≤ line.length + 1

theorem behind_onLine {c : Char} (other : c ≠ '\r') (unfed : c ≠ '\n') (before rest : List Char) :
    ∃ whole, OnLine (before ++ c :: rest) (.behind before) whole ∧
      whole[(Location.behind before).column - 1]? = some c := by
  obtain ⟨whole, found, stands⟩ := @linesFrom_holds c other unfed [] (by simp) before rest
  rw [List.append_nil] at stands
  have within := (List.getElem?_eq_some_iff.mp stands).1
  refine ⟨whole, ⟨Nat.le_add_right .., ?_, Nat.le_add_right .., ?_⟩, ?_⟩
  · rwa [Location.behind, Nat.add_sub_cancel_left]
  · change 1 + (before.reverse.takeWhile (· != '\n')).length ≤ whole.length + 1
    omega
  · rwa [Location.behind, Nat.add_sub_cancel_left]

/-- A text that is not empty ends right behind the last character of its last line. -/
theorem endOf_onLine {text : List Char} (some_text : text ≠ []) :
    ∃ line, OnLine text (endOf text) line ∧ (endOf text).line = (lines text).length ∧
      (endOf text).column = line.length + 1 := by
  have some_lines : lines text ≠ [] := linesFrom_ne_nil (.inr some_text)
  have count := List.length_pos_iff.mpr some_lines
  have last : (lines text).getLast? = some _ := List.getLast?_eq_some_getLast some_lines
  have line : (endOf text).line = (lines text).length := Nat.max_eq_left count
  have column : (endOf text).column = ((lines text).getLast some_lines).length + 1 := by
    rw [endOf, last]
    rfl
  refine ⟨_, ⟨line ▸ count, ?_, by omega, Nat.le_of_eq column⟩, line, column⟩
  rw [line, ← List.getLast?_eq_getElem?, last]

theorem behind_before_endOf {c : Char} (other : c ≠ '\r') (unfed : c ≠ '\n')
    (before rest : List Char) :
    (Location.behind before).Before (endOf (before ++ c :: rest)) := by
  obtain ⟨line, on, stands⟩ := behind_onLine other unfed before rest
  have some_text : before ++ c :: rest ≠ [] := by simp
  obtain ⟨last, atEnd, lastLine, lastColumn⟩ := endOf_onLine some_text
  have row := (List.getElem?_eq_some_iff.mp on.found).1
  have column := (List.getElem?_eq_some_iff.mp stands).1
  have least := on.line_pos
  by_cases above : (Location.behind before).line < (endOf (before ++ c :: rest)).line
  · exact .inl above
  · have same : (Location.behind before).line = (endOf (before ++ c :: rest)).line := by omega
    have found := on.found
    rw [same, atEnd.found] at found
    cases found
    exact .inr ⟨same, by omega⟩

end Text

end FormCode
