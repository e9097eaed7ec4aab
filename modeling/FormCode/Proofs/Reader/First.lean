import FormCode.Proofs.Reader.Lines

/-! The first form of a source. What stands below it is never read as forms, but it is lexed with
the rest, so a fault in its tokens is a fault of the whole source. -/
namespace FormCode.Reader

theorem readFirst_ok_iff {source : String} {v : Value} :
    readFirst source = .ok v ↔
      ∃ written rest, Token.lex source = .ok (written ++ rest) ∧ Derives 1 written v := by
  simp only [readFirst, ofSource, bind_eq_ok, map_eq_ok, mapError_eq_ok]
  constructor
  · rintro ⟨_, ⟨tokens, lexed, rfl⟩, read⟩
    have next : Reader.next ⟨tokens, Text.endOf source.toList⟩ = (.ok v, _) := Prod.ext read rfl
    obtain ⟨written, split, derives⟩ := next_ok_iff.mp next
    exact ⟨written, _, lexed.trans (congrArg _ split), derives⟩
  · rintro ⟨written, rest, lexed, derives⟩
    refine ⟨_, ⟨_, lexed, rfl⟩, ?_⟩
    rw [next_ok_iff.mpr ⟨written, rfl, derives⟩]

theorem readFirst_of_lex_error {source : String} {error : Error}
    (h : Token.lex source = .error error) : readFirst source = .error error := by
  rw [readFirst, ofSource, h]
  rfl

theorem lex_line_cases {s : String} {tokens : List (Located Token)} (h : Token.lex s = .ok tokens)
    (t : String) :
    (∃ others, Token.lex t = .ok others ∧ ∃ below, Token.lex (s ++ "\n" ++ t) =
      .ok (tokens ++ below)) ∨
    ∃ place message, Token.lex t = .error (.lexing place message) ∧ Token.lex (s ++ "\n" ++ t) =
      .error (.lexing (place.below (1 + s.toList.count '\n')) message) := by
  have whole := lex_line (t := t) h
  rw [Token.lex]
  cases scanned : Token.scan t.toList with
  | ok others =>
    rw [scanned] at whole
    exact .inl ⟨others, rfl, _, whole⟩
  | error fault =>
    rw [scanned] at whole
    exact .inr ⟨fault.place, fault.item.message, rfl, whole⟩

/-- A text below a source leaves its first form as it is exactly if the text is lexed, whether or
not its tokens are forms. Otherwise reading fails with the fault of the text, further down. -/
theorem readFirst_line {s : String} {v : Value} (h : readFirst s = .ok v) (t : String) :
    (readFirst (s ++ "\n" ++ t) = .ok v ↔ ∃ tokens, Token.lex t = .ok tokens) ∧
    ∀ place message, Token.lex t = .error (.lexing place message) →
      readFirst (s ++ "\n" ++ t) =
        .error (.lexing (place.below (1 + s.toList.count '\n')) message) := by
  obtain ⟨written, rest, above, derives⟩ := readFirst_ok_iff.mp h
  rcases lex_line_cases above t with ⟨others, lexed, below, whole⟩ | ⟨place, message, failed, whole⟩
  · rw [List.append_assoc] at whole
    have first : readFirst (s ++ "\n" ++ t) = .ok v :=
      readFirst_ok_iff.mpr ⟨written, _, whole, derives⟩
    refine ⟨iff_of_true first ⟨others, lexed⟩, fun place message failed => ?_⟩
    rw [lexed] at failed
    contradiction
  · have first := readFirst_of_lex_error whole
    refine ⟨iff_of_false ?_ ?_, fun place' message' failed' => ?_⟩
    · rw [first]
      simp
    · rw [failed]
      simp
    · rw [failed] at failed'
      cases failed'
      exact first

/-- Closing brackets without partners below a quoted form are left alone; a string that is never
closed is not. -/
theorem readFirst_line_bracket :
    let s := "'[1\n2] ; c"
    let v : Value := .list [.symbol "quote", .vector [.atom (.int 1), .atom (.int 2)]]
    readFirst s = .ok v ∧ readFirst (s ++ "\n" ++ ")] :k (") = .ok v ∧
      readFirst (s ++ "\n" ++ ") \"ab") =
        .error (.lexing ⟨3, 3⟩ "Invalid string literal: \"ab") := by
  intro s v
  have read : readFirst s = .ok v := by cbv
  have brackets : ∃ tokens, Token.lex ")] :k (" = .ok tokens := ⟨_, by cbv⟩
  have scanned : Token.scan ") \"ab".toList = .error ⟨⟨1, 3⟩, .string ['"', 'a', 'b']⟩ := by cbv
  have fault : Token.lex ") \"ab" =
      .error (.lexing ⟨1, 3⟩ "Invalid string literal: \"ab") := by
    rw [Token.lex, scanned]
    rfl
  have feeds : s.toList.count '\n' = 1 := by decide
  have failed := (readFirst_line read ") \"ab").2 _ _ fault
  rw [feeds] at failed
  exact ⟨read, (readFirst_line read _).1.mpr brackets, failed⟩

/-- A character that begins no token is enough to lose the form above it. -/
theorem readFirst_above_stray :
    let v : Value := .atom (.int 1)
    readFirst "1" = .ok v ∧ readFirst ("1" ++ "\n" ++ "@") ≠ .ok v := by
  intro v
  have scanned : Token.scan ("1" ++ "\n" ++ "@").toList =
      .error ⟨⟨2, 1⟩, .unexpected ['@']⟩ := by cbv
  have stray : Token.lex ("1" ++ "\n" ++ "@") =
      .error (.lexing ⟨2, 1⟩ (Token.Fault.unexpected ['@']).message) := by
    rw [Token.lex, scanned]
    rfl
  refine ⟨by cbv, ?_⟩
  rw [readFirst_of_lex_error stray]
  simp

end FormCode.Reader
