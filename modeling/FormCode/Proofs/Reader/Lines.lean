import FormCode.Proofs.Reader.Acceptance
import FormCode.Proofs.Token.Seam

/-! Sources line by line. What is read from two sources that are put below each other is what is
read from each of them. -/
namespace FormCode.Reader

mutual

theorem Derives.lower {level : Nat} {tokens : List (Located Token)} {v : Value}
    (h : Derives level tokens v) (k : Nat) : Derives level (tokens.map (·.below k)) v := by
  match h with
  | .atom room => exact .atom room
  | .quote room inside => exact .quote room (inside.lower k)
  | .list room inside =>
    rw [List.map_cons, List.map_append]
    exact .list room (inside.lower k)
  | .vector room inside =>
    rw [List.map_cons, List.map_append]
    exact .vector room (inside.lower k)
  | .map room inside distinct =>
    rw [List.map_cons, List.map_append]
    exact .map room (inside.lower k) distinct

theorem DerivesAll.lower {level : Nat} {tokens : List (Located Token)} {items : List Value}
    (h : DerivesAll level tokens items) (k : Nat) :
    DerivesAll level (tokens.map (·.below k)) items := by
  match h with
  | .nil => exact .nil
  | .cons first others =>
    rw [List.map_append]
    exact .cons (first.lower k) (others.lower k)

end

theorem DerivesAll.append {level : Nat} {tokens others : List (Located Token)}
    {items more : List Value} (h : DerivesAll level tokens items)
    (h' : DerivesAll level others more) : DerivesAll level (tokens ++ others) (items ++ more) := by
  match h with
  | .nil => exact h'
  | .cons first rest =>
    rw [List.append_assoc]
    exact .cons first (rest.append h')

theorem readAll_ok_iff {source : String} {forms : List Value} :
    readAll source = .ok forms ↔
      ∃ tokens, Token.lex source = .ok tokens ∧ DerivesAll 1 tokens forms := by
  simp only [readAll, ofSource, bind_eq_ok, map_eq_ok, mapError_eq_ok]
  constructor
  · rintro ⟨_, ⟨tokens, lexed, rfl⟩, read⟩
    exact ⟨tokens, lexed, all_ok_iff.mp read⟩
  · rintro ⟨tokens, lexed, derives⟩
    exact ⟨_, ⟨tokens, lexed, rfl⟩, all_ok_iff.mpr derives⟩

theorem lex_line {s t : String} {tokens : List (Located Token)} (h : Token.lex s = .ok tokens) :
    Token.lex (s ++ "\n" ++ t) =
      ((Token.scan t.toList).map fun others =>
        tokens ++ others.map (·.below (1 + s.toList.count '\n'))).mapError fun fault =>
          .lexing (fault.place.below (1 + s.toList.count '\n')) fault.item.message := by
  have text : (s ++ "\n" ++ t).toList = s.toList ++ '\n' :: t.toList := by simp
  rw [Token.lex, text, Token.scan_line (mapError_eq_ok.mp h)]
  cases Token.scan t.toList <;> rfl

/-- Below a source that is lexed, a text is lexed as it is on its own: into the same tokens or with
the same fault, further down by the lines of the source. So what is read from both are the forms of
the one and then those of the other. -/
theorem reads_lines (s t : String) :
    (∀ xs, Token.lex s = .ok xs →
      let k := 1 + s.toList.count '\n'
      (∀ ys, Token.lex t = .ok ys →
        Token.lex (s ++ "\n" ++ t) = .ok (xs ++ ys.map (·.below k))) ∧
      (∀ place message, Token.lex t = .error (.lexing place message) →
        Token.lex (s ++ "\n" ++ t) = .error (.lexing (place.below k) message))) ∧
    (∀ us vs, readAll s = .ok us → readAll t = .ok vs →
      readAll (s ++ "\n" ++ t) = .ok (us ++ vs)) := by
  have tokens_below {xs ys} (h : Token.lex s = .ok xs) (h' : Token.lex t = .ok ys) :
      Token.lex (s ++ "\n" ++ t) = .ok (xs ++ ys.map (·.below (1 + s.toList.count '\n'))) := by
    rw [lex_line h, mapError_eq_ok.mp h']
    rfl
  refine ⟨fun xs h => ⟨fun ys h' => tokens_below h h', fun place message failed => ?_⟩, ?_⟩
  · rw [lex_line h]
    rw [Token.lex] at failed
    cases scanned : Token.scan t.toList with
    | ok others =>
      rw [scanned] at failed
      cases failed
    | error fault =>
      rw [scanned] at failed
      cases failed
      rfl
  · intro us vs read read'
    obtain ⟨xs, lexed, derives⟩ := readAll_ok_iff.mp read
    obtain ⟨ys, lexed', derives'⟩ := readAll_ok_iff.mp read'
    exact readAll_ok_iff.mpr ⟨_, tokens_below lexed lexed', derives.append (derives'.lower _)⟩

/-- A string with a line feed and a comment, above forms and above a number with a fault. -/
theorem reads_lines_comment :
    let s := "[\"a\nb\"] ; c"
    let t := "'x \\newline"
    let faulty := "1 2x"
    let xs : List (Located Token) :=
      [⟨⟨1, 1⟩, .opening .square⟩, ⟨⟨1, 2⟩, .atom (.string "a\nb")⟩, ⟨⟨2, 3⟩, .closing .square⟩]
    let ys : List (Located Token) :=
      [⟨⟨1, 1⟩, .quote⟩, ⟨⟨1, 2⟩, .atom (.symbol "x")⟩, ⟨⟨1, 4⟩, .atom (.char '\n')⟩]
    let u : Value := .vector [.atom (.string "a\nb")]
    let v : Value := .list [.symbol "quote", .symbol "x"]
    let w : Value := .atom (.char '\n')
    (Token.lex s = .ok xs ∧ Token.lex t = .ok ys ∧
      Token.lex (s ++ "\n" ++ t) = .ok (xs ++ ys.map (·.below 2))) ∧
    (Token.lex faulty = .error (.lexing ⟨1, 3⟩ "Invalid number: 2x") ∧
      Token.lex (s ++ "\n" ++ faulty) = .error (.lexing ⟨3, 3⟩ "Invalid number: 2x")) ∧
    readAll s = .ok [u] ∧ readAll t = .ok [v, w] ∧ readAll (s ++ "\n" ++ t) = .ok [u, v, w] := by
  intro s t faulty xs ys u v w
  have above : Token.lex s = .ok xs := by cbv
  have below : Token.lex t = .ok ys := by cbv
  have scanned : Token.scan faulty.toList = .error ⟨⟨1, 3⟩, .number ['2', 'x']⟩ := by cbv
  have fault : Token.lex faulty = .error (.lexing ⟨1, 3⟩ "Invalid number: 2x") := by
    rw [Token.lex, scanned]
    rfl
  have read : readAll s = .ok [u] := by cbv
  have read' : readAll t = .ok [v, w] := by cbv
  have feeds : s.toList.count '\n' = 1 := by decide
  obtain ⟨lexes, reads⟩ := reads_lines s t
  have lexed := (lexes xs above).1 ys below
  have failed := ((reads_lines s faulty).1 xs above).2 _ _ fault
  rw [feeds] at lexed failed
  exact ⟨⟨above, below, lexed⟩, ⟨fault, failed⟩, read, read', reads [u] [v, w] read read'⟩

end FormCode.Reader
