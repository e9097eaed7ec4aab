import FormCode.Proofs.Text.Places
import FormCode.Proofs.Token.Seam

/-! Where tokens and faults stand. The place of a token is counted from the text before it, and so
is the place of the text that no token begins. Both stand on a line of the source and before its
end, because what is skipped begins neither. -/
namespace FormCode.Token

/-- The tokens are taken from the source, and `rest` is left behind `before`. -/
structure Reaches (source : List Char) (tokens : List Token) (before rest : List Char) : Prop where
  split : source = before ++ rest
  scans : Scans source tokens rest

theorem Reaches.done (source : List Char) : Reaches source [] [] source := ⟨rfl, .done⟩

section

variable {text before rest : List Char} {tokens : List Token} {n : Nat}

theorem Reaches.blank (first : piece text = .blank n)
    (h : Reaches (text.drop n) tokens before rest) :
    Reaches text tokens (text.take n ++ before) rest := by
  refine ⟨?_, .blank first h.scans⟩
  rw [List.append_assoc, ← h.split, List.take_append_drop]

theorem Reaches.token {t : Token} (first : piece text = .token n t)
    (h : Reaches (text.drop n) tokens before rest) :
    Reaches text (t :: tokens) (text.take n ++ before) rest := by
  refine ⟨?_, .token first h.scans⟩
  rw [List.append_assoc, ← h.split, List.take_append_drop]

end

theorem tokensFrom_reaches {pieces : List Lexeme} (h : Divided pieces) {place : Location} {i : Nat}
    {token : Located Token} (member : (tokensFrom place pieces)[i]? = some token) :
    ∃ before rest n,
      Reaches (textOf pieces) (((tokensFrom place pieces).take i).map Located.item) before rest ∧
        piece rest = .token n token.item ∧ token.place = place.advance before := by
  induction h generalizing place i with
  | nil => contradiction
  | @cons rule lexeme pieces meaning decides meant free _ ih =>
    rw [textOf_cons]
    have behind : (lexeme ++ textOf pieces).drop lexeme.length = textOf pieces := List.drop_left
    cases meaning with
    | blank =>
      have first := piece_eq_blank_iff_decides.mpr ⟨rule, decides, meant⟩
      obtain ⟨before, rest, n, reaches, taken, stands⟩ := ih member
      refine ⟨_, rest, n, .blank first (behind ▸ reaches), taken, ?_⟩
      rw [stands, List.take_left, Location.advance_append]
    | token t =>
      have first := piece_eq_token_iff_decides.mpr ⟨rule, decides, meant, free t rfl⟩
      cases i with
      | zero =>
        cases member
        exact ⟨[], _, _, .done _, first, rfl⟩
      | succ i =>
        obtain ⟨before, rest, n, reaches, taken, stands⟩ := ih member
        refine ⟨_, rest, n, .token first (behind ▸ reaches), taken, ?_⟩
        rw [stands, List.take_left, Location.advance_append]

theorem fault_reaches {place : Location} {found : List (Located Token)} {text : List Char}
    {fault : Located Fault} (h : scanFrom place found text = .error fault) :
    ∃ tokens before c rest, Reaches text tokens before (c :: rest) ∧
      piece (c :: rest) = .fault fault.item ∧ fault.place = place.advance before := by
  induction place, found, text using scanFrom.induct with
  | case1 place found =>
    rw [scanFrom] at h
    contradiction
  | case2 place found c text wrong first =>
    rw [scanFrom, first] at h
    cases h
    exact ⟨[], [], c, text, .done _, first, rfl⟩
  | case3 place found c text n first ih =>
    obtain ⟨least, -⟩ := longestOf_pos (piece_eq_blank_iff.mp first).choose_spec.1
    obtain ⟨n, rfl⟩ := Nat.exists_eq_succ_of_ne_zero (Nat.ne_of_gt least)
    rw [scanFrom_blank first] at h
    obtain ⟨tokens, before, d, rest, reaches, wrong, stands⟩ := ih h
    refine ⟨tokens, _, d, rest, .blank first reaches, wrong, ?_⟩
    rw [stands, Location.advance_append]
  | case4 place found c text n t first ih =>
    obtain ⟨least, -⟩ := longestOf_pos (piece_eq_token_iff.mp first).choose_spec.1
    obtain ⟨n, rfl⟩ := Nat.exists_eq_succ_of_ne_zero (Nat.ne_of_gt least)
    rw [scanFrom_token first] at h
    obtain ⟨tokens, before, d, rest, reaches, wrong, stands⟩ := ih h
    refine ⟨t :: tokens, _, d, rest, .token first reaches, wrong, ?_⟩
    rw [stands, Location.advance_append]

/-- No token of what follows comes before its place. -/
theorem tokensFrom_from (place : Location) (pieces : List Lexeme) :
    ∀ token ∈ tokensFrom place pieces, place = token.place ∨ place.Before token.place := by
  induction pieces generalizing place with
  | nil => simp [tokensFrom]
  | cons lexeme pieces ih =>
    obtain ⟨text, meaning⟩ := lexeme
    have later : ∀ token ∈ tokensFrom (place.advance text) pieces,
        place = token.place ∨ place.Before token.place := by
      intro token member
      by_cases some_text : text = []
      · subst some_text
        exact ih place token member
      · have ahead := place.before_advance some_text
        rcases ih _ token member with same | after
        · exact .inr (same ▸ ahead)
        · exact .inr (ahead.trans after)
    cases meaning with
    | blank => exact later
    | token t => exact List.forall_mem_cons.mpr ⟨.inl rfl, later⟩

theorem tokensFrom_pairwise {pieces : List Lexeme} (h : Divided pieces) (place : Location) :
    (tokensFrom place pieces).Pairwise fun t u => t.place.Before u.place := by
  induction h generalizing place with
  | nil => exact .nil
  | @cons rule lexeme pieces meaning decides meant free _ ih =>
    cases meaning with
    | blank => exact ih _
    | token t =>
      refine .cons (fun token member => ?_) (ih _)
      have ahead := place.before_advance decides.ne_nil
      rcases tokensFrom_from _ _ token member with same | after
      · exact same ▸ ahead
      · exact ahead.trans after

theorem lex_places {source : String} {tokens : List (Located Token)}
    (lexed : lex source = .ok tokens) :
    (∀ (i : Nat) (token : Located Token), tokens[i]? = some token → ∃ before rest n,
      Reaches source.toList ((tokens.take i).map Located.item) before rest ∧
        piece rest = .token n token.item ∧ token.place = .behind before) ∧
    tokens.Pairwise fun t u => t.place.Before u.place := by
  obtain ⟨pieces, divided, text, rfl⟩ := (lex_ok_iff_divided source tokens).mp lexed
  rw [text]
  refine ⟨fun i token member => ?_, tokensFrom_pairwise divided _⟩
  obtain ⟨before, rest, n, reaches, taken, stands⟩ := tokensFrom_reaches divided member
  exact ⟨before, rest, n, reaches, taken, stands.trans (Location.advance_first before)⟩

theorem lex_error_place {source : String} {error : Error} (failed : lex source = .error error) :
    ∃ tokens before c rest fault, Reaches source.toList tokens before (c :: rest) ∧
      piece (c :: rest) = .fault fault ∧ error = .lexing (.behind before) fault.message := by
  rw [lex] at failed
  cases scanned : scan source.toList with
  | ok tokens =>
    rw [scanned] at failed
    contradiction
  | error fault =>
    rw [scanned] at failed
    cases failed
    obtain ⟨tokens, before, c, rest, reaches, wrong, stands⟩ := fault_reaches scanned
    refine ⟨tokens, before, c, rest, fault.item, reaches, wrong, ?_⟩
    rw [← Location.advance_first, ← stands]

theorem piece_of_isSkipped {c : Char} (skipped : isSkipped c = true) (text : List Char) :
    ∃ n, piece (c :: text) = .blank n := by
  have split := List.takeWhile_append_dropWhile (p := isSkipped) (l := text)
  have blank : (c :: text.takeWhile isSkipped).all isSkipped = true := by
    rw [List.all_cons, skipped, List.all_takeWhile]
    rfl
  have first := piece_blanks blank (dropWhile_isSkipped text)
  rw [List.cons_append, split] at first
  exact ⟨_, first⟩

theorem Reaches.onLine {source before rest : List Char} {tokens : List Token} {c : Char}
    (h : Reaches source tokens before (c :: rest)) (visible : ∀ n, piece (c :: rest) ≠ .blank n) :
    (∃ line, Text.OnLine source (.behind before) line) ∧
      (Location.behind before).Before (Text.endOf source) := by
  have unskipped : isSkipped c ≠ true := fun skipped => by
    obtain ⟨n, blank⟩ := piece_of_isSkipped skipped rest
    exact visible n blank
  have other : c ≠ '\r' := by
    rintro rfl
    exact unskipped rfl
  have unfed : c ≠ '\n' := by
    rintro rfl
    exact unskipped rfl
  rw [h.split]
  obtain ⟨line, on, -⟩ := Text.behind_onLine other unfed before rest
  exact ⟨⟨line, on⟩, Text.behind_before_endOf other unfed before rest⟩

theorem exists_cons_of_piece {rest : List Char} {n : Nat} {t : Token}
    (h : piece rest = .token n t) : ∃ c text, rest = c :: text := by
  obtain ⟨rule, chosen, -⟩ := piece_eq_token_iff.mp h
  obtain ⟨least, bound⟩ := longestOf_pos chosen
  exact List.exists_cons_of_length_pos (Nat.lt_of_lt_of_le least bound)

end FormCode.Token
