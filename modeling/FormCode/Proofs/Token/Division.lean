import FormCode.Proofs.Except
import FormCode.Proofs.Token.Ambiguity

/-! The division of a text into lexemes and what is skipped. It says for itself which piece stands
where: the longest one that any rule describes. A text is lexed exactly if it can be divided, and
its tokens are those of the division. -/
namespace FormCode.Token

open Regex

/-- The rule describes the piece `lexeme` of a text that goes on with `rest`. No rule describes a
longer beginning, and where another rule describes the same one, the rule for symbols gives way. -/
structure Decides (rule : Rule) (lexeme rest : List Char) : Prop where
  member : rule ∈ rules
  own : rule.shape.Matches lexeme
  longest : ∀ r ∈ rules, ∀ s, s <+: lexeme ++ rest → r.shape.Matches s → s.length ≤ lexeme.length
  first : ∀ r ∈ rules, r.shape.Matches lexeme → r = rule ∨ rule ∈ preferred ∧ r = .symbol

structure Lexeme where
  text : List Char
  meaning : Meaning

def textOf (pieces : List Lexeme) : List Char := pieces.flatMap Lexeme.text

/-- The pieces follow each other. A rule decides for each, finds the meaning of the piece, and where
the token needs a delimiter, one comes next or the text ends. -/
inductive Divided : List Lexeme → Prop
  | nil : Divided []
  | cons (decides : Decides rule lexeme (textOf pieces))
      (meant : rule.meaning lexeme = some meaning)
      (free : ∀ t, meaning = .token t → t.needsDelimiter = true →
        isDelimited (textOf pieces) = true)
      (others : Divided pieces) : Divided (⟨lexeme, meaning⟩ :: pieces)

/-- The tokens among pieces that begin at `place`, each with the place where it begins. -/
def tokensFrom (place : Location) : List Lexeme → List (Located Token)
  | [] => []
  | ⟨text, .blank⟩ :: pieces => tokensFrom (place.advance text) pieces
  | ⟨text, .token t⟩ :: pieces => ⟨place, t⟩ :: tokensFrom (place.advance text) pieces

theorem Decides.longest_le {rule r : Rule} {lexeme rest : List Char} {m : Nat}
    (decides : Decides rule lexeme rest) (member : r ∈ rules)
    (h : r.shape.longest (lexeme ++ rest) = some m) : m ≤ lexeme.length := by
  obtain ⟨bound, matched⟩ := matches_of_longest h
  have least := decides.longest r member _ (List.take_prefix m _) matched
  rwa [List.length_take_of_le bound] at least

theorem decides_of_longestOf {rule : Rule} {lexeme rest : List Char}
    (h : longestOf rules (lexeme ++ rest) = some (lexeme.length, rule)) :
    Decides rule lexeme rest := by
  obtain ⟨earlier, later, split, chosen, before, -⟩ := longestOf_eq_some_iff.mp h
  have ties := tie lexeme
  rw [split, List.pairwise_append, List.pairwise_cons] at ties
  have own := (matches_of_longest chosen).2
  rw [List.take_left] at own
  refine ⟨(longestOf_mem h).1, own, fun r member => ?_, fun r member matched => ?_⟩
  · have ends := Ends.of_longest fun m => longestOf_le h member (m := m)
    rw [List.take_left, List.drop_left] at ends
    exact ends_iff.mp ends
  · rw [split, List.mem_append, List.mem_cons] at member
    rcases member with member | rfl | member
    · obtain ⟨m, reached, least⟩ := exists_longest_append matched rest
      exact absurd (before r member m reached) (Nat.not_lt.mpr least)
    · exact .inl rfl
    · exact .inr (ties.2.1.1 r member own matched)

theorem longestOf_of_decides {rule : Rule} {lexeme rest : List Char}
    (decides : Decides rule lexeme rest) :
    longestOf rules (lexeme ++ rest) = some (lexeme.length, rule) := by
  obtain ⟨earlier, later, split, fresh⟩ := List.eq_append_cons_of_mem decides.member
  have ties := tie lexeme
  rw [split, List.pairwise_append] at ties
  obtain ⟨n, chosen, least⟩ := exists_longest_append decides.own rest
  obtain rfl := Nat.le_antisymm (decides.longest_le decides.member chosen) least
  refine longestOf_eq_some_iff.mpr ⟨earlier, later, split, chosen, fun r inside m reached => ?_,
    fun r inside m reached => decides.longest_le ?_ reached⟩
  · have member : r ∈ rules := split ▸ List.mem_append_left _ inside
    refine Nat.lt_of_le_of_ne (decides.longest_le member reached) ?_
    rintro rfl
    have matched := (matches_of_longest reached).2
    rw [List.take_left] at matched
    rcases decides.first r member matched with rfl | ⟨-, rfl⟩
    · exact fresh inside
    · -- two rules for symbols, of which the one in front was not chosen
      obtain ⟨-, rfl⟩ := ties.2.2 _ inside rule (List.mem_cons_self ..) matched decides.own
      exact fresh inside
  · rw [split]
    exact List.mem_append_right _ (List.mem_cons_of_mem _ inside)

/-- What is decided is what the choice of rules by their order comes to. -/
theorem longestOf_iff_decides {rule : Rule} {lexeme rest : List Char} :
    longestOf rules (lexeme ++ rest) = some (lexeme.length, rule) ↔ Decides rule lexeme rest :=
  ⟨decides_of_longestOf, longestOf_of_decides⟩

/-- A text that is described as a whole is one piece; only symbols can give way. -/
theorem longestOf_described {rule : Rule} {text : List Char} (own : rule.shape.Matches text)
    (plain : rule ≠ .symbol) : longestOf rules text = some (text.length, rule) := by
  have decides : Decides rule text [] := by
    refine ⟨mem_rules rule, own, fun r _ s begins _ => ?_, fun r _ matched => ?_⟩
    · rw [List.append_nil] at begins
      exact begins.length_le
    · rcases tied_of_matches own matched with same | first | second
      · exact .inl same.symm
      · exact .inr first
      · exact absurd second.2 plain
  have chosen := longestOf_of_decides decides
  rwa [List.append_nil] at chosen

theorem piece_eq_token_iff_decides {lexeme rest : List Char} {t : Token} :
    piece (lexeme ++ rest) = .token lexeme.length t ↔ ∃ rule, Decides rule lexeme rest ∧
      rule.meaning lexeme = some (.token t) ∧
        (t.needsDelimiter = true → isDelimited rest = true) := by
  rw [piece_eq_token_iff]
  simp only [longestOf_iff_decides, List.take_left, List.drop_left]

theorem piece_eq_blank_iff_decides {lexeme rest : List Char} :
    piece (lexeme ++ rest) = .blank lexeme.length ↔ ∃ rule, Decides rule lexeme rest ∧
      rule.meaning lexeme = some .blank := by
  rw [piece_eq_blank_iff]
  simp only [longestOf_iff_decides, List.take_left]

theorem textOf_cons (lexeme : Lexeme) (pieces : List Lexeme) :
    textOf (lexeme :: pieces) = lexeme.text ++ textOf pieces := List.flatMap_cons

theorem scanFrom_of_divided {pieces : List Lexeme} (h : Divided pieces) (place : Location)
    (found : List (Located Token)) :
    scanFrom place found (textOf pieces) = .ok (found.reverse ++ tokensFrom place pieces) := by
  induction h generalizing place found with
  | nil => simp [textOf, tokensFrom, scanFrom]
  | @cons rule lexeme pieces meaning decides meant free _ ih =>
    rw [textOf_cons]
    cases meaning with
    | blank =>
      have first := piece_eq_blank_iff_decides.mpr ⟨rule, decides, meant⟩
      rw [scanFrom_blank first, List.take_left, List.drop_left, ih]
      rfl
    | token t =>
      have first := piece_eq_token_iff_decides.mpr ⟨rule, decides, meant, free t rfl⟩
      rw [scanFrom_token first, List.take_left, List.drop_left, ih]
      simp [tokensFrom]

theorem exists_lexeme {c : Char} {text : List Char} {n : Nat} {rule : Rule}
    (h : longestOf rules (c :: text) = some (n, rule)) :
    ∃ t rest, text = t ++ rest ∧ n = t.length + 1 ∧ Decides rule (c :: t) rest := by
  obtain ⟨least, bound⟩ := longestOf_pos h
  obtain ⟨n, rfl⟩ := Nat.exists_eq_succ_of_ne_zero (Nat.ne_of_gt least)
  have size : (text.take n).length = n := List.length_take_of_le (Nat.le_of_succ_le_succ bound)
  refine ⟨text.take n, text.drop n, (List.take_append_drop n text).symm, by rw [size], ?_⟩
  rw [← longestOf_iff_decides, List.cons_append, List.take_append_drop, List.length_cons, size]
  exact h

theorem divided_of_scanFrom {place : Location} {found located : List (Located Token)}
    {text : List Char} (h : scanFrom place found text = .ok located) :
    ∃ pieces, Divided pieces ∧ text = textOf pieces ∧
      located = found.reverse ++ tokensFrom place pieces := by
  induction place, found, text using scanFrom.induct with
  | case1 place found =>
    rw [scanFrom] at h
    cases h
    exact ⟨[], .nil, rfl, by simp [tokensFrom]⟩
  | case2 place found c text fault wrong =>
    rw [scanFrom, wrong] at h
    contradiction
  | case3 place found c text n first ih =>
    obtain ⟨rule, chosen, meant⟩ := piece_eq_blank_iff.mp first
    obtain ⟨t, rest, rfl, rfl, decides⟩ := exists_lexeme chosen
    rw [scanFrom_blank first] at h
    simp only [List.take_succ_cons, List.take_left, List.drop_succ_cons, List.drop_left,
      Nat.add_sub_cancel] at h meant ih
    obtain ⟨pieces, divided, rfl, rfl⟩ := ih h
    have free : ∀ t, Meaning.blank = .token t → t.needsDelimiter = true →
        isDelimited (textOf pieces) = true := by
      intro t same
      cases same
    exact ⟨⟨c :: t, .blank⟩ :: pieces, .cons decides meant free divided, rfl, rfl⟩
  | case4 place found c text n token first ih =>
    obtain ⟨rule, chosen, meant, free⟩ := piece_eq_token_iff.mp first
    obtain ⟨t, rest, rfl, rfl, decides⟩ := exists_lexeme chosen
    rw [scanFrom_token first] at h
    simp only [List.take_succ_cons, List.take_left, List.drop_succ_cons, List.drop_left,
      Nat.add_sub_cancel] at h meant free ih
    obtain ⟨pieces, divided, rfl, rfl⟩ := ih h
    refine ⟨⟨c :: t, .token token⟩ :: pieces, .cons decides meant ?_ divided, rfl, ?_⟩
    · rintro _ same
      cases same
      exact free
    · simp [tokensFrom]

/-- A source is lexed exactly if it is divided without a rest, and into the tokens of its
division. -/
theorem lex_ok_iff_divided (source : String) (tokens : List (Located Token)) :
    lex source = .ok tokens ↔ ∃ pieces, Divided pieces ∧ source.toList = textOf pieces ∧
      tokens = tokensFrom .first pieces := by
  rw [lex, mapError_eq_ok, scan]
  constructor
  · exact divided_of_scanFrom
  · rintro ⟨pieces, divided, text, rfl⟩
    rw [text]
    exact scanFrom_of_divided divided .first []

end FormCode.Token
