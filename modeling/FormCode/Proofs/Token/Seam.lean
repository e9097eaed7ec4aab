import FormCode.Proofs.Text.Location
import FormCode.Proofs.Token.Division
import FormCode.Proofs.Token.Lexeme

/-! A line feed between two texts. No piece of the first one reaches across it: blanks do, but they
may as well be skipped one by one, and whatever else begins outside a string ends before a line
feed. The second text is scanned as it is on its own, only further down. -/
namespace FormCode.Token

open Regex

theorem scanFrom_blanks (place : Location) (found : List (Located Token)) (text : List Char) :
    scanFrom place found text =
      scanFrom (place.advance (text.takeWhile isSkipped)) found (text.dropWhile isSkipped) := by
  have split := List.takeWhile_append_dropWhile (p := isSkipped) (l := text)
  cases taken : text.takeWhile isSkipped with
  | nil =>
    rw [taken, List.nil_append] at split
    rw [split]
    rfl
  | cons c blanks =>
    have blank : (c :: blanks).all isSkipped = true := taken ▸ List.all_takeWhile
    have first : piece text = .blank (c :: blanks).length := by
      rw [← piece_blanks blank (dropWhile_isSkipped text), ← taken, split]
    rw [scanFrom_blank first]
    nth_rewrite 1 2 [← split]
    rw [taken, List.take_left, List.drop_left]

/-- What is skipped may be skipped in any portions. -/
theorem scanFrom_skip {blanks : List Char} (blank : ∀ c ∈ blanks, isSkipped c = true)
    (place : Location) (found : List (Located Token)) (text : List Char) :
    scanFrom place found (blanks ++ text) = scanFrom (place.advance blanks) found text := by
  rw [scanFrom_blanks place, List.takeWhile_append_of_pos blank, List.dropWhile_append_of_pos blank,
    Location.advance_append, ← scanFrom_blanks]

theorem derivAll_stringUnit {unit : List Char} (h : Matches Shape.stringUnit unit) :
    stringRest.derivAll unit = stringRest := by
  rcases matches_alt_iff.mp h with plain | escaped
  · obtain ⟨c, rfl, other⟩ := matches_one_iff.mp plain
    simp only [Bool.and_eq_true, bne_iff_ne] at other
    exact deriv_stringRest other.1 other.2
  · obtain ⟨_, _, rfl, mark, after⟩ := matches_seq_iff.mp escaped
    obtain ⟨b, rfl, backslash⟩ := matches_one_iff.mp mark
    obtain ⟨c, rfl, other⟩ := matches_one_iff.mp after
    obtain rfl := beq_iff_eq.mp backslash
    exact derivAll_stringRest_escaped (bne_iff_ne.mp other)

theorem derivAll_stringUnits {units : List Char} (h : Matches (.star Shape.stringUnit) units) :
    stringRest.derivAll units = stringRest := by
  generalize whole : Regex.star Shape.stringUnit = star at h
  induction h with
  | done => rfl
  | more first _ _ ih =>
    cases whole
    rw [derivAll_append, derivAll_stringUnit first, ih rfl]
  | _ => contradiction

/-- A string ends at its closing quote, whatever follows. -/
theorem derivAll_of_matches_string {text : List Char} (h : Matches Shape.string text) :
    Shape.string.derivAll text = .empty := by
  obtain ⟨_, _, rfl, opened, closing⟩ := matches_seq_iff.mp h
  obtain ⟨_, units, rfl, opening, inside⟩ := matches_seq_iff.mp opened
  obtain ⟨c, rfl, quote⟩ := matches_one_iff.mp opening
  obtain ⟨d, rfl, quote'⟩ := matches_one_iff.mp closing
  obtain rfl := beq_iff_eq.mp quote
  obtain rfl := beq_iff_eq.mp quote'
  have first : Shape.string.derivAll ['"'] = stringRest := rfl
  rw [derivAll_append, derivAll_append, first, derivAll_stringUnits inside]
  rfl

theorem Decides.ends {rule r : Rule} {lexeme rest : List Char} (h : Decides rule lexeme rest)
    (member : r ∈ rules) : r.shape.Ends lexeme rest :=
  ends_iff.mpr (h.longest r member)

theorem Decides.only {rule only : Rule} {c : Char} {t rest : List Char}
    (h : Decides rule (c :: t) rest)
    (others : ∀ r ∈ rules, r ≠ only → begins c r.shape = false) : rule = only := by
  by_cases same : rule = only
  · exact same
  · have first := begins_of_matches h.own
    simp [others rule h.member same] at first

theorem Decides.blanks {rule : Rule} {c : Char} {t rest : List Char}
    (h : Decides rule (c :: t) rest) (skipped : isSkipped c = true) :
    rule = .blanks ∧ ∀ d ∈ c :: t, isSkipped d = true := by
  obtain rfl := h.only (begins_of_isSkipped skipped)
  have blank : Matches Shape.blanks (c :: t) := h.own
  refine ⟨rfl, fun d inside => ?_⟩
  simpa [Shape.blanks, plus, holds] using holds_of_matches blank inside

theorem Decides.string {rule : Rule} {t rest : List Char} (h : Decides rule ('"' :: t) rest) :
    Matches Shape.string ('"' :: t) := by
  have only : rule = .string := h.only (by decide)
  cases only
  exact h.own

/-- A piece that is not blank stays what it is when a line feed follows later. -/
theorem Decides.line {rule : Rule} {c : Char} {t rest : List Char}
    (h : Decides rule (c :: t) rest) (unskipped : isSkipped c = false) (more : List Char) :
    Decides rule (c :: t) (rest ++ '\n' :: more) := by
  suffices ends : ∀ r ∈ rules, r.shape.Ends (c :: t) (rest ++ '\n' :: more) from
    ⟨h.member, h.own, fun r member => ends_iff.mp (ends r member), h.first⟩
  intro r member
  -- only blanks and strings hold line feeds
  have without : ∀ r ∈ rules, r ≠ .blanks → r ≠ .string → holds '\n' r.shape = false := by decide
  by_cases blanks : r = .blanks
  · subst blanks
    exact .of_begins _ _ (by
      simpa [Rule.shape, Shape.blanks, plus, begins, nullable] using unskipped)
  · by_cases string : r = .string
    · subst string
      by_cases quote : c = '"'
      · subst quote
        exact .of_derivAll _ (derivAll_of_matches_string h.string)
      · exact .of_begins _ _ (by
          simp [Rule.shape, Shape.string, Shape.openString, just, begins, nullable, quote])
    · exact (h.ends member).append (.of_holds _ _ (without r member blanks string))

theorem isDelimited_line {text : List Char} (h : isDelimited text = true) (more : List Char) :
    isDelimited (text ++ '\n' :: more) = true := by
  cases text with
  | nil => rfl
  | cons c text => exact h

theorem Decides.ne_nil {rule : Rule} {lexeme rest : List Char} (h : Decides rule lexeme rest) :
    lexeme ≠ [] := by
  rintro rfl
  have nullable := nullable_iff.mpr h.own
  simp [not_nullable_of_mem h.member] at nullable

/-- Up to a line feed behind it, a divided text is scanned into its own tokens. -/
theorem scanFrom_line {pieces : List Lexeme} (h : Divided pieces) (place : Location)
    (found : List (Located Token)) (more : List Char) :
    scanFrom place found (textOf pieces ++ '\n' :: more) =
      scanFrom (place.advance (textOf pieces ++ ['\n']))
        ((tokensFrom place pieces).reverse ++ found) more := by
  induction h generalizing place found with
  | nil => exact @scanFrom_skip ['\n'] (List.forall_mem_singleton.mpr rfl) place found more
  | @cons rule lexeme pieces meaning decides meant free _ ih =>
    obtain ⟨c, t, rfl⟩ := List.exists_cons_of_ne_nil decides.ne_nil
    rw [textOf_cons, List.append_assoc, List.append_assoc, Location.advance_append]
    cases skipped : isSkipped c with
    | true =>
      obtain ⟨rfl, blank⟩ := decides.blanks skipped
      cases meant
      rw [scanFrom_skip blank, ih]
      rfl
    | false =>
      have decides := decides.line skipped more
      cases meaning with
      | blank =>
        have first := piece_eq_blank_iff_decides.mpr ⟨rule, decides, meant⟩
        rw [scanFrom_blank first, List.take_left, List.drop_left, ih]
        rfl
      | token token =>
        have delimited := fun needed => isDelimited_line (free token rfl needed) more
        have first := piece_eq_token_iff_decides.mpr ⟨rule, decides, meant, delimited⟩
        rw [scanFrom_token first, List.take_left, List.drop_left, ih]
        simp [tokensFrom]

/-- A text further down is scanned as it is above, and all places are as much further down. -/
theorem scanFrom_below (place : Location) (k : Nat) (before found : List (Located Token))
    (text : List Char) :
    scanFrom (place.below k) (found.map (·.below k) ++ before) text =
      ((scanFrom place found text).map fun tokens =>
        before.reverse ++ tokens.map (·.below k)).mapError (·.below k) := by
  induction place, found, text using scanFrom.induct with
  | case1 place found =>
    simp [scanFrom, Except.map, Except.mapError]
  | case2 place found c text fault wrong =>
    simp [scanFrom, wrong, Except.map, Except.mapError, Located.below]
  | case3 place found c text n first ih =>
    rw [scanFrom, scanFrom, first]
    simp only [Location.advance_below, ih]
  | case4 place found c text n t first ih =>
    rw [scanFrom, scanFrom, first]
    simp only [Location.advance_below, ← ih]
    rfl

theorem scan_line {s t : List Char} {tokens : List (Located Token)} (h : scan s = .ok tokens) :
    scan (s ++ '\n' :: t) = ((scan t).map fun others =>
      tokens ++ others.map (·.below (1 + s.count '\n'))).mapError (·.below (1 + s.count '\n')) := by
  obtain ⟨pieces, divided, rfl, rfl⟩ := divided_of_scanFrom h
  rw [scan, scanFrom_line divided, Location.advance_line]
  have below := scanFrom_below .first (1 + (textOf pieces).count '\n')
    (tokensFrom .first pieces).reverse [] t
  rw [List.reverse_reverse, List.map_nil, List.nil_append] at below
  rw [List.append_nil, below]
  rfl

end FormCode.Token
