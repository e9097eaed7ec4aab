import Mathlib.Tactic.FinCases
import FormCode.Proofs.Token.Scan

/-! Texts that two rules describe. The first character nearly always tells the rules apart; only the
rule for symbols begins as others do, and integers begin as fractions do but are no fractions. So
two rules for the same text are one of nil, the truth values and the numbers, and the one for
symbols. -/
namespace FormCode.Token

open Regex

/-- The rules that go before the one for symbols: nil, the truth values and the numbers. -/
def preferred : List Rule := [.nil, .bool true, .bool false, .integer, .float]

def Tied (r r' : Rule) : Prop :=
  r = r' ∨ (r ∈ preferred ∧ r' = .symbol) ∨ (r' ∈ preferred ∧ r = .symbol)

instance : DecidableRel Tied := fun _ _ => inferInstanceAs (Decidable (_ ∨ _))

/-- The rules that are told apart only behind the first character. -/
def numbers : List Rule := [.integer, .float]

/-- The first characters of everything but numbers and symbols. -/
def leads : List Char :=
  [' ', '\t', '\r', '\n', '\x0c', ',', ';', '(', ')', '[', ']', '\x7b', '\x7d', '\'', 'n', 't', 'f',
    '"', '\\', ':']

theorem mem_rules (rule : Rule) : rule ∈ rules := by
  cases rule with
  | opening bracket | closing bracket => cases bracket <;> decide
  | bool b => cases b <;> decide
  | _ => decide

theorem begins_of_not_mem_leads {c : Char} (plain : c ∉ leads) {r : Rule}
    (h : begins c r.shape = true) : r = .symbol ∨ r ∈ numbers := by
  simp only [leads, List.mem_cons, not_or] at plain
  cases r with
  | opening bracket | closing bracket =>
    cases bracket <;> simp [Rule.shape, just, begins, Bracket.left, Bracket.right, plain] at h
  | bool b => cases b <;> simp [Rule.shape, word, just, begins, nullable, plain] at h
  | integer | float | symbol => simp [numbers]
  | _ =>
    simp [Rule.shape, Shape.blanks, Shape.comment, Shape.string, Shape.openString, Shape.char,
      Shape.keyword, plus, word, just, begins, nullable, isSkipped, plain] at h

theorem tied_of_begins {c : Char} {r r' : Rule} (h : begins c r.shape = true)
    (h' : begins c r'.shape = true) : Tied r r' ∨ r ∈ numbers ∧ r' ∈ numbers := by
  by_cases lead : c ∈ leads
  · have all : ∀ r ∈ rules, begins c r.shape = true →
        ∀ r' ∈ rules, begins c r'.shape = true → Tied r r' := by
      fin_cases lead
      all_goals decide
    exact .inl (all r (mem_rules r) h r' (mem_rules r') h')
  · have before : numbers ⊆ preferred := by decide
    rcases begins_of_not_mem_leads lead h with rfl | number
    · rcases begins_of_not_mem_leads lead h' with rfl | number'
      · exact .inl (.inl rfl)
      · exact .inl (.inr (.inr ⟨before number', rfl⟩))
    · rcases begins_of_not_mem_leads lead h' with rfl | number'
      · exact .inl (.inr (.inl ⟨before number, rfl⟩))
      · exact .inr ⟨number, number'⟩

theorem exists_mark_of_float {text : List Char} (h : Matches Shape.float text) :
    ∃ c ∈ text, c ∈ ['.', 'e', 'E'] := by
  obtain ⟨_, _, rfl, -, unsigned⟩ := matches_seq_iff.mp h
  obtain ⟨_, scale, rfl, -, marked⟩ := matches_seq_iff.mp unsigned
  rcases matches_alt_iff.mp marked with point | exponent
  · obtain ⟨_, _, rfl, mark, -⟩ := matches_seq_iff.mp point
    obtain ⟨c, rfl, same⟩ := matches_one_iff.mp mark
    exact ⟨c, by simp, by simp [beq_iff_eq.mp same]⟩
  · obtain ⟨_, _, rfl, mark, -⟩ := matches_seq_iff.mp exponent
    obtain ⟨c, rfl, same⟩ := matches_one_iff.mp mark
    exact ⟨c, by simp, List.mem_cons_of_mem _ (by simpa using same)⟩

/-- An integer with a point or an exponent mark in it is hexadecimal, and no fraction is. -/
theorem not_integer_of_float {text : List Char} (h : Matches Shape.float text) :
    ¬ Matches Shape.integer text := by
  intro integer
  obtain ⟨s, size, rfl, signed, unsigned⟩ := matches_seq_iff.mp integer
  rcases matches_alt_iff.mp unsigned with hexadecimal | decimal
  · obtain ⟨_, _, rfl, -, after⟩ := matches_seq_iff.mp hexadecimal
    obtain ⟨_, _, rfl, base, -⟩ := matches_seq_iff.mp after
    obtain ⟨c, rfl, x⟩ := matches_one_iff.mp base
    simp only [Bool.or_eq_true, beq_iff_eq] at x
    have held : holds c Shape.float = true := holds_of_matches h (by simp)
    rcases x with rfl | rfl
    · exact absurd held (by decide)
    · exact absurd held (by decide)
  · obtain ⟨c, inside, mark⟩ := exists_mark_of_float h
    have held : holds c (seq Shape.sign Shape.digits) = true :=
      holds_of_matches (.seq signed decimal) inside
    simp only [List.mem_cons, List.not_mem_nil, or_false] at mark
    rcases mark with rfl | rfl | rfl
    · exact absurd held (by decide)
    · exact absurd held (by decide)
    · exact absurd held (by decide)

/-- Of two rules for the same text one is for symbols, and the other is preferred to it. -/
theorem tied_of_matches {text : List Char} {r r' : Rule} (h : r.shape.Matches text)
    (h' : r'.shape.Matches text) : Tied r r' := by
  cases text with
  | nil =>
    have nullable := nullable_iff.mpr h
    simp [not_nullable_of_mem (mem_rules r)] at nullable
  | cons c t =>
    rcases tied_of_begins (begins_of_matches h) (begins_of_matches h') with tied | ⟨number, number'⟩
    · exact tied
    · -- numbers begin alike, but no integer is a fraction
      simp only [numbers, List.mem_cons, List.not_mem_nil, or_false] at number number'
      rcases number with rfl | rfl <;> rcases number' with rfl | rfl
      · exact .inl rfl
      · exact absurd h (not_integer_of_float h')
      · exact absurd h' (not_integer_of_float h)
      · exact .inl rfl

theorem tie (text : List Char) : rules.Pairwise fun r r' =>
    r.shape.Matches text → r'.shape.Matches text → r ∈ preferred ∧ r' = .symbol := by
  have ordered : rules.Pairwise fun r r' => r ≠ r' ∧ ¬ (r' ∈ preferred ∧ r = .symbol) := by decide
  refine ordered.imp ?_
  rintro r r' ⟨apart, order⟩ h h'
  rcases tied_of_matches h h' with same | first | second
  · exact absurd same apart
  · exact first
  · exact absurd second order

end FormCode.Token
