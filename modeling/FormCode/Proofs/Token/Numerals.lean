import FormCode.Proofs.Numeral.Literal
import FormCode.Proofs.Token.Faults
import FormCode.Proofs.Token.Printed

/-! Integer numerals as whole sources. The rule for integers describes every numeral as a whole and
no other rule comes before it, so what a numeral is lexed as hangs on its value alone: it is the
integer if that has 64 bits, and an error otherwise. -/
namespace FormCode.Token

open Regex Numeral

theorem matches_sign_text (sign : Sign) : Shape.sign.Matches sign.text := by
  cases sign with
  | none => exact .right .empty
  | plus => exact .left (.one rfl)
  | minus => exact .left (.one rfl)

theorem matches_literal (l : Literal) : Shape.integer.Matches l.text := by
  apply Matches.seq (matches_sign_text l.sign)
  cases base : l.base with
  | decimal => exact .right (matches_plus_one l.nonempty (Literal.isDigit_of_mem base))
  | hexadecimal capital =>
    have digits := matches_plus_one l.nonempty (Literal.isHexDigit_of_mem base)
    apply Matches.left
    cases capital with
    | false => exact .seq (s := ['0']) (.one rfl) (.seq (s := ['x']) (.one rfl) digits)
    | true => exact .seq (s := ['0']) (.one rfl) (.seq (s := ['X']) (.one rfl) digits)

theorem exists_start (l : Literal) : ∃ c rest, l.text = c :: rest ∧ isSignOrDigit c = true := by
  cases sign : l.sign with
  | none =>
    obtain ⟨c, rest, split, digit⟩ := l.exists_digit
    exact ⟨c, rest, by simp [Literal.text, sign, Sign.text, split], by simp [isSignOrDigit, digit]⟩
  | plus => exact ⟨'+', _, by rw [Literal.text, sign]; rfl, rfl⟩
  | minus => exact ⟨'-', _, by rw [Literal.text, sign]; rfl, rfl⟩

theorem chosen_literal (l : Literal) :
    longestOf rules l.text = some (l.text.length, .integer) :=
  longestOf_described (matches_literal l) (by decide)

theorem meaning_literal (l : Literal) : Rule.integer.meaning l.text =
    (int64? l.text).map fun k => .token (.atom (.int k)) := Option.map_map ..

theorem exists_int64_iff {n : Int} :
    (∃ k : Int64, k.toInt = n) ↔ -2 ^ 63 ≤ n ∧ n ≤ 2 ^ 63 - 1 := by
  constructor
  · rintro ⟨k, rfl⟩
    have lower := k.le_toInt
    have upper := k.toInt_lt
    omega
  · rintro ⟨lower, upper⟩
    exact ⟨.ofInt n, Int64.toInt_ofInt_of_le lower (by omega)⟩

theorem int64?_literal (l : Literal) (k : Int64) :
    int64? l.text = some k ↔ k.toInt = l.value := by
  rw [int64?_eq, l.integer_text]
  constructor
  · intro h
    split at h
    case isTrue range =>
      cases h
      exact Int64.toInt_ofInt_of_le range.1 (Int.lt_of_le_of_lt range.2 (by decide))
    case isFalse => contradiction
  · intro same
    rw [← same, if_pos ⟨k.minValue_le_toInt, k.toInt_le⟩, Int64.ofInt_toInt]

theorem lex_ofList (text : List Char) : lex (.ofList text) =
    (scan text).mapError fun fault => .lexing fault.place fault.item.message := by
  rw [lex, String.toList_ofList]

theorem lex_of_value {l : Literal} {k : Int64} (value : k.toInt = l.value) :
    lex (.ofList l.text) = .ok [⟨.first, .atom (.int k)⟩] := by
  have chosen := chosen_literal l
  have meant := meaning_literal l
  rw [(int64?_literal l k).mpr value] at meant
  have taken : piece (l.text ++ []) = .token l.text.length (.atom (.int k)) :=
    piece_of_chosen (by rwa [List.append_nil]) meant fun _ => rfl
  rw [List.append_nil] at taken
  rw [lex_ofList, scan_of_piece taken]
  rfl

theorem lex_of_no_value {l : Literal} (large : ¬ ∃ k : Int64, k.toInt = l.value) :
    lex (.ofList l.text) = .error (.lexing .first ("Invalid number: " ++ .ofList l.text)) := by
  have chosen := chosen_literal l
  have meant := meaning_literal l
  have none : int64? l.text = none := by
    rw [Option.eq_none_iff_forall_ne_some]
    intro k found
    exact large ⟨k, (int64?_literal l k).mp found⟩
  rw [none] at meant
  have wrong : piece l.text = .fault (.of l.text) := by
    simp [piece, chosen, meant]
  obtain ⟨c, rest, split, start⟩ := exists_start l
  rw [split] at wrong ⊢
  rw [lex_ofList, scan_of_fault wrong, of_number start]
  rfl

/-- A numeral that is a whole source is the integer of its value if this has 64 bits, and an error
that quotes the numeral otherwise. Nothing but the value matters: not zeros in front, nor the way
in which sign and base are written. No size is negated out of the wider words, and every integer is
lexed from its own text. -/
theorem lex_numeral (l : Literal) :
    ((∃ k : Int64, k.toInt = l.value ∧
        lex (.ofList l.text) = .ok [⟨.first, .atom (.int k)⟩]) ↔
      -2 ^ 63 ≤ l.value ∧ l.value ≤ 2 ^ 63 - 1) ∧
    (¬ (-2 ^ 63 ≤ l.value ∧ l.value ≤ 2 ^ 63 - 1) →
      lex (.ofList l.text) = .error (.lexing .first ("Invalid number: " ++ .ofList l.text))) ∧
    (∀ zeros, (l.pad zeros).value = l.value) ∧
    (∀ m : Literal, m.value = l.value → ∀ tokens,
      lex (.ofList m.text) = .ok tokens ↔ lex (.ofList l.text) = .ok tokens) ∧
    (∀ size word, sizeWord? size = some word → word.toInt = size ∧ (-word).toInt = -word.toInt) ∧
    (∀ k : Int64, lex (Value.atom (.int k)).text = .ok [⟨.first, .atom (.int k)⟩]) := by
  refine ⟨?_, ?_, l.value_pad, ?_, ?_, ?_⟩
  · rw [← exists_int64_iff]
    exact exists_congr fun k => and_iff_left_of_imp lex_of_value
  · rw [← exists_int64_iff]
    exact lex_of_no_value
  · intro m same tokens
    by_cases value : ∃ k : Int64, k.toInt = l.value
    · obtain ⟨k, value⟩ := value
      rw [lex_of_value value, lex_of_value (value.trans same.symm)]
    · rw [lex_of_no_value value, lex_of_no_value (same ▸ value)]
      simp
  · intro size word found
    exact ⟨toInt_sizeWord? found, toInt_neg_sizeWord? found⟩
  · intro k
    exact lex_text_of_readable (a := .int k) trivial

/-- The least integer has a numeral, but its size alone has none. -/
theorem lex_numeral_least :
    lex "-0X8000000000000000" = .ok [⟨.first, .atom (.int Int64.minValue)⟩] ∧
      lex "0X8000000000000000" =
        .error (.lexing .first "Invalid number: 0X8000000000000000") := by
  have eight : digitValue '8' = 8 := by decide
  have zero : digitValue '0' = 0 := by decide
  have known : ∀ c ∈ '8' :: List.replicate 15 '0', digitValue c < 16 := by
    simp [eight, zero]
  let large : Literal := ⟨.none, .hexadecimal true, '8' :: List.replicate 15 '0', by simp, known⟩
  let least : Literal := { large with sign := .minus }
  have size : large.size = 2 ^ 63 := by
    simp [large, Literal.size, Base.radix, eight, zero, Nat.ofDigits_cons]
  have negative : least.value = -2 ^ 63 := congrArg (fun n : Nat => (-n : Int)) size
  have positive : large.value = 2 ^ 63 := congrArg (fun n : Nat => (n : Int)) size
  have leastText : String.ofList least.text = "-0X8000000000000000" := rfl
  have largeText : String.ofList large.text = "0X8000000000000000" := rfl
  constructor
  · obtain ⟨k, same, lexed⟩ := (lex_numeral least).1.mpr (by rw [negative]; decide)
    obtain rfl : k = Int64.minValue := Int64.toInt_inj.mp (same.trans negative)
    rwa [leastText] at lexed
  · have refused := (lex_numeral large).2.1 (by rw [positive]; decide)
    rwa [largeText] at refused

end FormCode.Token
