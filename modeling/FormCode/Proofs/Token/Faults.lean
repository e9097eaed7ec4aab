import Mathlib
import FormCode.Proofs.Token.AtomText
import FormCode.Proofs.Token.Places

/-! The first bad lexeme. The text before a fault is lexed on its own as well, because a longest
match gets no longer when the text is cut off behind it. The fault quotes the text that begins at
its place, and the character there tells its kind. -/
namespace FormCode

namespace Location

theorem behind_take_before {text : List Char} {p q : Nat} (less : p < q) (bound : q ≤ text.length) :
    (behind (text.take p)).Before (behind (text.take q)) := by
  have longer : text.take q = text.take p ++ (text.drop p).take (q - p) := by
    rw [← List.take_add, Nat.add_sub_cancel' (Nat.le_of_lt less)]
  have more : (text.drop p).take (q - p) ≠ [] := by
    apply List.ne_nil_of_length_pos
    rw [List.length_take, List.length_drop]
    omega
  rw [longer, ← advance_first, ← advance_first, advance_append]
  exact before_advance _ more

theorem not_before_self (place : Location) : ¬ place.Before place := by
  unfold Before
  omega

theorem behind_take_injective {text : List Char} {p q : Nat} (hp : p ≤ text.length)
    (hq : q ≤ text.length) (same : behind (text.take p) = behind (text.take q)) : p = q := by
  rcases Nat.lt_trichotomy p q with less | equal | greater
  · have ahead := behind_take_before less hq
    rw [same] at ahead
    exact absurd ahead (not_before_self _)
  · exact equal
  · have ahead := behind_take_before greater hp
    rw [same] at ahead
    exact absurd ahead (not_before_self _)

/-- The character with number `p` stands at `place`. -/
def CharAt (text : List Char) (p : Nat) (place : Location) : Prop :=
  p < text.length ∧ place = behind (text.take p)

theorem charAt_iff {text : List Char} {p : Nat} (within : p < text.length) (q : Nat) :
    CharAt text q (behind (text.take p)) ↔ q = p := by
  constructor
  · rintro ⟨bound, same⟩
    exact behind_take_injective (Nat.le_of_lt bound) (Nat.le_of_lt within) same.symm
  · rintro rfl
    exact ⟨within, rfl⟩

end Location

namespace Token

open Regex

/-- A rule that decides for a piece still does when the text is cut off behind it. -/
theorem Decides.cut {rule : Rule} {lexeme kept rest : List Char}
    (h : Decides rule lexeme (kept ++ rest)) : Decides rule lexeme kept := by
  refine ⟨h.member, h.own, fun r member s begins matched => ?_, h.first⟩
  apply h.longest r member s _ matched
  rw [← List.append_assoc]
  exact begins.trans (List.prefix_append _ rest)

theorem isDelimited_cut {kept rest : List Char} (h : isDelimited (kept ++ rest) = true) :
    isDelimited kept = true := by
  cases kept with
  | nil => rfl
  | cons c kept => exact h

theorem piece_blank_cut {lexeme kept rest : List Char}
    (h : piece (lexeme ++ (kept ++ rest)) = .blank lexeme.length) :
    piece (lexeme ++ kept) = .blank lexeme.length := by
  obtain ⟨rule, decides, meant⟩ := piece_eq_blank_iff_decides.mp h
  exact piece_eq_blank_iff_decides.mpr ⟨rule, decides.cut, meant⟩

theorem piece_token_cut {lexeme kept rest : List Char} {t : Token}
    (h : piece (lexeme ++ (kept ++ rest)) = .token lexeme.length t) :
    piece (lexeme ++ kept) = .token lexeme.length t := by
  obtain ⟨rule, decides, meant, free⟩ := piece_eq_token_iff_decides.mp h
  exact piece_eq_token_iff_decides.mpr
    ⟨rule, decides.cut, meant, fun needed => isDelimited_cut (free needed)⟩

theorem Scans.suffix (h : Scans text tokens rest) : rest <:+ text := by
  induction h with
  | done => exact List.suffix_refl _
  | blank _ _ ih => exact ih.trans (List.drop_suffix ..)
  | token _ _ ih => exact ih.trans (List.drop_suffix ..)

theorem exists_lexeme_before {text before rest : List Char} {n : Nat} (bound : n ≤ text.length)
    (split : text = before ++ rest) (h : rest <:+ text.drop n) :
    ∃ lexeme kept, before = lexeme ++ kept ∧ n = lexeme.length ∧ text.drop n = kept ++ rest := by
  have room := h.length_le
  rw [List.length_drop, split, List.length_append] at room
  rw [split, List.length_append] at bound
  have within : n ≤ before.length := by omega
  refine ⟨before.take n, before.drop n, (List.take_append_drop n before).symm,
    (List.length_take_of_le within).symm, ?_⟩
  rw [split, List.drop_append_of_le_length within]

theorem Scans.cut (h : Scans text tokens rest) {before : List Char}
    (split : text = before ++ rest) : Scans before tokens [] := by
  induction h generalizing before with
  | done =>
    obtain rfl := List.append_left_eq_self.mp split.symm
    exact .done
  | blank first others ih =>
    obtain ⟨rule, chosen, -⟩ := piece_eq_blank_iff.mp first
    obtain ⟨lexeme, kept, rfl, rfl, behind⟩ :=
      exists_lexeme_before (longestOf_pos chosen).2 split others.suffix
    rw [split, List.append_assoc] at first
    have tail := ih behind
    exact .blank (piece_blank_cut first) (by rwa [List.drop_left])
  | token first others ih =>
    obtain ⟨rule, chosen, -⟩ := piece_eq_token_iff.mp first
    obtain ⟨lexeme, kept, rfl, rfl, behind⟩ :=
      exists_lexeme_before (longestOf_pos chosen).2 split others.suffix
    rw [split, List.append_assoc] at first
    have tail := ih behind
    exact .token (piece_token_cut first) (by rwa [List.drop_left])

theorem Reaches.lexed {source before rest : List Char} {tokens : List Token}
    (h : Reaches source tokens before rest) :
    ∃ located, lex (.ofList before) = .ok located ∧ located.map Located.item = tokens := by
  obtain ⟨located, scanned, items⟩ := scan_ok_iff.mpr (h.scans.cut h.split)
  refine ⟨located, ?_, items⟩
  rw [lex, String.toList_ofList, scanned]
  rfl

def Fault.quoted : Fault → List Char
  | .string text | .character text | .number text | .unexpected text => text

theorem quoted_of (text : List Char) : (Fault.of text).quoted = text := by
  unfold Fault.of
  split
  · rfl
  · rfl
  · split <;> rfl
  · rfl

/-- A token that touches what follows is a fault of its own kind. -/
def touching : Token → List Char → Fault
  | .atom (.char _) => .character
  | _ => .number

/-- The ways in which no piece begins a text: no rule describes a beginning of it, or the rule that
is chosen finds no meaning, or the token touches what follows. -/
inductive Bad (text : List Char) : Fault → Prop
  | unmatched (none : ∀ rule ∈ rules, rule.shape.longest text = none) :
    Bad text (.of (unmatched text))
  | meaningless (chosen : longestOf rules text = some (n, rule))
      (none : rule.meaning (text.take n) = none) : Bad text (.of (text.take n))
  | touching (chosen : longestOf rules text = some (n, rule))
      (meant : rule.meaning (text.take n) = some (.token t)) (needed : t.needsDelimiter = true)
      (touches : isDelimited (text.drop n) = false) :
    Bad text (t.touching (text.take n ++ (text.drop n).takeWhile fun c => !isDelimiter c))

def isSignOrDigit (c : Char) : Bool := c.isDigit || c == '-' || c == '+'

theorem isSignOrDigit_of_begins_integer {c : Char} (h : begins c Shape.integer = true) :
    isSignOrDigit c = true := by
  simp [Shape.integer, Shape.sign, Shape.digits, plus, opt, just, begins, nullable] at h
  rcases h with (rfl | rfl) | rfl | digit
  · rfl
  · rfl
  · rfl
  · simp [isSignOrDigit, digit]

theorem isSignOrDigit_of_begins_float {c : Char} (h : begins c Shape.float = true) :
    isSignOrDigit c = true := by
  simp [Shape.float, Shape.sign, Shape.digits, plus, opt, begins, nullable] at h
  rcases h with (rfl | rfl) | digit
  · rfl
  · rfl
  · simp [isSignOrDigit, digit]

theorem of_number {c : Char} (start : isSignOrDigit c = true) (text : List Char) :
    Fault.of (c :: text) = .number (c :: text) := by
  have quote : c ≠ '"' := by
    rintro rfl
    contradiction
  have backslash : c ≠ '\\' := by
    rintro rfl
    contradiction
  rw [Fault.of.eq_3 c text quote backslash]
  exact if_pos start

theorem of_touching {rule : Rule} {c : Char} {lexeme : List Char} {t : Token}
    (matched : rule.shape.Matches (c :: lexeme))
    (meant : rule.meaning (c :: lexeme) = some (.token t)) (needed : t.needsDelimiter = true)
    (more : List Char) : Fault.of (c :: more) = t.touching (c :: more) := by
  have start := begins_of_matches matched
  cases t with
  | atom a =>
    obtain rfl := eq_ruleOf (Rule.meaning_eq_atom_iff.mp meant)
    cases a with
    | int n => exact of_number (isSignOrDigit_of_begins_integer start) more
    | float x => exact of_number (isSignOrDigit_of_begins_float start) more
    | char d =>
      obtain rfl : c = '\\' := by
        simpa [ruleOf, Rule.shape, Shape.char, just, begins, nullable] using start
      rfl
    | _ => contradiction
  | _ => contradiction

theorem bad_of_piece {c : Char} {text : List Char} {fault : Fault}
    (h : piece (c :: text) = .fault fault) : Bad (c :: text) fault := by
  unfold piece at h
  split at h
  case h_1 none =>
    cases h
    exact .unmatched (longestOf_eq_none_iff.mp none)
  case h_2 n rule chosen =>
    obtain ⟨least, -⟩ := longestOf_pos chosen
    obtain ⟨n, rfl⟩ := Nat.exists_eq_succ_of_ne_zero (Nat.ne_of_gt least)
    split at h
    case h_1 none =>
      cases h
      exact .meaningless chosen none
    case h_2 => contradiction
    case h_3 t meant =>
      split at h
      case isFalse => contradiction
      case isTrue touches =>
        rw [Bool.and_eq_true, Bool.not_eq_true'] at touches
        cases h
        have matched := matches_of_chosen chosen
        rw [List.take_succ_cons] at matched meant
        rw [List.take_succ_cons, List.cons_append,
          of_touching matched meant touches.1]
        exact .touching chosen meant touches.1 touches.2

theorem take_pos {c : Char} {text : List Char} {n : Nat} (least : 0 < n) :
    ∃ more, (c :: text).take n = c :: more := by
  obtain ⟨n, rfl⟩ := Nat.exists_eq_succ_of_ne_zero (Nat.ne_of_gt least)
  exact ⟨text.take n, List.take_succ_cons⟩

theorem exists_unmatched (c : Char) (text : List Char) :
    ∃ more, unmatched (c :: text) = c :: more := by
  apply take_pos
  cases opened : Shape.openString.longest (c :: text) with
  | none => exact Nat.one_pos
  | some n =>
    apply Nat.pos_of_ne_zero
    rintro rfl
    exact absurd (nullable_iff.mpr (matches_of_longest opened).2) (by decide)

/-- A fault is the one that its text suggests, and the text is found where it stands. -/
theorem Bad.suggested {c : Char} {text : List Char} {fault : Fault} (bad : Bad (c :: text) fault) :
    ∃ more, fault = .of (c :: more) ∧ c :: more <+: c :: text := by
  cases bad with
  | unmatched none =>
    obtain ⟨more, shape⟩ := exists_unmatched c text
    exact ⟨more, congrArg Fault.of shape, shape ▸ List.take_prefix ..⟩
  | @meaningless n rule chosen none =>
    obtain ⟨more, shape⟩ := @take_pos c text n (longestOf_pos chosen).1
    exact ⟨more, congrArg Fault.of shape, shape ▸ List.take_prefix ..⟩
  | @touching n rule t chosen meant needed touches =>
    obtain ⟨more, shape⟩ := @take_pos c text n (longestOf_pos chosen).1
    have matched := matches_of_chosen chosen
    have begun : (c :: text).take n ++
        ((c :: text).drop n).takeWhile (fun c => !isDelimiter c) <+: c :: text := by
      nth_rewrite 3 [← List.take_append_drop n (c :: text)]
      exact (List.prefix_append_right_inj _).mpr (List.takeWhile_prefix _)
    rw [shape] at matched meant begun ⊢
    exact ⟨_, (of_touching matched meant needed _).symm, begun⟩

/-- The message that quotes a text, as its first character has it. -/
inductive Reports : List Char → String → Prop
  | string : Reports ('"' :: more) ("Invalid string literal: " ++ .ofList ('"' :: more))
  | character : Reports ('\\' :: more) ("Unsupported character: " ++ .ofList ('\\' :: more))
  | number (start : isSignOrDigit c = true) :
    Reports (c :: more) ("Invalid number: " ++ .ofList (c :: more))
  | unexpected (string : c ≠ '"') (character : c ≠ '\\')
      (number : isSignOrDigit c = false) :
    Reports (c :: more) ("Unexpected character: '" ++ .ofList (c :: more) ++ "'")

theorem reports_of (c : Char) (more : List Char) :
    Reports (c :: more) (Fault.of (c :: more)).message := by
  by_cases string : c = '"'
  · subst string
    exact .string
  by_cases character : c = '\\'
  · subst character
    exact .character
  rw [Fault.of.eq_3 c more string character]
  split
  case isTrue start => exact .number start
  case isFalse other => exact .unexpected string character (Bool.eq_false_of_not_eq_true other)

/-- An error points at the first bad lexeme: exactly one character of the source stands at its
place, the text before it is lexed, and what begins there is bad. The message quotes some of it, in
words that hang on its first character. -/
theorem lex_error_first_bad {source : String} {error : Error} (failed : lex source = .error error) :
    ∃ place p fault, error = .lexing place fault.message ∧
      (∀ q, Location.CharAt source.toList q place ↔ q = p) ∧
      (∃ tokens, lex (.ofList (source.toList.take p)) = .ok tokens) ∧
      Bad (source.toList.drop p) fault ∧ fault.quoted ≠ [] ∧
      fault.quoted <+: source.toList.drop p ∧ Reports fault.quoted fault.message := by
  obtain ⟨tokens, before, c, rest, fault, reaches, wrong, rfl⟩ := lex_error_place failed
  have bad := bad_of_piece wrong
  obtain ⟨more, suggested, begun⟩ := bad.suggested
  have text : fault.quoted = c :: more := by rw [suggested, quoted_of]
  have within : before.length < source.toList.length := by simp [reaches.split]
  have cut : source.toList.take before.length = before := by rw [reaches.split, List.take_left]
  have behind : source.toList.drop before.length = c :: rest := by
    rw [reaches.split, List.drop_left]
  have only := Location.charAt_iff within
  rw [cut] at only
  obtain ⟨located, lexed, -⟩ := reaches.lexed
  refine ⟨_, before.length, fault, rfl, only, ⟨located, by rw [cut, lexed]⟩, ?_, ?_, ?_, ?_⟩
  · rwa [behind]
  · simp [text]
  · rwa [text, behind]
  · rw [text, suggested]
    exact reports_of c more

/-- A number that touches a letter, on the second line and behind a string. -/
theorem lex_error_first_bad_number :
    let source := "[a\n\"b\" 1x;"
    lex source = .error (.lexing ⟨2, 5⟩ "Invalid number: 1x") ∧
      ∃ p, (∀ q, Location.CharAt source.toList q ⟨2, 5⟩ ↔ q = p) ∧
        ∃ tokens, lex (.ofList (source.toList.take p)) = .ok tokens := by
  intro source
  have scanned : scan source.toList = .error ⟨⟨2, 5⟩, .number ['1', 'x']⟩ := by cbv
  have failed : lex source = .error (.lexing ⟨2, 5⟩ "Invalid number: 1x") := by
    rw [lex, scanned]
    rfl
  obtain ⟨place, p, fault, same, only, lexed, -⟩ := lex_error_first_bad failed
  obtain ⟨rfl, -⟩ := Error.lexing.inj same
  exact ⟨failed, p, only, lexed⟩

end Token

end FormCode
