import FormCode.Proofs.Token.Division
import FormCode.Proofs.Token.Lexeme

/-! The texts of atoms. Each stands in front of whatever may follow it and is taken as one token. -/
namespace FormCode

/-- Some text has this atom as its only token. -/
def Token.Yielded (a : Atom) : Prop := ∃ source place, Token.lex source = .ok [⟨place, .atom a⟩]

/-- The atoms whose text can be read back. -/
def Atom.Readable : Atom → Prop
  | .float x => x.isFinite = true
  | .char c => c ∉ ['\r', '\x0c', ',', '(', ')', '[', ']', '\x7b', '\x7d']
  | .keyword name => Token.Yielded (.keyword name)
  | .symbol name => Token.Yielded (.symbol name)
  | _ => True

namespace Token

open Regex

/-- A text that is a lexeme of its own and stands for `a`. -/
structure Written (a : Atom) (text : List Char) : Prop where
  head : ∃ c ∈ text.head?, c ∉ breaks
  chosen : longestOf rules text = some (text.length, ruleOf a)
  stands : (ruleOf a).atom? text = some a

theorem Written.piece {a : Atom} {text rest : List Char} (h : Written a text)
    (stop : Stops rest) : piece (text ++ rest) = .token text.length (.atom a) := by
  obtain ⟨⟨c, first, plain⟩, chosen, stands⟩ := h
  obtain ⟨t, rfl⟩ := List.head?_eq_some_iff.mp first
  exact piece_plain plain stop chosen (Rule.meaning_eq_atom_iff.mpr stands)

theorem written_nil : Written .nil ['n', 'i', 'l'] :=
  ⟨⟨'n', rfl, by decide⟩, rfl, rfl⟩

theorem written_true : Written (.bool true) ['t', 'r', 'u', 'e'] :=
  ⟨⟨'t', rfl, by decide⟩, rfl, rfl⟩

theorem written_false : Written (.bool false) ['f', 'a', 'l', 's', 'e'] :=
  ⟨⟨'f', rfl, by decide⟩, rfl, rfl⟩

def isNumberStart (c : Char) : Bool := c.isDigit || c == '-'

theorem not_mem_breaks_of_number {c : Char} (h : isNumberStart c = true) : c ∉ breaks :=
  not_mem_of_class h (by decide)

theorem signed_start (negative : Bool) {digits : List Char} (first : digits ≠ [])
    (all : ∀ c ∈ digits, c.isDigit = true) (rest : List Char) : ∃ c t,
      (if negative then ['-'] else []) ++ (digits ++ rest) = c :: t ∧ isNumberStart c = true := by
  obtain ⟨c, digits, rfl⟩ := List.exists_cons_of_ne_nil first
  cases negative with
  | true => exact ⟨'-', _, rfl, rfl⟩
  | false => exact ⟨c, _, rfl, by simp [isNumberStart, all c]⟩

theorem matches_sign (negative : Bool) :
    Shape.sign.Matches (if negative then ['-'] else []) := by
  cases negative with
  | true => exact .left (.one rfl)
  | false => exact .right .empty

theorem matches_integer {s digits : List Char} (signed : Shape.sign.Matches s)
    (first : digits ≠ []) (all : ∀ c ∈ digits, c.isDigit = true) :
    Shape.integer.Matches (s ++ digits) :=
  .seq signed (.right (matches_plus_one first all))

theorem matches_float {s whole places : List Char} (signed : Shape.sign.Matches s)
    (first : whole ≠ []) (all : ∀ c ∈ whole ++ places, c.isDigit = true) :
    Shape.float.Matches (s ++ (whole ++ '.' :: places)) := by
  have before : Shape.digits.Matches whole :=
    matches_plus_one first fun c member => all c (List.mem_append_left _ member)
  have after : Matches (.star (.one Char.isDigit)) places :=
    matches_star_one fun c member => all c (List.mem_append_right _ member)
  have unscaled : Matches (.seq (.star (.one Char.isDigit)) (opt Shape.exponent)) (places ++ []) :=
    .seq after (.right .empty)
  rw [List.append_nil] at unscaled
  exact .seq signed (.seq before (.left (.seq (.one rfl) unscaled)))

theorem written_int (n : Int64) : Written (.int n) (Numeral.ofInt n.toInt) := by
  have all : ∀ c ∈ Numeral.toDigits n.toInt.natAbs, c.isDigit = true :=
    fun _ => Numeral.isDigit_of_mem_toDigits
  have nonempty := Numeral.toDigits_ne_nil n.toInt.natAbs
  have written : Numeral.ofInt n.toInt =
      (if decide (n.toInt < 0) then ['-'] else []) ++ Numeral.toDigits n.toInt.natAbs := by
    rw [Numeral.ofInt]
    split <;> simp [*]
  have own : Shape.integer.Matches (Numeral.ofInt n.toInt) := by
    rw [written]
    exact matches_integer (matches_sign _) nonempty all
  obtain ⟨c, t, split, start⟩ := signed_start (decide (n.toInt < 0)) nonempty all []
  rw [List.append_nil, ← written] at split
  have stands : Rule.integer.atom? (Numeral.ofInt n.toInt) = some (.int n) := by
    rw [Rule.atom?, Numeral.int64?_ofInt]
    rfl
  exact ⟨⟨c, by simp [split], not_mem_breaks_of_number start⟩,
    longestOf_described own (by simp [ruleOf]), stands⟩

theorem written_float {x : Binary64} (finite : x.isFinite = true) :
    Written (.float x) x.literal := by
  obtain ⟨whole, places, written, nonempty, all, -⟩ := Binary64.literal_eq finite
  have own : Shape.float.Matches x.literal := by
    rw [written]
    exact matches_float (matches_sign _) nonempty all
  obtain ⟨c, t, split, start⟩ := signed_start x.isNegative nonempty
    (fun c member => all c (List.mem_append_left _ member)) ('.' :: places)
  rw [← Binary64.sign, ← written] at split
  have stands : Rule.float.atom? x.literal = some (.float x) := by
    rw [Rule.atom?, Binary64.ofNumeral_literal finite]
  exact ⟨⟨c, by simp [split], not_mem_breaks_of_number start⟩,
    longestOf_described own (by simp [ruleOf]), stands⟩

theorem matches_char {c : Char} (readable : (Atom.char c).Readable) :
    Shape.char.Matches (Text.CharLiteral.encode c) := by
  unfold Text.CharLiteral.encode
  split
  · exact matches_iff_nullable.mpr rfl
  · exact matches_iff_nullable.mpr rfl
  · exact matches_iff_nullable.mpr rfl
  · rename_i feed space tab
    simp only [Atom.Readable, List.mem_cons, not_or] at readable
    have unnamed : c ≠ '\n' ∧ c ≠ ' ' ∧ c ≠ '\t' := ⟨feed, space, tab⟩
    have single : (!isSkipped c && !isBracket c) = true := by
      simp [isSkipped, isBracket, unnamed, readable]
    exact .seq (s := ['\\']) (.one rfl)
      (.right (.right (.right (.right (.right (.one single))))))

theorem written_char {c : Char} (readable : (Atom.char c).Readable) :
    Written (.char c) (Text.CharLiteral.encode c) := by
  have stands : Rule.char.atom? (Text.CharLiteral.encode c) = some (.char c) := by
    rw [Rule.atom?, Text.CharLiteral.decode_encode]
    rfl
  have own : (ruleOf (.char c)).shape.Matches (Text.CharLiteral.encode c) := matches_char readable
  exact ⟨⟨'\\', rfl, by decide⟩, longestOf_described own (by simp [ruleOf]), stands⟩

theorem Yielded.piece {a : Atom} (h : Yielded a) : ∃ text n, piece text = .token n (.atom a) := by
  obtain ⟨source, place, lexed⟩ := h
  exact (scan_ok_iff.mp ⟨_, mapError_eq_ok.mp lexed, rfl⟩).piece_of_mem (by simp)

theorem matches_of_chosen {text : List Char} {n : Nat} {rule : Rule}
    (h : longestOf rules text = some (n, rule)) : rule.shape.Matches (text.take n) :=
  (matches_of_longest (longestOf_mem h).2).2

theorem written_symbol {name : String} (h : Yielded (.symbol name)) :
    Written (.symbol name) name.toList := by
  obtain ⟨text, n, found⟩ := h.piece
  obtain ⟨lexeme, rule, chosen, meant⟩ := chosen_of_piece found
  have stands := Rule.meaning_eq_atom_iff.mp meant
  obtain rfl := eq_ruleOf stands
  obtain rfl : name.toList = lexeme := by
    cases stands
    exact String.toList_ofList
  have own := matches_of_chosen chosen
  rw [List.take_length] at own
  obtain ⟨s, t, split, head, -⟩ := matches_seq_iff.mp own
  obtain ⟨c, rfl, start⟩ := matches_one_iff.mp head
  exact ⟨⟨c, by simp [split], not_mem_of_class start (by decide)⟩, chosen, stands⟩

theorem written_keyword {name : String} (h : Yielded (.keyword name)) :
    Written (.keyword name) (':' :: name.toList) := by
  obtain ⟨text, n, found⟩ := h.piece
  obtain ⟨lexeme, rule, chosen, meant⟩ := chosen_of_piece found
  have stands := Rule.meaning_eq_atom_iff.mp meant
  obtain rfl := eq_ruleOf stands
  have rest : name.toList = lexeme.drop 1 := by
    cases stands
    exact String.toList_ofList
  have own := matches_of_chosen chosen
  rw [List.take_length] at own
  obtain ⟨s, t, rfl, head, -⟩ := matches_seq_iff.mp own
  obtain ⟨c, rfl, colon⟩ := matches_one_iff.mp head
  obtain rfl : c = ':' := by simpa using colon
  rw [rest]
  exact ⟨⟨':', rfl, by decide⟩, chosen, stands⟩

theorem written_render {a : Atom} (readable : a.Readable) (other : ∀ s, a ≠ .string s) :
    Written a a.render := by
  cases a with
  | nil => exact written_nil
  | bool b =>
    cases b with
    | true => exact written_true
    | false => exact written_false
  | int n => exact written_int n
  | float x => exact written_float readable
  | char c => exact written_char readable
  | string s => exact absurd rfl (other s)
  | keyword name => exact written_keyword readable
  | symbol name => exact written_symbol readable

/-- Strings end by themselves; the other atoms need what may follow them to end. -/
theorem piece_render {a : Atom} (readable : a.Readable) {rest : List Char} (stop : Stops rest) :
    piece (a.render ++ rest) = .token a.render.length (.atom a) := by
  by_cases string : ∃ s, a = .string s
  · obtain ⟨s, rfl⟩ := string
    have taken := piece_string s.toList rest
    rwa [String.ofList_toList] at taken
  · exact (written_render readable fun s same => string ⟨s, same⟩).piece stop

theorem render_unskipped {a : Atom} (readable : a.Readable) :
    ∃ c ∈ a.render.head?, isSkipped c = false := by
  by_cases string : ∃ s, a = .string s
  · obtain ⟨s, rfl⟩ := string
    exact ⟨'"', rfl, rfl⟩
  · obtain ⟨c, first, plain⟩ :=
      (written_render readable fun s same => string ⟨s, same⟩).head
    exact ⟨c, first, isSkipped_of_not_mem_breaks plain⟩

end Token

end FormCode
